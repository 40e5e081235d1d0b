import DartSdk.Loops.InRange
import DartSdk.Loops.Execution

namespace DartSdk.Loops
open Option Invariant LoopInfo Int64
open InductionVar (linear)
open WrapInt

inductive Comparison
  | eq | ne | lt | gt | lte | gte | eqStrict | neStrict
deriving DecidableEq

namespace Comparison

def negateComparison : Comparison → Comparison
  | eq => ne
  | ne => eq
  | lt => gte
  | gt => lte
  | lte => gt
  | gte => lt
  | eqStrict => neStrict
  | neStrict => eqStrict

def flipComparison : Comparison → Comparison
  | eq => eq
  | ne => ne
  | lt => gt
  | gt => lt
  | lte => gte
  | gte => lte
  | eqStrict => eqStrict
  | neStrict => neStrict

def holds (x y : Int64) : Comparison → Bool
  | eq => x = y
  | ne => x ≠ y
  | lt => x < y
  | gt => y < x
  | lte => x ≤ y
  | gte => y ≤ x
  | eqStrict => x = y
  | neStrict => x ≠ y

lemma holds_negateComparison (x y : Int64) (cmp : Comparison) : cmp.negateComparison.holds x y = !cmp.holds x y := by
  cases cmp <;> simp only [negateComparison, holds, ← decide_not, Int64.not_lt, Int64.not_le, Classical.not_not]

lemma holds_flipComparison (x y : Int64) (cmp : Comparison) : cmp.flipComparison.holds y x = cmp.holds x y := by
  cases cmp <;> simp [flipComparison, holds, eq_comm]

end Comparison

open Comparison

structure Branch where
  instr : Instruction
  compare : Option (Comparison × Def × Def)
  trueSuccessor : Block
  falseSuccessor : Block

structure LoopTest where
  cmp : Comparison
  x : Record
  stride : Int64
  y : Invariant

namespace LoopInfo
variable (g : FlowGraph) (loop : LoopInfo)

def loopWhile (branch : Branch) (cmp : Comparison) : Option Comparison :=
  if loop.contains branch.trueSuccessor && !loop.contains branch.falseSuccessor then some cmp
  else if !loop.contains branch.trueSuccessor && loop.contains branch.falseSuccessor then
    some cmp.negateComparison
  else none

def inductionLeft (cmp : Comparison) (x y : Record) : Option LoopTest :=
  match x.var.isLinear, y.var with
  | some stride, .invariant limit => some ⟨cmp, x, stride, limit⟩
  | _, _ =>
    match x.var, y.var.isLinear with
    | .invariant limit, some stride => some ⟨cmp.flipComparison, y, stride, limit⟩
    | _, _ => none

def loopTest (branch : Branch) : Option LoopTest := do
  let (cmp, left, right) ← branch.compare
  let cmp ← loop.loopWhile branch cmp
  let x ← loop.lookup g (g.original left)
  let y ← loop.lookup g (g.original right)
  inductionLeft cmp x y

end LoopInfo

def strictLimit (g : FlowGraph) (outer : List LoopInfo) (branch : Instruction) (test : LoopTest) :
    Option Invariant :=
  match test.cmp with
  | .lt => if test.stride = 1 then some test.y else none
  | .gt => if test.stride = -1 then some test.y else none
  | .lte =>
    if test.stride = 1 && canBeMadeExclusive g outer test.y branch false then
      test.y.add (.constant 1)
    else none
  | .gte =>
    if test.stride = -1 && canBeMadeExclusive g outer test.y branch true then
      test.y.sub (.constant 1)
    else none
  | .ne =>
    match test.x.var with
    | .linear initial _ =>
      match initial.isConstant, test.y.isConstant with
      | some start, some stop =>
        if (test.stride = 1 ∧ start < stop) ∨ (test.stride = -1 ∧ stop < start) then some test.y
        else none
      | _, _ => none
    | _ => none
  | _ => none

namespace LoopInfo
variable (g : FlowGraph) (loop : LoopInfo) (outer : List LoopInfo) (last : Instruction)

def classifyBranch (branch : Branch) : Option (Record × Bound) := do
  let test ← loop.loopTest g branch
  let limit ← strictLimit g outer branch.instr test
  return (test.x, ⟨branch.instr, limit⟩)

def addBound (branch : Branch) : LoopInfo :=
  match loop.classifyBranch g outer branch with
  | some (x, bound) =>
    { loop with
      bounds := Function.update loop.bounds x.addr (loop.bounds x.addr ++ [bound])
      control := if branch.instr = last then some x else loop.control }
  | none => loop

def classifyControl (branches : List Branch) : LoopInfo :=
  branches.foldl (fun loop branch => loop.addBound g outer last branch) loop

end LoopInfo

section
variable {g : FlowGraph} {loop : LoopInfo} {outer : List LoopInfo} {last : Instruction}

lemma lookupFrom_congr {loop' : LoopInfo} (hi : loop'.induction = loop.induction)
    (hc : loop'.contains = loop.contains) (n : ℕ) (d : Def) : loop'.lookupFrom g n d = loop.lookupFrom g n d := by
  induction n generalizing d with
  | zero => rfl
  | succ n ih =>
    have hl : loop'.lookupInduction d = loop.lookupInduction d := congrFun hi d
    simp only [lookupFrom, hl, hc, funext ih]

variable (g loop outer last) in
lemma addBound_shape (branch : Branch) : (loop.addBound g outer last branch).induction = loop.induction ∧
    (loop.addBound g outer last branch).contains = loop.contains := by
  unfold addBound
  split <;> exact ⟨rfl, rfl⟩

lemma loopTest_addBound (branch branch' : Branch) :
    (loop.addBound g outer last branch).loopTest g branch' = loop.loopTest g branch' := by
  obtain ⟨hi, hc⟩ := addBound_shape g loop outer last branch
  have hl : ∀ d, (loop.addBound g outer last branch).lookup g d = loop.lookup g d := fun d => lookupFrom_congr hi hc _ d
  simp only [loopTest, loopWhile, hl, hc]

variable {bound : Bound}

lemma classifyBranch_eq_some {branch : Branch} {x : Record}
    (h : loop.classifyBranch g outer branch = some (x, bound)) : ∃ test limit, loop.loopTest g branch = some test ∧
    strictLimit g outer branch.instr test = some limit ∧ x = test.x ∧ bound = ⟨branch.instr, limit⟩ := by
  simp only [classifyBranch, bind_eq_some] at h
  obtain ⟨test, ht, limit, hl, rfl, rfl⟩ := h
  exact ⟨test, limit, ht, hl, rfl, rfl⟩

lemma mem_bounds_classifyControl {branches : List Branch} {a : Def}
    (h : bound ∈ (loop.classifyControl g outer last branches).bounds a) :
    bound ∈ loop.bounds a ∨ ∃ branch ∈ branches, ∃ test limit, loop.loopTest g branch = some test ∧
    strictLimit g outer branch.instr test = some limit ∧ test.x.addr = a ∧ bound = ⟨branch.instr, limit⟩ := by
  induction branches generalizing loop with
  | nil => exact .inl h
  | cons branch branches ih =>
    rcases ih h with hb | ⟨b, hb, test, limit, ht, hl, ha, hbou⟩
    · dsimp only [addBound] at hb
      split at hb
      · rename_i x bound' hc
        obtain ⟨test, limit, ht, hl, rfl, rfl⟩ := classifyBranch_eq_some hc
        dsimp only at hb
        by_cases ha : test.x.addr = a
        · subst ha
          rw [Function.update_self, List.mem_append, List.mem_singleton] at hb
          rcases hb with hb | rfl
          · exact .inl hb
          · exact .inr ⟨branch, List.mem_cons_self, test, limit, ht, hl, rfl, rfl⟩
        · rw [Function.update_of_ne (Ne.symm ha)] at hb
          exact .inl hb
      · exact .inl hb
    · rw [loopTest_addBound] at ht
      exact .inr ⟨b, List.mem_cons_of_mem _ hb, test, limit, ht, hl, ha, hbou⟩

end

variable {ρ : Def → Int64}

section Runs
variable {g : FlowGraph} {loop : LoopInfo} {outer : List LoopInfo}

def Branch.StaysIn (g : FlowGraph) (loop : LoopInfo) (branch : Branch) (ρ : Def → Int64) (j : ℕ) :
    Prop :=
  ∀ cmp left right x y, branch.compare = some (cmp, left, right) →
    loop.lookup g (g.original left) = some x → loop.lookup g (g.original right) = some y →
    loop.contains (if cmp.holds (x.var.eval ρ j) (y.var.eval ρ j) then branch.trueSuccessor
      else branch.falseSuccessor) = true

variable {branch : Branch} {x y start stop : Int64}

lemma loopWhile_holds {cmp cmp' : Comparison} {a b : Int64} (h : loop.loopWhile branch cmp = some cmp')
    (hs : loop.contains (if cmp.holds a b then branch.trueSuccessor else branch.falseSuccessor) = true) :
    cmp'.holds a b = true := by
  unfold loopWhile at h
  split_ifs at h with h1 h2
  · by_contra hn
    simp_all
  · obtain rfl := some.inj h
    rw [holds_negateComparison]
    by_contra hn
    simp_all

variable {test : LoopTest}

lemma loopTest_holds {j : ℕ} (h : loop.loopTest g branch = some test) (hs : branch.StaysIn g loop ρ j) :
    test.cmp.holds (test.x.var.eval ρ j) (test.y.eval ρ) = true ∧ test.x.var.isLinear = some test.stride := by
  simp only [loopTest, bind_eq_some] at h
  obtain ⟨⟨cmp, left, right⟩, hcmp, cmp', hw, x, hx, y, hy, h⟩ := h
  have hold := loopWhile_holds hw (hs cmp left right x y hcmp hx hy)
  unfold inductionLeft at h
  split at h
  · rename_i stride limit hl hi
    obtain rfl := some.inj h
    exact ⟨by simpa [hi, InductionVar.eval] using hold, hl⟩
  · split at h
    · rename_i limit stride hi hl
      obtain rfl := some.inj h
      refine ⟨?_, hl⟩
      rw [holds_flipComparison]
      simpa [hi, InductionVar.eval] using hold
    · simp at h

/-- What the bound of a branch relies on without checking it: an inequality is evaluated whenever
the two sides are equal, and an inclusive limit that enclosing loops put below the largest value
(above the least) is there. -/
structure Regular (outer : List LoopInfo) (ρ : Def → Int64) (test : LoopTest)
    (evaluated : ℕ → Prop) (k : ℕ) : Prop where
  notSkipped : test.cmp = .ne → ∀ j < k, test.x.var.eval ρ j = test.y.eval ρ → evaluated j
  notMax : outer ≠ [] → test.cmp = .lte → test.y.eval ρ ≠ Int64.maxValue
  notMin : outer ≠ [] → test.cmp = .gte → test.y.eval ρ ≠ Int64.minValue

lemma lt_add_one (h : x ≤ y) (hy : y ≠ Int64.maxValue) : x < y + 1 := by
  have hy' : y.toInt ≠ 2 ^ 63 - 1 := fun h => hy (toInt_inj.1 (by rw [h]; rfl))
  have hr := range y
  rw [le_iff_toInt_le] at h
  have h1 := toInt_one
  have hadd : (y + 1).toInt = y.toInt + 1 := toInt_add (by unfold Fits at *; omega)
  rw [lt_iff_toInt_lt]
  omega

lemma sub_one_lt (h : y ≤ x) (hy : y ≠ Int64.minValue) : y - 1 < x := by
  have hy' : y.toInt ≠ -2 ^ 63 := fun h => hy (toInt_inj.1 (by rw [h]; rfl))
  have hr := range y
  rw [le_iff_toInt_le] at h
  have h1 := toInt_one
  have hsub : (y - 1).toInt = y.toInt - 1 := toInt_sub (by unfold Fits at *; omega)
  rw [lt_iff_toInt_lt]
  omega

variable {branch : Instruction}

lemma canBeMadeExclusive_sound (hlen : ArrayLengths g ρ) {y : Invariant}
    {isLower : Bool} (h : canBeMadeExclusive g [] y branch isLower = true) :
    y.eval ρ ≠ if isLower then Int64.minValue else Int64.maxValue := by
  unfold canBeMadeExclusive invariantBounds at h
  cases isLower with
  | true =>
    cases hc : y.isConstant with
    | none => simp [hc] at h
    | some c =>
      rw [eval_of_isConstant ρ hc]
      simp only [hc, if_true, decide_eq_true_eq] at h
      exact fun he => Int64.lt_irrefl (he ▸ h)
  | false =>
    cases hc : y.isConstant with
    | some c =>
      rw [eval_of_isConstant ρ hc]
      simp only [hc, Bool.false_eq_true, if_false, decide_eq_true_eq] at h
      exact fun he => Int64.lt_irrefl (he ▸ h)
    | none =>
      simp only [hc, Bool.false_eq_true, if_false, Bool.and_eq_true, decide_eq_true_eq] at h
      obtain ⟨⟨hm, hd⟩, ho⟩ := h
      cases hdef : y.defn with
      | none => simp [hdef, FlowGraph.isArrayLength] at hd
      | some d =>
        obtain ⟨h0, hlt⟩ := hlen d (hdef ▸ hd)
        have he : y.eval ρ = ρ d + y.offset := by rw [eval, hm, hdef, elim_some, Int64.one_mul, Int64.add_comm]
        have hbel := (below_length (Int64.le_iff_toInt_le.2 h0) (Int64.le_of_lt ho)).2 ho
        rw [he]
        intro hmax
        rw [hmax, lt_iff_toInt_lt] at hbel
        have hm : (if false = true then minValue else maxValue).toInt = 2 ^ 63 - 1 := rfl
        omega

variable {k : ℕ}

lemma lt_of_never_up (h : start < stop)
    (hne : ∀ j ≤ k, start + Int64.ofNat j * 1 ≠ stop) : start + Int64.ofNat k * 1 < stop := by
  induction k with
  | zero => simpa using h
  | succ k ih =>
    have hlt := ih fun j hj => hne j (by omega)
    have hstep := hne (k + 1) le_rfl
    have he : start + Int64.ofNat (k + 1) * 1 = start + Int64.ofNat k * 1 + 1 := by
      rw [Int64.ofNat_add]
      grind
    rw [he] at hstep ⊢
    generalize start + Int64.ofNat k * 1 = a at hlt hstep ⊢
    have ha := range a
    have hs := range stop
    have h1 := toInt_one
    rw [lt_iff_toInt_lt] at hlt ⊢
    have hadd : (a + 1).toInt = a.toInt + 1 := toInt_add (by unfold Fits at *; omega)
    have hn : (a + 1).toInt ≠ stop.toInt := fun h => hstep (toInt_inj.1 h)
    omega

lemma lt_of_never_down (h : stop < start)
    (hne : ∀ j ≤ k, start + Int64.ofNat j * -1 ≠ stop) : stop < start + Int64.ofNat k * -1 := by
  rw [← mirror_lt] at h ⊢
  rw [← mirror_steps]
  refine lt_of_never_up h fun j hj he => hne j hj ?_
  grind

def Strict (ρ : Def → Int64) (k : ℕ) (x : InductionVar) (limit : Invariant) : Prop :=
  (x.isLinear = some 1 → x.eval ρ k < limit.eval ρ) ∧ (x.isLinear = some (-1) → limit.eval ρ < x.eval ρ k)

variable {limit : Invariant}

lemma strict_up {x : InductionVar} (hx : x.isLinear = some 1) (h : x.eval ρ k < limit.eval ρ) : Strict ρ k x limit :=
  ⟨fun _ => h, fun hd => by rw [hx] at hd; exact absurd (some.inj hd) (by decide)⟩

lemma strict_down {x : InductionVar}
    (hx : x.isLinear = some (-1)) (h : limit.eval ρ < x.eval ρ k) : Strict ρ k x limit :=
  ⟨fun hd => by rw [hx] at hd; exact absurd (some.inj hd) (by decide), fun _ => h⟩

lemma strict_of_ne (hcmp : test.cmp = .ne) (hlin : test.x.var.isLinear = some test.stride)
    (hlim : strictLimit g outer branch test = some limit)
    (hne : ∀ j ≤ k, test.x.var.eval ρ j ≠ test.y.eval ρ) : Strict ρ k test.x.var limit := by
  simp only [strictLimit, hcmp] at hlim
  cases hx : test.x.var with
  | linear initial next =>
    cases hi : initial.isConstant with
    | none => simp [hx, hi] at hlim
    | some start =>
      cases hy : test.y.isConstant with
      | none => simp [hx, hy] at hlim
      | some stop =>
        simp only [hx, hi, hy] at hlim
        split_ifs at hlim with hcond
        obtain rfl := some.inj hlim
        have hnext : next.isConstant = some test.stride := by rw [hx] at hlin; exact hlin
        have heval : ∀ j, test.x.var.eval ρ j = start + Int64.ofNat j * test.stride := by
          intro j
          rw [hx, InductionVar.eval, eval_of_isConstant ρ hi, eval_of_isConstant ρ hnext]
        simp only [heval, eval_of_isConstant ρ hy] at hne
        rcases hcond with ⟨hs, hlt⟩ | ⟨hs, hlt⟩
        · refine strict_up (by rw [← hx, hlin, hs]) ?_
          rw [← hx, heval, eval_of_isConstant ρ hy, hs]
          exact lt_of_never_up hlt (hs ▸ hne)
        · refine strict_down (by rw [← hx, hlin, hs]) ?_
          rw [← hx, heval, eval_of_isConstant ρ hy, hs]
          exact lt_of_never_down hlt (hs ▸ hne)
  | _ => simp [hx] at hlim

lemma strictLimit_sound (hlen : ArrayLengths g ρ) {evaluated : ℕ → Prop}
    (hlim : strictLimit g outer branch test = some limit) (hlin : test.x.var.isLinear = some test.stride)
    (hheld : ∀ j ≤ k, evaluated j → test.cmp.holds (test.x.var.eval ρ j) (test.y.eval ρ) = true)
    (hk : evaluated k) (hreg : Regular outer ρ test evaluated k) : Strict ρ k test.x.var limit := by
  have hcur := hheld k le_rfl hk
  have hext : ∀ isLower, canBeMadeExclusive g outer test.y branch isLower = true →
      (if isLower then test.cmp = .gte else test.cmp = .lte) →
      test.y.eval ρ ≠ if isLower then minValue else maxValue := by
    intro isLower hex hc
    by_cases ho : outer = []
    · subst ho
      exact canBeMadeExclusive_sound hlen hex
    · cases isLower with
      | true => exact hreg.notMin ho hc
      | false => exact hreg.notMax ho hc
  have hlim' := hlim
  unfold strictLimit at hlim'
  cases hcmp : test.cmp with
  | lt =>
    simp only [hcmp] at hlim'
    split_ifs at hlim' with hs
    obtain rfl := some.inj hlim'
    rw [hcmp] at hcur
    exact strict_up (hs ▸ hlin) (by simpa [holds] using hcur)
  | gt =>
    simp only [hcmp] at hlim'
    split_ifs at hlim' with hs
    obtain rfl := some.inj hlim'
    rw [hcmp] at hcur
    exact strict_down (hs ▸ hlin) (by simpa [holds] using hcur)
  | lte =>
    simp only [hcmp, Bool.and_eq_true, decide_eq_true_eq] at hlim'
    split_ifs at hlim' with hs
    refine strict_up (hs.1 ▸ hlin) ?_
    rw [eval_add ρ hlim']
    rw [hcmp] at hcur
    exact lt_add_one (by simpa [holds] using hcur) (hext false hs.2 hcmp)
  | gte =>
    simp only [hcmp, Bool.and_eq_true, decide_eq_true_eq] at hlim'
    split_ifs at hlim' with hs
    refine strict_down (hs.1 ▸ hlin) ?_
    rw [eval_sub ρ hlim']
    rw [hcmp] at hcur
    exact sub_one_lt (by simpa [holds] using hcur) (hext true hs.2 hcmp)
  | ne =>
    refine strict_of_ne hcmp hlin hlim fun j hj heq => ?_
    have hev : evaluated j := by
      rcases Nat.lt_or_eq_of_le hj with hj | rfl
      · exact hreg.notSkipped hcmp j hj heq
      · exact hk
    have := hheld j hj hev
    simp [hcmp, holds, heq] at this
  | _ => simp [hcmp] at hlim'

lemma strict_iff_up {x : InductionVar} (hx : x.isLinear = some 1) : Strict ρ k x limit ↔ x.eval ρ k < limit.eval ρ :=
  ⟨fun h => h.1 hx, strict_up hx⟩

lemma strict_iff_down {x : InductionVar} (hx : x.isLinear = some (-1)) :
    Strict ρ k x limit ↔ limit.eval ρ < x.eval ρ k :=
  ⟨fun h => h.2 hx, strict_down hx⟩

/-- An induction of unit stride that has not wrapped around has passed the values it had before. -/
lemma not_strict_of_eq {j : ℕ} (hj : j < k) {x : InductionVar} (hunit : x.isLinear = some 1 ∨ x.isLinear = some (-1))
    (hunw : Unwrapped ρ k x) (heq : x.eval ρ j = limit.eval ρ) : ¬Strict ρ k x limit := by
  cases x with
  | linear initial next =>
    obtain ⟨t, ht⟩ := toInt_steps (initial.eval ρ) (next.eval ρ) k
    obtain ⟨v, hv⟩ := toInt_steps (initial.eval ρ) (next.eval ρ) j
    have hunw : Fits ((initial.eval ρ).toInt + k * (next.eval ρ).toInt) := hunw
    have hk := eq_of_fits (range _) hunw ht
    have hi := range (initial.eval ρ)
    have hstep (s : Int64) (hs : next.isConstant = some s) (hpm : s.toInt = 1 ∨ s.toInt = -1) :
        ((linear initial next).eval ρ j).toInt = (initial.eval ρ).toInt + j * s.toInt ∧
          ((linear initial next).eval ρ k).toInt = (initial.eval ρ).toInt + k * s.toInt := by
      have hn := congrArg Int64.toInt (eval_of_isConstant ρ hs)
      have hfit : Fits ((initial.eval ρ).toInt + j * (next.eval ρ).toInt) := by
        rw [hn] at hunw ⊢
        unfold Fits at *
        rcases hpm with hp | hp <;> rw [hp] at hunw ⊢ <;> omega
      exact hn ▸ ⟨eq_of_fits (range _) hfit hv, hk⟩
    intro hstrict
    rcases hunit with hu | hu
    · obtain ⟨hej, hek⟩ := hstep 1 hu (.inl rfl)
      have hlt := (strict_iff_up hu).1 hstrict
      rw [← heq, lt_iff_toInt_lt, hej, hek, toInt_one] at hlt
      omega
    · obtain ⟨hej, hek⟩ := hstep (-1) hu (.inr rfl)
      have hlt := (strict_iff_down hu).1 hstrict
      rw [← heq, lt_iff_toInt_lt, hej, hek, show (-1 : Int64).toInt = -1 from rfl] at hlt
      omega
  | _ => simp [InductionVar.isLinear] at hunit

/-- The condition is also necessary. -/
lemma regular_of_strict {evaluated : ℕ → Prop} (hlim : strictLimit g outer branch test = some limit)
    (hlin : test.x.var.isLinear = some test.stride) (hunw : Unwrapped ρ k test.x.var)
    (h : Strict ρ k test.x.var limit) : Regular outer ρ test evaluated k := by
  refine ⟨fun hcmp j hj heq => ?_, fun _ hcmp hmax => ?_, fun _ hcmp hmin => ?_⟩ <;>
    simp only [strictLimit, hcmp] at hlim
  · cases hx : test.x.var with
    | linear initial next =>
      simp only [hx] at hlim
      split at hlim
      · split_ifs at hlim with hcond
        obtain rfl := some.inj hlim
        refine absurd h (not_strict_of_eq hj ?_ hunw heq)
        rcases hcond with ⟨hs, -⟩ | ⟨hs, -⟩ <;> simp [hlin, hs]
      · simp at hlim
    | _ => simp [hx] at hlim
  · split_ifs at hlim with hs
    simp only [Bool.and_eq_true, decide_eq_true_eq] at hs
    have hlt := (strict_iff_up (hs.1 ▸ hlin)).1 h
    rw [eval_add ρ hlim, hmax] at hlt
    have hr := range (test.x.var.eval ρ k)
    have hmin : (maxValue + (Invariant.constant 1).eval ρ).toInt = -2 ^ 63 := by rw [eval_constant]; rfl
    rw [lt_iff_toInt_lt, hmin] at hlt
    unfold Fits at hr
    omega
  · split_ifs at hlim with hs
    simp only [Bool.and_eq_true, decide_eq_true_eq] at hs
    have hlt := (strict_iff_down (hs.1 ▸ hlin)).1 h
    rw [eval_sub ρ hlim, hmin] at hlt
    have hr := range (test.x.var.eval ρ k)
    have hmax : (minValue - (Invariant.constant 1).eval ρ).toInt = 2 ^ 63 - 1 := by rw [eval_constant]; rfl
    rw [lt_iff_toInt_lt, hmax] at hlt
    unfold Fits at hr
    omega

end Runs

section

def countGraph : FlowGraph where
  node d := if d = 0 then .constant 10 else .other
  representation _ := .tagged
  block d := if d = 0 then 0 else 1
  isDominatedBy _ _ := false
  ordered d hp v hv := by
    by_cases hd : d = 0 <;> simp [hd, Node.inputs] at hv

def countLoop : LoopInfo where
  header := 1
  contains b := b = 1
  predecessors := [0, 1]
  induction d := if d = 1 then some ⟨1, .linear (.constant 0) (.constant 1)⟩ else none
  bounds _ := []
  control := none

def countBranch : Branch := ⟨7, some (.ne, 1, 0), 1, 2⟩

lemma countBranch_staysIn {j : ℕ} (h : Int64.ofNat j ≠ 10) : countBranch.StaysIn countGraph countLoop ρ j := by
  rintro cmp left right x y hcmp hx hy
  obtain ⟨rfl, rfl, rfl⟩ : ne = cmp ∧ 1 = left ∧ 0 = right := by simpa [countBranch] using hcmp
  obtain rfl : (⟨1, .linear (.constant 0) (.constant 1)⟩ : Record) = x := some.inj hx
  obtain rfl : (⟨0, .invariant (.constant 10)⟩ : Record) = y := some.inj hy
  simp [holds, InductionVar.eval, countLoop, countBranch, h]

/-- The loop `for (j = 0; j <= i + 2; j++)` inside `upLoop`, whose index `i + 2` is definition 2. -/
def nestedLoop : LoopInfo where
  header := 1
  contains b := b = 1
  predecessors := [0, 1]
  induction d := if d = 3 then some ⟨3, .linear (.constant 0) (.constant 1)⟩ else none
  bounds _ := []
  control := none

def nestedBranch : Branch := ⟨7, some (.lte, 3, 2), 1, 2⟩

/-- The values in iteration `2 ^ 63 - 3` of the enclosing loop, over an empty array. -/
def nestedValues : Def → Int64
  | 2 => maxValue
  | _ => 0

end
end DartSdk.Loops
