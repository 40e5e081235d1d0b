import DartSdk.Library.Simulation
import DartSdk.Library.WrapInt

/-!
Induction records of `loops.h`. A record whose constructor asserts an invariant
`initial` or `next` takes an `Invariant` there, so the asserts hold by typing.
-/

namespace DartSdk.Loops
open Option
variable {f stride : Invariant → Option Invariant}

abbrev Def := ℕ

structure Invariant where
  offset : Int64
  mult : Int64
  defn : Option Def
  hasDef : mult = 0 ∨ defn.isSome
deriving DecidableEq

namespace Invariant

def constant (c : Int64) : Invariant := ⟨c, 0, none, .inl rfl⟩

def symbol (d : Def) : Invariant := ⟨0, 1, some d, .inr rfl⟩

def isConstant (x : Invariant) : Option Int64 := if x.mult = 0 then some x.offset else none

def isEqual (x y : Invariant) : Bool :=
  x.offset = y.offset && x.mult = y.mult && (x.mult = 0 || x.defn = y.defn)

def canComputeDifferenceWith (x y : Invariant) : Option Int64 :=
  if x.defn = y.defn ∧ x.mult = y.mult then some (y.offset - x.offset) else none

def eval (ρ : Def → Int64) (x : Invariant) : Int64 := x.offset + x.mult * x.defn.elim 0 ρ

def shift (x : Invariant) (c : Int64) : Invariant := ⟨x.offset + c, x.mult, x.defn, x.hasDef⟩

def add (x y : Invariant) : Option Invariant :=
  if h : x.defn = y.defn then
    some ⟨x.offset + y.offset, x.mult + y.mult, x.defn, by
      rcases x.hasDef with hx | hx
      · rcases y.hasDef with hy | hy
        · exact .inl (by rw [hx, hy]; rfl)
        · exact .inr (h ▸ hy)
      · exact .inr hx⟩
  else if y.mult = 0 then some ⟨x.offset + y.offset, x.mult, x.defn, x.hasDef⟩
  else if x.mult = 0 then some ⟨x.offset + y.offset, y.mult, y.defn, y.hasDef⟩
  else none

def sub (x y : Invariant) : Option Invariant :=
  if h : x.defn = y.defn then
    some ⟨x.offset - y.offset, x.mult - y.mult, x.defn, by
      rcases x.hasDef with hx | hx
      · rcases y.hasDef with hy | hy
        · exact .inl (by rw [hx, hy]; rfl)
        · exact .inr (h ▸ hy)
      · exact .inr hx⟩
  else if y.mult = 0 then some ⟨x.offset - y.offset, x.mult, x.defn, x.hasDef⟩
  else if x.mult = 0 then some ⟨x.offset - y.offset, -y.mult, y.defn, by
    rcases y.hasDef with hy | hy
    · exact .inl (by rw [hy]; rfl)
    · exact .inr hy⟩
  else none

def mul (c : Int64) (y : Invariant) : Invariant :=
  ⟨c * y.offset, c * y.mult, y.defn, by
    rcases y.hasDef with hy | hy
    · exact .inl (by rw [hy]; exact Int64.mul_zero)
    · exact .inr hy⟩

section
variable (ρ : Def → Int64)

@[simp] lemma eval_constant (c : Int64) : (constant c).eval ρ = c := by simp [constant, eval]

@[simp] lemma eval_symbol (d : Def) : (symbol d).eval ρ = ρ d := by simp [symbol, eval]

@[simp] lemma eval_shift (x : Invariant) (c : Int64) : (x.shift c).eval ρ = x.eval ρ + c := by
  simp only [shift, eval]
  grind

variable {x y z : Invariant}

lemma eval_of_isConstant {c : Int64} (h : x.isConstant = some c) : x.eval ρ = c := by
  unfold isConstant at h
  split_ifs at h with hm
  simp_all [eval]

lemma eval_isEqual (h : x.isEqual y = true) : x.eval ρ = y.eval ρ := by
  simp only [isEqual, Bool.and_eq_true, decide_eq_true_eq, Bool.or_eq_true] at h
  obtain ⟨⟨ho, hm⟩, hz | hd⟩ := h
  · simp [eval, ho, ← hm, hz]
  · simp [eval, ho, hm, hd]

lemma eval_difference {d : Int64} (h : x.canComputeDifferenceWith y = some d) : y.eval ρ = x.eval ρ + d := by
  unfold canComputeDifferenceWith at h
  split_ifs at h with hc
  obtain ⟨hd, hm⟩ := hc
  simp only [eval]
  grind

lemma eval_add (h : x.add y = some z) : z.eval ρ = x.eval ρ + y.eval ρ := by
  unfold add at h
  split_ifs at h with hd hy hx
  · simp only [eval]
    grind
  · simp only [eval]
    grind
  · simp only [eval]
    grind

lemma eval_sub (h : x.sub y = some z) : z.eval ρ = x.eval ρ - y.eval ρ := by
  unfold sub at h
  split_ifs at h with hd hy hx
  · simp only [eval, hd]
    grind
  · simp only [eval]
    grind
  · simp only [eval]
    grind

lemma eval_mul (c : Int64) (y : Invariant) : (mul c y).eval ρ = c * y.eval ρ := by
  simp only [mul, eval]
  grind

end
end Invariant

open Invariant

inductive InductionVar
  | invariant (x : Invariant)
  | linear (initial next : Invariant)
  | wrapAround (initial : Invariant) (next : InductionVar)
  | periodic (initial next : Invariant)
deriving DecidableEq

namespace InductionVar

def isLinear : InductionVar → Option Int64
  | linear _ next => next.isConstant
  | _ => none

def isEqual : InductionVar → InductionVar → Bool
  | invariant x, invariant y => x.isEqual y
  | linear i n, linear i' n' => i.isEqual i' && n.isEqual n'
  | periodic i n, periodic i' n' => i.isEqual i' && n.isEqual n'
  | wrapAround i n, wrapAround i' n' => i.isEqual i' && n.isEqual n'
  | _, _ => false

def canComputeDifferenceWith : InductionVar → InductionVar → Option Int64
  | invariant x, invariant y => x.canComputeDifferenceWith y
  | linear i n, linear i' n' => if n.isEqual n' then i.canComputeDifferenceWith i' else none
  | _, _ => none

def distribute (f stride : Invariant → Option Invariant) : InductionVar → Option InductionVar
  | invariant y => (f y).map invariant
  | linear i n => do return linear (← f i) (← stride n)
  | periodic i n => do return periodic (← f i) (← f n)
  | wrapAround i n => do return wrapAround (← f i) (← distribute f stride n)

def add : InductionVar → InductionVar → Option InductionVar
  | invariant x, y => distribute x.add some y
  | x, invariant y => distribute (·.add y) some x
  | linear i n, linear i' n' => do return linear (← i.add i') (← n.add n')
  | _, _ => none

def sub : InductionVar → InductionVar → Option InductionVar
  | invariant x, y => distribute x.sub (constant 0).sub y
  | x, invariant y => distribute (·.sub y) some x
  | linear i n, linear i' n' => do return linear (← i.sub i') (← n.sub n')
  | _, _ => none

def mulConstant (c : Int64) : InductionVar → InductionVar
  | invariant y => invariant (y.mul c)
  | linear i n => linear (i.mul c) (n.mul c)
  | periodic i n => periodic (i.mul c) (n.mul c)
  | wrapAround i n => wrapAround (i.mul c) (mulConstant c n)

def mul : InductionVar → InductionVar → Option InductionVar
  | invariant x, y =>
    match x.isConstant with
    | some c => some (mulConstant c y)
    | none =>
      match y with
      | invariant y => y.isConstant.map (mulConstant · (invariant x))
      | _ => none
  | x, invariant y => y.isConstant.map (mulConstant · x)
  | _, _ => none

def eval (ρ : Def → Int64) : InductionVar → ℕ → Int64
  | invariant x, _ => x.eval ρ
  | linear i n, k => i.eval ρ + Int64.ofNat k * n.eval ρ
  | periodic i n, k => if k % 2 = 0 then i.eval ρ else n.eval ρ
  | wrapAround i _, 0 => i.eval ρ
  | wrapAround _ n, k + 1 => n.eval ρ k

lemma eval_difference {x y : InductionVar} {d : Int64} (ρ : Def → Int64) (k : ℕ)
    (h : x.canComputeDifferenceWith y = some d) : y.eval ρ k = x.eval ρ k + d := by
  cases x <;> cases y <;> simp only [canComputeDifferenceWith, reduceCtorEq] at h
  case invariant.invariant x y => exact Invariant.eval_difference ρ h
  case linear.linear i n i' n' =>
    split_ifs at h with hn
    have hi := Invariant.eval_difference ρ h
    have hn := Invariant.eval_isEqual ρ hn
    simp only [eval]
    grind

section
variable (ρ : Def → Int64) {x y z : InductionVar}

lemma eval_isEqual (h : x.isEqual y = true) (k : ℕ) : x.eval ρ k = y.eval ρ k := by
  induction x generalizing y k with
  | invariant x =>
    cases y <;> simp only [isEqual, Bool.false_eq_true] at h
    exact eval_isEqual ρ h
  | wrapAround i n ih =>
    cases y <;> simp only [isEqual, Bool.false_eq_true, Bool.and_eq_true] at h
    cases k with
    | zero => exact eval_isEqual ρ h.1
    | succ k => exact ih h.2 k
  | _ =>
    cases y <;> simp only [isEqual, Bool.false_eq_true, Bool.and_eq_true] at h
    simp only [eval, eval_isEqual ρ h.1, eval_isEqual ρ h.2]

lemma exists_of_both {α β γ : Type} {x : Option α} {y : Option β} {f : α → β → γ} {z : γ}
    (h : (do return f (← x) (← y)) = some z) : ∃ a, x = some a ∧ ∃ b, y = some b ∧ f a b = z := by
  simpa only [bind_eq_some, pure_def, some.injEq] using h

lemma eval_distribute {g s : Int64 → Int64}
    (hf : ∀ a b, f a = some b → b.eval ρ = g (a.eval ρ)) (hs : ∀ a b, stride a = some b → b.eval ρ = s (a.eval ρ))
    (hg : ∀ a m n, g (a + m * n) = g a + m * s n) (h : distribute f stride y = some z) (k : ℕ) :
    z.eval ρ k = g (y.eval ρ k) := by
  induction y generalizing z k with
  | invariant y =>
    simp only [distribute, map_eq_some_iff] at h
    obtain ⟨b, hb, rfl⟩ := h
    exact hf y b hb
  | linear i n =>
    obtain ⟨j, hj, m, hm, rfl⟩ := exists_of_both h
    simp only [eval, hf i j hj, hs n m hm, hg]
  | periodic i n =>
    obtain ⟨j, hj, m, hm, rfl⟩ := exists_of_both h
    simp only [eval, hf i j hj, hf n m hm]
    exact (apply_ite g _ _ _).symm
  | wrapAround i n ih =>
    obtain ⟨j, hj, m, hm, rfl⟩ := exists_of_both h
    cases k with
    | zero => exact hf i j hj
    | succ k => exact ih hm k

lemma eval_add (h : x.add y = some z) (k : ℕ) : z.eval ρ k = x.eval ρ k + y.eval ρ k := by
  have right {b : Invariant} (h : distribute (·.add b) some x = some z) : z.eval ρ k = x.eval ρ k + b.eval ρ := by
    refine eval_distribute ρ (g := (· + b.eval ρ)) (s := id) (fun a c => Invariant.eval_add ρ) ?_ ?_ h k
    · intro a c hc
      rw [some.inj hc, id]
    · grind
  cases x with
  | invariant a =>
    refine eval_distribute ρ (s := id) (fun b c => Invariant.eval_add ρ) ?_ ?_ h k
    · intro b c hc
      rw [some.inj hc, id]
    · grind
  | linear i n =>
    cases y with
    | invariant b => exact right h
    | linear i' n' =>
      obtain ⟨j, hj, m, hm, rfl⟩ := exists_of_both h
      simp only [eval, Invariant.eval_add ρ hj, Invariant.eval_add ρ hm]
      grind
    | _ => cases h
  | _ =>
    cases y with
    | invariant b => exact right h
    | _ => cases h

lemma eval_sub (h : x.sub y = some z) (k : ℕ) : z.eval ρ k = x.eval ρ k - y.eval ρ k := by
  have right {b : Invariant} (h : distribute (·.sub b) some x = some z) : z.eval ρ k = x.eval ρ k - b.eval ρ := by
    refine eval_distribute ρ (g := (· - b.eval ρ)) (s := id) (fun a c => Invariant.eval_sub ρ) ?_ ?_ h k
    · intro a c hc
      rw [some.inj hc, id]
    · grind
  cases x with
  | invariant a =>
    refine eval_distribute ρ (s := (0 - ·)) (fun b c => Invariant.eval_sub ρ) ?_ ?_ h k
    · intro b c hc
      rw [Invariant.eval_sub ρ hc, Invariant.eval_constant]
    · grind
  | linear i n =>
    cases y with
    | invariant b => exact right h
    | linear i' n' =>
      obtain ⟨j, hj, m, hm, rfl⟩ := exists_of_both h
      simp only [eval, Invariant.eval_sub ρ hj, Invariant.eval_sub ρ hm]
      grind
    | _ => cases h
  | _ =>
    cases y with
    | invariant b => exact right h
    | _ => cases h

lemma eval_mulConstant (c : Int64) (y : InductionVar) (k : ℕ) : (mulConstant c y).eval ρ k = c * y.eval ρ k := by
  induction y generalizing k with
  | invariant y => exact eval_mul ρ c y
  | linear i n =>
    simp only [mulConstant, eval, eval_mul]
    grind
  | periodic i n =>
    simp only [mulConstant, eval, eval_mul]
    exact (apply_ite (c * ·) _ _ _).symm
  | wrapAround i n ih =>
    cases k with
    | zero => exact eval_mul ρ c i
    | succ k => exact ih k

lemma eval_mul (h : x.mul y = some z) (k : ℕ) : z.eval ρ k = x.eval ρ k * y.eval ρ k := by
  have right {b : Invariant} (h : b.isConstant.map (mulConstant · x) = some z) : z.eval ρ k = x.eval ρ k * b.eval ρ := by
    obtain ⟨c, hc, rfl⟩ := map_eq_some_iff.1 h
    rw [eval_mulConstant, eval_of_isConstant ρ hc, Int64.mul_comm]
  cases x with
  | invariant a =>
    cases hc : a.isConstant with
    | some c =>
      simp only [mul, hc, some.injEq] at h
      rw [← h, eval_mulConstant, eval, eval_of_isConstant ρ hc]
    | none =>
      cases y <;> simp only [mul, hc, reduceCtorEq] at h
      exact right h
  | _ =>
    cases y with
    | invariant b => exact right h
    | _ => cases h

end

theorem induction_homomorphism (ρ : Def → Int64) (x y : InductionVar) :
    (∀ z, x.add y = some z → ∀ k, z.eval ρ k = x.eval ρ k + y.eval ρ k) ∧
    (∀ z, x.sub y = some z → ∀ k, z.eval ρ k = x.eval ρ k - y.eval ρ k) ∧
    (∀ z, x.mul y = some z → ∀ k, z.eval ρ k = x.eval ρ k * y.eval ρ k) ∧
    (x.isEqual y = true → ∀ k, x.eval ρ k = y.eval ρ k) :=
  ⟨fun _ => eval_add ρ, fun _ => eval_sub ρ, fun _ => eval_mul ρ, eval_isEqual ρ⟩

section
variable {x y : InductionVar} {z : Invariant}

lemma distribute_eq_invariant
    (h : distribute f stride y = some (invariant z)) : ∃ b, y = invariant b ∧ f b = some z := by
  cases y <;>
    simp only [distribute, map_eq_some_iff, bind_eq_some,
      pure_def, some.injEq, reduceCtorEq, and_false, exists_false] at h
  obtain ⟨w, hw, he⟩ := h
  exact ⟨_, rfl, invariant.inj he ▸ hw⟩

lemma add_eq_invariant (h : x.add y = some (invariant z)) :
    ∃ a b, x = invariant a ∧ y = invariant b ∧ a.add b = some z := by
  cases x with
  | invariant a =>
    obtain ⟨b, rfl, hb⟩ := distribute_eq_invariant h
    exact ⟨a, b, rfl, rfl, hb⟩
  | _ =>
    cases y with
    | invariant b =>
      obtain ⟨a, ha, -⟩ := distribute_eq_invariant h
      cases ha
    | _ => simp [add, bind_eq_some_iff] at h

lemma sub_eq_invariant (h : x.sub y = some (invariant z)) :
    ∃ a b, x = invariant a ∧ y = invariant b ∧ a.sub b = some z := by
  cases x with
  | invariant a =>
    obtain ⟨b, rfl, hb⟩ := distribute_eq_invariant h
    exact ⟨a, b, rfl, rfl, hb⟩
  | _ =>
    cases y with
    | invariant b =>
      obtain ⟨a, ha, -⟩ := distribute_eq_invariant h
      cases ha
    | _ => simp [sub, bind_eq_some_iff] at h

lemma mul_eq_invariant (ρ : Def → Int64) (h : x.mul y = some (invariant z)) :
    ∃ a b, x = invariant a ∧ y = invariant b ∧ z.eval ρ = a.eval ρ * b.eval ρ := by
  have hz := eval_mul ρ h 0
  cases x with
  | invariant a =>
    cases y with
    | invariant b => exact ⟨a, b, rfl, rfl, hz⟩
    | _ => cases hc : a.isConstant <;> simp only [mul, hc, mulConstant, reduceCtorEq, some.injEq] at h
  | _ => cases y <;> simp [mul, mulConstant] at h

end
end InductionVar
end DartSdk.Loops
