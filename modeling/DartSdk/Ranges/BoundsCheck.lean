import DartSdk.Ranges.Boundary

namespace DartSdk.Ranges
open WrapInt Option Function
variable {boundary : Range → RangeBoundary} {max length : RangeBoundary}

section
variable (t : Target) (g : SmiGraph)

def unwrapConstraintFrom : ℕ → Def → Def
  | 0, d => d
  | n + 1, d =>
    match g.node d with
    | .constraint v => unwrapConstraintFrom n v
    | _ => d

def unwrapConstraint (d : ℕ) : Def := unwrapConstraintFrom g d d

def areEqualDefinitions (a b : Def) : Bool :=
  let a := unwrapConstraint g a
  let b := unwrapConstraint g b
  a = b || ((g.node a).allowsCSE && (g.node b).allowsCSE && g.node a = g.node b)

def dependOnSameSymbol : RangeBoundary → RangeBoundary → Bool
  | .symbol a _, .symbol b _ => areEqualDefinitions g a b
  | _, _ => false

def smiConstant (d : Def) : Option Int64 :=
  match g.node d with
  | .constant v => some v
  | _ => none

inductive Walk
  | overflow
  | stop
  | step (symbol : Def) (offset : Int64)

def walk (symbol : Def) (offset : Int64) : Walk :=
  match g.node symbol with
  | .constraint v => .step v offset
  | .binarySmiOp .add _ left right =>
    match smiConstant g right, smiConstant g left with
    | some rhs, _ => if willAddOverflow offset rhs then .overflow else .step left (offset + rhs)
    | none, some rhs => if willAddOverflow offset rhs then .overflow else .step right (offset + rhs)
    | none, none => .stop
  | .binarySmiOp .sub _ left right =>
    match smiConstant g right with
    | some rhs => if willSubOverflow offset rhs then .overflow else .step left (offset - rhs)
    | none => .stop
  | _ => .stop

def canonicalizeFrom (overflow : RangeBoundary) : ℕ → Def → Int64 → RangeBoundary
  | 0, _, _ => overflow
  | n + 1, symbol, offset =>
    match walk g symbol offset with
    | .overflow => overflow
    | .stop =>
      if RangeBoundary.isValidOffset t offset then fromDefinition g symbol offset else overflow
    | .step symbol offset => canonicalizeFrom overflow n symbol offset

def canonicalizeBoundary (a overflow : RangeBoundary) : RangeBoundary :=
  match a with
  | .symbol s offset => canonicalizeFrom t g overflow (s + 1) s offset
  | _ => a

/-- `a` after one replacement of its symbol by a boundary of the symbol's range; `none` where the
source answers false and leaves `a` alone. -/
def canonicalizeWith (boundary : Range → RangeBoundary) (overflow a : RangeBoundary) :
    Option RangeBoundary :=
  match a with
  | .symbol s offset =>
    match (g.range s).map boundary with
    | some (.symbol s' offset') =>
      if willAddOverflow offset' offset then some overflow
      else if !RangeBoundary.isValidOffset t (offset' + offset) then some overflow
      else some (canonicalizeBoundary t g (fromDefinition g s' (offset' + offset)) overflow)
    | _ => none
  | _ => none

def canonicalizeMaxBoundary (a : RangeBoundary) : Option RangeBoundary :=
  canonicalizeWith t g Range.max .positiveInfinity a

def canonicalizeMinBoundary (a : RangeBoundary) : Option RangeBoundary :=
  canonicalizeWith t g Range.min .negativeInfinity a

/-- One iteration of the loop over a symbolic index bound and a symbolic length: its answer, or the
boundaries of the next iteration. -/
def compareSymbolicStep (max length : RangeBoundary) : Bool ⊕ RangeBoundary × RangeBoundary :=
  if dependOnSameSymbol g max length then .inl (max.offset < length.offset)
  else
    match canonicalizeMaxBoundary t g max, canonicalizeMinBoundary t g length with
    | some max, _ => .inr (max, length)
    | none, some length => .inr (max, length)
    | none, none => .inl false

def compareSymbolicFrom : ℕ → RangeBoundary → RangeBoundary → Bool
  | 0, _, _ => false
  | n + 1, max, length =>
    match compareSymbolicStep t g max length with
    | .inl answer => answer
    | .inr (max, length) => compareSymbolicFrom n max length

/-- `n` iterations of the source's loop, which counts none; where none of them answers, the boundaries they reach. -/
def compareSymbolicLoop : ℕ → RangeBoundary × RangeBoundary → Bool ⊕ RangeBoundary × RangeBoundary
  | 0, p => .inr p
  | n + 1, p => (compareSymbolicStep t g p.1 p.2).elim .inl (compareSymbolicLoop n)

def weight : RangeBoundary → ℕ
  | .symbol s _ => s + 1
  | _ => 0

def compareSymbolic (max length : RangeBoundary) : Bool :=
  compareSymbolicFrom t g (weight max + weight length + 1) max length

def SmiGraph.setConstantRange (d : Def) (v : Int64) : SmiGraph :=
  { g with
    range := update g.range d (some ⟨.constant v, .constant v, rfl, rfl⟩)
    symbols_lt := by
      intro d' r hr s hs
      by_cases hd : d' = d
      · subst hd
        rw [update_self] at hr
        obtain rfl := some.inj hr
        simp [RangeBoundary.symbols] at hs
      · rw [update_of_ne hd] at hr
        exact g.symbols_lt d' r hr s hs }

def isBelow (index length : Def) : Bool :=
  if (constantMinSmi t g index).constantValue < 0 then false
  else
    let max := fromDefinition g index 0
    let maxUpper := upperBound t g max
    let arrayLength := fromDefinition g length 0
    let lengthLower := lowerBound t g arrayLength
    if maxUpper.overflowedSmi t || lengthLower.overflowedSmi t then false
    else if maxUpper.constantValue < lengthLower.constantValue then true
    else
      let canonicalLength := canonicalizeBoundary t g arrayLength .positiveInfinity
      if canonicalLength.overflowedSmi t then false else compareSymbolic t g max canonicalLength

def isRedundantBasedOnRangeInformation (index length : Def) : Bool :=
  match smiConstant g index, smiConstant g length with
  | some i, some l => 0 ≤ i && i < l
  | constant, _ =>
    match g.range index, constant with
    | some _, _ => isBelow t g index length
    | none, some v => isBelow t (g.setConstantRange index v) index length
    | none, none => false

end

variable {overflow : RangeBoundary}

section
variable {t : Target} {g : SmiGraph}
variable {offset : Int64} {s n m : ℕ}

lemma walk_step_lt {s' : ℕ} {offset' : Int64} (h : walk g s offset = .step s' offset') : s' < s := by
  apply g.inputs_lt
  unfold walk at h
  grind [Node.inputs]

lemma weight_fromDefinition_le (s : ℕ) (offset : Int64) : weight (fromDefinition g s offset) ≤ s + 1 := by
  unfold fromDefinition
  split <;> simp [weight]

lemma weight_canonicalizeFrom_le (ho : weight overflow = 0) (n s : ℕ)
    (offset : Int64) : weight (canonicalizeFrom t g overflow n s offset) ≤ s + 1 := by
  induction n generalizing s offset with
  | zero => simp [canonicalizeFrom, ho]
  | succ n ih =>
    simp only [canonicalizeFrom]
    cases hw : walk g s offset with
    | overflow => simp [ho]
    | stop =>
      split_ifs
      · exact weight_fromDefinition_le s offset
      · simp [ho]
    | step s' offset' =>
      have := walk_step_lt hw
      exact (ih s' offset').trans (by omega)

lemma weight_canonicalizeBoundary_le (ho : weight overflow = 0) (a : RangeBoundary) :
    weight (canonicalizeBoundary t g a overflow) ≤ weight a := by
  cases a with
  | symbol s offset => exact weight_canonicalizeFrom_le ho (s + 1) s offset
  | _ => exact le_rfl

lemma weight_canonicalizeWith_lt (hb : ∀ r s, s ∈ (boundary r).symbols → s ∈ r.min.symbols ++ r.max.symbols)
    {a b : RangeBoundary} (ho : weight overflow = 0)
    (h : canonicalizeWith t g boundary overflow a = some b) : weight b < weight a := by
  unfold canonicalizeWith at h
  split at h
  · rename_i s offset
    split at h
    · rename_i s' offset' hr
      obtain ⟨r, hr, hs⟩ := map_eq_some_iff.1 hr
      have hlt : s' < s := g.symbols_lt s r hr s' (hb r s' (by simp [hs, RangeBoundary.symbols]))
      have hle := (weight_canonicalizeBoundary_le (t := t) (g := g) ho (fromDefinition g s' (offset' + offset))).trans
        (weight_fromDefinition_le s' (offset' + offset))
      split_ifs at h <;> rw [← some.inj h]
      · exact ho ▸ Nat.succ_pos s
      · exact ho ▸ Nat.succ_pos s
      · exact hle.trans_lt (Nat.succ_lt_succ hlt)
    · simp at h
  · simp at h

lemma weight_compareSymbolicStep_lt {p : RangeBoundary × RangeBoundary}
    (h : compareSymbolicStep t g max length = .inr p) : weight p.1 + weight p.2 < weight max + weight length := by
  unfold compareSymbolicStep at h
  split_ifs at h
  cases hmax : canonicalizeMaxBoundary t g max with
  | some max' =>
    obtain rfl : (max', length) = p := by simpa [hmax] using h
    have := weight_canonicalizeWith_lt (fun r s => List.mem_append_right _) rfl hmax
    dsimp only
    omega
  | none =>
    cases hmin : canonicalizeMinBoundary t g length with
    | some length' =>
      obtain rfl : (max, length') = p := by simpa [hmax, hmin] using h
      have := weight_canonicalizeWith_lt (fun r s => List.mem_append_left _) rfl hmin
      dsimp only
      omega
    | none => simp [hmax, hmin] at h

lemma compareSymbolicLoop_eq (h : weight max + weight length < n) :
    compareSymbolicLoop t g n (max, length) = .inl (compareSymbolicFrom t g n max length) := by
  induction n generalizing max length with
  | zero => omega
  | succ n ih =>
    rw [compareSymbolicLoop, compareSymbolicFrom]
    cases hs : compareSymbolicStep t g max length with
    | inl answer => rfl
    | inr p => exact ih ((weight_compareSymbolicStep_lt hs).trans_le (Nat.le_of_lt_succ h))

theorem compareSymbolicLoop_ends (max length : RangeBoundary) : ∃ n,
    compareSymbolicLoop t g n (max, length) = .inl (compareSymbolic t g max length) :=
  ⟨_, compareSymbolicLoop_eq (Nat.lt_succ_self _)⟩

end

section Sound
variable {t : Target} {g : SmiGraph} (ρ : Valuation t g)

lemma value_unwrapConstraintFrom (n : ℕ) (d : Def) : ρ.value (unwrapConstraintFrom g n d) = ρ.value d := by
  induction n generalizing d with
  | zero => rfl
  | succ n ih =>
    simp only [unwrapConstraintFrom]
    split
    · rename_i v hn
      rw [ih, ρ.constraint hn]
    · rfl

lemma value_of_areEqualDefinitions {a b : Def} (h : areEqualDefinitions g a b = true) : ρ.value a = ρ.value b := by
  simp only [areEqualDefinitions, Bool.or_eq_true, Bool.and_eq_true, decide_eq_true_eq] at h
  rw [← value_unwrapConstraintFrom ρ a a, ← value_unwrapConstraintFrom ρ b b]
  rcases h with h | ⟨⟨ha, -⟩, h⟩
  · exact congrArg ρ.value h
  · exact ρ.congr h ha

lemma value_smiConstant {d : Def} {v : Int64} (h : smiConstant g d = some v) : ρ.value d = v.toInt := by
  unfold smiConstant at h
  split at h
  · rename_i w hn
    rw [ρ.constant hn, some.inj h]
  · simp at h

variable {offset : Int64} {s index : Def} {n : ℕ} {a b : RangeBoundary}

lemma walk_sound {s' : Def} {offset' : Int64} (h : walk g s offset = .step s' offset') :
    ρ.value s + offset.toInt = ρ.value s' + offset'.toInt := by
  unfold walk at h
  split at h
  · rename_i v hn
    obtain ⟨rfl, rfl⟩ := Walk.step.inj h
    rw [ρ.constraint hn]
  · rename_i left right hn
    rw [ρ.add hn]
    split at h
    · rename_i rhs hr
      split_ifs at h with ho
      obtain ⟨rfl, rfl⟩ := Walk.step.inj h
      rw [value_smiConstant ρ hr, toInt_add_of_not_overflow (by simpa using ho)]
      omega
    · rename_i rhs _ hl
      split_ifs at h with ho
      obtain ⟨rfl, rfl⟩ := Walk.step.inj h
      rw [value_smiConstant ρ hl, toInt_add_of_not_overflow (by simpa using ho)]
      omega
    · simp at h
  · rename_i left right hn
    rw [ρ.sub hn]
    split at h
    · rename_i rhs hr
      split_ifs at h with ho
      obtain ⟨rfl, rfl⟩ := Walk.step.inj h
      rw [value_smiConstant ρ hr, toInt_sub_of_not_overflow (by simpa using ho)]
      omega
    · simp at h
  · simp at h

lemma canonicalizeFrom_sound : canonicalizeFrom t g overflow n s offset = overflow ∨
    Denotes ρ.value (ρ.value s + offset.toInt) (canonicalizeFrom t g overflow n s offset) := by
  induction n generalizing s offset with
  | zero => exact .inl rfl
  | succ n ih =>
    simp only [canonicalizeFrom]
    cases hw : walk g s offset with
    | overflow => exact .inl rfl
    | stop =>
      split_ifs with hv
      · exact .inr (fromDefinition_denotes ρ s hv)
      · exact .inl rfl
    | step s' offset' =>
      rw [walk_sound ρ hw]
      exact ih

variable {x : ℤ}

lemma canonicalizeBoundary_sound (overflow : RangeBoundary) (h : Denotes ρ.value x a) :
    canonicalizeBoundary t g a overflow = overflow ∨ Denotes ρ.value x (canonicalizeBoundary t g a overflow) := by
  cases a with
  | symbol s offset =>
    have hx : x = ρ.value s + offset.toInt := h
    rw [hx]
    exact canonicalizeFrom_sound ρ
  | _ => exact .inr h

lemma canonicalizeWith_cases {overflow : RangeBoundary} (h : canonicalizeWith t g boundary overflow a = some b) :
    ∃ s offset r s' offset', a = .symbol s offset ∧ g.range s = some r ∧ boundary r = .symbol s' offset' ∧
    (b = overflow ∨ Denotes ρ.value (ρ.value s' + offset'.toInt + offset.toInt) b) := by
  unfold canonicalizeWith at h
  split at h
  · rename_i s offset
    split at h
    · rename_i s' offset' hr
      obtain ⟨r, hr, hs⟩ := map_eq_some_iff.1 hr
      refine ⟨s, offset, r, s', offset', rfl, hr, hs, ?_⟩
      split_ifs at h with ho hv
      · exact .inl (some.inj h).symm
      · exact .inl (some.inj h).symm
      · obtain rfl := some.inj h
        have hd := fromDefinition_denotes ρ s' (by simpa using hv)
        rw [toInt_add_of_not_overflow (by simpa using ho), ← add_assoc] at hd
        exact canonicalizeBoundary_sound ρ overflow hd
    · simp at h
  · simp at h

lemma canonicalizeMaxBoundary_sound (h : AtMost ρ.value x a)
    (hb : canonicalizeMaxBoundary t g a = some b) : AtMost ρ.value x b := by
  obtain ⟨s, offset, r, s', offset', rfl, hr, hs, rfl | hd⟩ := canonicalizeWith_cases ρ hb
  · trivial
  · have hmax := (ρ.inRange hr).2
    rw [hs] at hmax
    simp only [AtMost] at h hmax
    cases b <;> simp only [Denotes, AtMost] at hd ⊢ <;> omega

lemma canonicalizeMinBoundary_sound (h : AtLeast ρ.value x a)
    (hb : canonicalizeMinBoundary t g a = some b) : AtLeast ρ.value x b := by
  obtain ⟨s, offset, r, s', offset', rfl, hr, hs, rfl | hd⟩ := canonicalizeWith_cases ρ hb
  · trivial
  · have hmin := (ρ.inRange hr).1
    rw [hs] at hmin
    simp only [AtLeast] at h hmin
    cases b <;> simp only [Denotes, AtLeast] at hd ⊢ <;> omega

lemma compareSymbolicFrom_sound {x y : ℤ} (hx : AtMost ρ.value x max) (hy : AtLeast ρ.value y length)
    (h : compareSymbolicFrom t g n max length = true) : x < y := by
  induction n generalizing max length with
  | zero => simp [compareSymbolicFrom] at h
  | succ n ih =>
    simp only [compareSymbolicFrom, compareSymbolicStep] at h
    split_ifs at h with hs
    · cases max <;> cases length <;> simp only [dependOnSameSymbol, Bool.false_eq_true] at hs
      have hv := value_of_areEqualDefinitions ρ hs
      simp only [RangeBoundary.offset, decide_eq_true_eq, Int64.lt_iff_toInt_lt] at h
      simp only [AtMost, AtLeast] at hx hy
      omega
    · cases hmax : canonicalizeMaxBoundary t g max with
      | some max' =>
        rw [hmax] at h
        exact ih (canonicalizeMaxBoundary_sound ρ hx hmax) hy h
      | none =>
        cases hmin : canonicalizeMinBoundary t g length with
        | some length' =>
          rw [hmax, hmin] at h
          exact ih hx (canonicalizeMinBoundary_sound ρ hy hmin) h
        | none => simp [hmax, hmin] at h

lemma overflowedSmi_upperBound (h : AtMost ρ.value x b)
    (ho : (upperBound t g b).overflowedSmi t = false) : x ≤ (upperBound t g b).constantValue.toInt := by
  have hs := upperBound_sound ρ h
  rcases upperBound_cases b with hc | ⟨c, hc⟩ <;> rw [hc] at hs ho ⊢
  · simp [RangeBoundary.overflowedSmi] at ho
  · exact hs

lemma overflowedSmi_lowerBound (h : AtLeast ρ.value x b)
    (ho : (lowerBound t g b).overflowedSmi t = false) : (lowerBound t g b).constantValue.toInt ≤ x := by
  have hs := lowerBound_sound ρ h
  rcases lowerBound_cases b with hc | ⟨c, hc⟩ <;> rw [hc] at hs ho ⊢
  · simp [RangeBoundary.overflowedSmi] at ho
  · exact hs

lemma index_nonneg (h : ¬ (constantMinSmi t g index).constantValue < 0) : 0 ≤ ρ.value index := by
  have hmin := constantMinSmi_sound ρ index
  obtain ⟨c, hc⟩ := constantMinSmi_constant index
  rw [hc] at h hmin
  rw [Int64.not_lt, Int64.le_iff_toInt_le] at h
  exact h.trans hmin

lemma isBelow_sound {length : Def} (h : isBelow t g index length = true) :
    0 ≤ ρ.value index ∧ ρ.value index < ρ.value length := by
  have hindex := fromDefinition_zero_denotes ρ index
  have hlength := fromDefinition_zero_denotes ρ length
  simp only [isBelow, Bool.or_eq_true] at h
  split_ifs at h with h1 h2 h3 h4
  all_goals
    simp only [not_or, Bool.not_eq_true] at h2
    refine ⟨?_, ?_⟩
  · exact index_nonneg ρ h1
  · have hu := overflowedSmi_upperBound ρ (atMost_of_denotes hindex) h2.1
    have hl := overflowedSmi_lowerBound ρ (atLeast_of_denotes hlength) h2.2
    rw [Int64.lt_iff_toInt_lt] at h3
    omega
  · exact index_nonneg ρ h1
  · rcases canonicalizeBoundary_sound ρ .positiveInfinity hlength with hc | hc
    · simp [hc, RangeBoundary.overflowedSmi] at h4
    · exact compareSymbolicFrom_sound ρ (atMost_of_denotes hindex) (atLeast_of_denotes hc) h

def Valuation.setConstantRange {d : Def} {v : Int64} (h : g.node d = .constant v) :
    Valuation t (g.setConstantRange d v) where
  value := ρ.value
  constant := ρ.constant
  constraint := ρ.constraint
  add := ρ.add
  sub := ρ.sub
  congr := ρ.congr
  smi := ρ.smi
  inRange := by
    intro d' r hr
    by_cases hd : d' = d
    · subst hd
      simp only [SmiGraph.setConstantRange, update_self, some.injEq] at hr
      subst hr
      exact ⟨(ρ.constant h).ge, (ρ.constant h).le⟩
    · simp only [SmiGraph.setConstantRange, update_of_ne hd] at hr
      exact ρ.inRange hr

theorem isRedundantBasedOnRangeInformation_sound {index length : Def}
    (h : isRedundantBasedOnRangeInformation t g index length = true) :
    0 ≤ ρ.value index ∧ ρ.value index < ρ.value length := by
  unfold isRedundantBasedOnRangeInformation at h
  split at h
  · rename_i i l hi hl
    simp only [Bool.and_eq_true, decide_eq_true_eq, Int64.le_iff_toInt_le, Int64.lt_iff_toInt_lt] at h
    rw [value_smiConstant ρ hi, value_smiConstant ρ hl]
    exact h
  · split at h
    · exact isBelow_sound ρ h
    · rename_i v hr hv
      have hn : g.node index = .constant v := by
        unfold smiConstant at hv
        split at hv
        · rename_i w hn
          rw [hn, some.inj hv]
        · simp at hv
      exact isBelow_sound (ρ.setConstantRange hn) h
    · simp at h

end Sound

section

def indexGraph : SmiGraph where
  node _ := .load none
  range d := if d = 1 then some ⟨.constant 0, .symbol 0 (-1), rfl, rfl⟩ else none
  isArrayLength d := d = 0
  inputs_lt d v hv := by simp [Node.inputs] at hv
  symbols_lt d r hr s hs := by
    split_ifs at hr with hd
    obtain rfl := some.inj hr
    obtain rfl : s = 0 := by simpa [RangeBoundary.symbols] using hs
    exact hd ▸ Nat.one_pos

def indexValuation : Valuation ⟨62, le_rfl⟩ indexGraph where
  value d := if d = 1 then 4 else 5
  constant h := by simp [indexGraph] at h
  constraint h := by simp [indexGraph] at h
  add h := by simp [indexGraph] at h
  sub h := by simp [indexGraph] at h
  congr _ h := by simp [indexGraph, Node.allowsCSE] at h
  smi d := by
    by_cases hd : d = 1 <;> simp only [hd, if_true, if_false] <;> norm_num
  inRange {d r} hr := by
    simp only [indexGraph] at hr
    split_ifs at hr with hd
    subst hd
    obtain rfl := some.inj hr
    have h : (-1 : Int64).toInt = -1 := rfl
    simp [Range.Contains, AtLeast, AtMost, h]

theorem isRedundantBasedOnRangeInformation_sound_index :
    isRedundantBasedOnRangeInformation ⟨62, le_rfl⟩ indexGraph 1 0 = true ∧
      0 ≤ indexValuation.value 1 ∧ indexValuation.value 1 < indexValuation.value 0 := by
  have h : isRedundantBasedOnRangeInformation ⟨62, le_rfl⟩ indexGraph 1 0 = true := by
    decide +kernel
  exact ⟨h, isRedundantBasedOnRangeInformation_sound indexValuation h⟩

end
end DartSdk.Ranges
