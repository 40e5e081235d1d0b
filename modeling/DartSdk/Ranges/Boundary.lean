import DartSdk.Library.Fuel
import DartSdk.Library.WrapInt

/-!
Boundaries and ranges of `range_analysis.h` over a graph of Smi definitions. A range made by the
constructor is never infinite; the kind `kUnknown`, which every function here asserts away, is left
out.
-/

namespace DartSdk.Ranges
open WrapInt Bool Int64

abbrev Def := ℕ

structure Target where
  smiBits : ℕ
  smiBits_le : smiBits ≤ 62

namespace Target
variable (t : Target)

def smiMax : Int64 := Int64.ofInt (2 ^ t.smiBits - 1)

def smiMin : Int64 := Int64.ofInt (-2 ^ t.smiBits)

def isSmi (v : Int64) : Bool := t.smiMin ≤ v && v ≤ t.smiMax

lemma two_pow_le : (2 : ℤ) ^ t.smiBits ≤ 2 ^ 62 := pow_le_pow_right₀ (by norm_num) t.smiBits_le

lemma two_pow_pos : (0 : ℤ) < 2 ^ t.smiBits := by positivity

lemma toInt_smiMax : t.smiMax.toInt = 2 ^ t.smiBits - 1 := by
  have h := t.two_pow_le
  have h' := t.two_pow_pos
  exact toInt_ofInt ⟨by omega, by omega⟩

lemma toInt_smiMin : t.smiMin.toInt = -2 ^ t.smiBits := by
  have h := t.two_pow_le
  have h' := t.two_pow_pos
  exact toInt_ofInt ⟨by omega, by omega⟩

end Target

inductive RangeSize
  | smi | int16 | int32 | int64
deriving DecidableEq

inductive RangeBoundary
  | negativeInfinity
  | positiveInfinity
  | symbol (d : Def) (offset : Int64)
  | constant (v : Int64)
deriving DecidableEq

def willAddOverflow (a b : Int64) : Bool :=
  (0 < b && Int64.maxValue - b < a) || (b < 0 && a < Int64.minValue - b)

def willSubOverflow (a b : Int64) : Bool :=
  (0 < b && a < Int64.minValue + b) || (b < 0 && Int64.maxValue + b < a)

variable {a b : Int64} {x : ℤ} {ρ : Def → ℤ}

lemma toInt_add_of_not_overflow (h : willAddOverflow a b = false) : (a + b).toInt = a.toInt + b.toInt := by
  have ha := range a
  have hb := range b
  have h0 := toInt_zero
  have hmax := toInt_maxValue
  have hmin := toInt_minValue
  simp only [willAddOverflow, or_eq_false_iff, and_eq_false_iff, decide_eq_false_iff_not, lt_iff_toInt_lt] at h
  unfold Fits at ha hb
  have hup : 0 < b.toInt → (maxValue - b).toInt = maxValue.toInt - b.toInt :=
    fun hp => toInt_sub (by unfold Fits; omega)
  have hdown : b.toInt < 0 → (Int64.minValue - b).toInt = Int64.minValue.toInt - b.toInt :=
    fun hp => toInt_sub (by unfold Fits; omega)
  apply WrapInt.toInt_add
  unfold Fits
  omega

lemma toInt_sub_of_not_overflow (h : willSubOverflow a b = false) : (a - b).toInt = a.toInt - b.toInt := by
  have ha := range a
  have hb := range b
  have h0 := toInt_zero
  have hmax := toInt_maxValue
  have hmin := toInt_minValue
  simp only [willSubOverflow, or_eq_false_iff, and_eq_false_iff, decide_eq_false_iff_not, lt_iff_toInt_lt] at h
  unfold Fits at ha hb
  have hup : 0 < b.toInt → (minValue + b).toInt = minValue.toInt + b.toInt :=
    fun hp => toInt_add (by unfold Fits; omega)
  have hdown : b.toInt < 0 → (Int64.maxValue + b).toInt = Int64.maxValue.toInt + b.toInt :=
    fun hp => toInt_add (by unfold Fits; omega)
  apply WrapInt.toInt_sub
  unfold Fits
  omega

namespace RangeBoundary
variable (t : Target)

def isInfinity : RangeBoundary → Bool
  | negativeInfinity => true
  | positiveInfinity => true
  | _ => false

def minConstant : RangeSize → Int64
  | .smi => t.smiMin
  | .int16 => -0x8000
  | .int32 => -0x80000000
  | .int64 => Int64.minValue

def maxConstant : RangeSize → Int64
  | .smi => t.smiMax
  | .int16 => 0x7fff
  | .int32 => 0x7fffffff
  | .int64 => Int64.maxValue

def clamp (size : RangeSize) : RangeBoundary → RangeBoundary
  | negativeInfinity => constant (minConstant t size)
  | positiveInfinity => constant (maxConstant t size)
  | constant v =>
    if v ≤ minConstant t size then constant (minConstant t size)
    else if maxConstant t size ≤ v then constant (maxConstant t size)
    else constant v
  | symbol d offset => symbol d offset

def overflowedSmi : RangeBoundary → Bool
  | constant v => !t.isSmi v
  | symbol _ _ => false
  | _ => true

def add (a b overflow : RangeBoundary) : RangeBoundary :=
  match a, b with
  | constant x, constant y => if willAddOverflow x y then overflow else constant (x + y)
  | _, _ => overflow

def sub (a b overflow : RangeBoundary) : RangeBoundary :=
  match a, b with
  | constant x, constant y => if willSubOverflow x y then overflow else constant (x - y)
  | _, _ => overflow

def isValidOffset (offset : Int64) : Bool :=
  !(Int64.maxValue - t.smiMax < offset || offset < Int64.minValue - t.smiMin)

def constantValue : RangeBoundary → Int64
  | constant v => v
  | _ => 0

def offset : RangeBoundary → Int64
  | symbol _ offset => offset
  | _ => 0

def symbols : RangeBoundary → List Def
  | symbol d _ => [d]
  | _ => []

end RangeBoundary

open RangeBoundary

structure Range where
  min : RangeBoundary
  max : RangeBoundary
  finite : min.isInfinity = false ∧ max.isInfinity = false

namespace Range

def make (min max : RangeBoundary) : Range :=
  if h : min.isInfinity = false ∧ max.isInfinity = false then ⟨min, max, h⟩
  else ⟨.constant Int64.minValue, .constant Int64.maxValue, rfl, rfl⟩

end Range

inductive SmiOpKind
  | add | sub | other
deriving DecidableEq

inductive Node
  | constant (v : Int64)
  | load (key : Option ℕ)
  | constraint (value : Def)
  | binarySmiOp (kind : SmiOpKind) (isTruncating : Bool) (left right : Def)
deriving DecidableEq

namespace Node

def allowsCSE : Node → Bool
  | load key => key.isSome
  | constraint _ => false
  | _ => true

def inputs : Node → List Def
  | constraint v => [v]
  | binarySmiOp _ _ l r => [l, r]
  | _ => []

end Node

/-- Definitions are numbered along the dominator tree: the inputs of an operation and the symbols of a
range come before the definition. -/
structure SmiGraph where
  node : Def → Node
  range : Def → Option Range
  isArrayLength : Def → Bool
  inputs_lt : ∀ d v : ℕ, v ∈ (node d).inputs → v < d
  symbols_lt : ∀ (d : ℕ) r, range d = some r → ∀ s : ℕ, s ∈ r.min.symbols ++ r.max.symbols → s < d

section
variable (t : Target) (g : SmiGraph)

def lowerBoundWith (low : Def → RangeBoundary) : RangeBoundary → RangeBoundary
  | .symbol d offset => add (low d) (.constant offset) .negativeInfinity
  | .constant v => .constant v
  | _ => .negativeInfinity

def upperBoundWith (high : Def → RangeBoundary) : RangeBoundary → RangeBoundary
  | .symbol d offset => add (high d) (.constant offset) .positiveInfinity
  | .constant v => .constant v
  | _ => .positiveInfinity

def constantMinSmiFrom : ℕ → Def → RangeBoundary
  | 0, _ => .constant t.smiMin
  | n + 1, d =>
    match g.range d with
    | none => .constant t.smiMin
    | some r => (lowerBoundWith (constantMinSmiFrom n) r.min).clamp t .smi

def constantMaxSmiFrom : ℕ → Def → RangeBoundary
  | 0, _ => .constant t.smiMax
  | n + 1, d =>
    match g.range d with
    | none => .constant t.smiMax
    | some r => (upperBoundWith (constantMaxSmiFrom n) r.max).clamp t .smi

def constantMinSmi (d : ℕ) : RangeBoundary := constantMinSmiFrom t g (d + 1) d

def constantMaxSmi (d : ℕ) : RangeBoundary := constantMaxSmiFrom t g (d + 1) d

def lowerBound (b : RangeBoundary) : RangeBoundary := lowerBoundWith (constantMinSmi t g) b

def upperBound (b : RangeBoundary) : RangeBoundary := upperBoundWith (constantMaxSmi t g) b

def fromDefinition (d : Def) (offset : Int64) : RangeBoundary :=
  match g.node d with
  | .constant v => .constant (v + offset)
  | _ => .symbol d offset

end

section
variable {t : Target} {g : SmiGraph}
variable {b : RangeBoundary}

lemma lowerBoundWith_congr {low low' : Def → RangeBoundary}
    (h : ∀ s ∈ b.symbols, low s = low' s) : lowerBoundWith low b = lowerBoundWith low' b := by
  cases b <;> simp_all [lowerBoundWith, symbols]

lemma upperBoundWith_congr {high high' : Def → RangeBoundary}
    (h : ∀ s ∈ b.symbols, high s = high' s) : upperBoundWith high b = upperBoundWith high' b := by
  cases b <;> simp_all [upperBoundWith, symbols]

lemma constantMinSmi_eq (d : ℕ) : constantMinSmi t g d = match g.range d with
      | none => .constant t.smiMin
      | some r => (lowerBound t g r.min).clamp t .smi := by
  refine Fuel.unfold_eq (f := constantMinSmiFrom t g) (fun low d => match g.range d with
    | none => .constant t.smiMin
    | some r => (lowerBoundWith low r.min).clamp t .smi) id (fun n => rfl) (fun d low low' h => ?_) d
  cases hr : g.range d with
  | none => rfl
  | some r =>
    dsimp only
    rw [lowerBoundWith_congr fun s hs => h s (g.symbols_lt d r hr s (List.mem_append_left _ hs))]

lemma constantMaxSmi_eq (d : ℕ) : constantMaxSmi t g d = match g.range d with
      | none => .constant t.smiMax
      | some r => (upperBound t g r.max).clamp t .smi := by
  refine Fuel.unfold_eq (f := constantMaxSmiFrom t g) (fun high d => match g.range d with
    | none => .constant t.smiMax
    | some r => (upperBoundWith high r.max).clamp t .smi) id (fun n => rfl) (fun d high high' h => ?_) d
  cases hr : g.range d with
  | none => rfl
  | some r =>
    dsimp only
    rw [upperBoundWith_congr fun s hs => h s (g.symbols_lt d r hr s (List.mem_append_right _ hs))]

lemma lowerBound_cases (b : RangeBoundary) :
    lowerBound t g b = .negativeInfinity ∨ ∃ c, lowerBound t g b = .constant c := by
  unfold lowerBound lowerBoundWith add
  split
  · split
    · split_ifs <;> simp
    · exact .inl rfl
  · exact .inr ⟨_, rfl⟩
  · exact .inl rfl

lemma upperBound_cases (b : RangeBoundary) :
    upperBound t g b = .positiveInfinity ∨ ∃ c, upperBound t g b = .constant c := by
  unfold upperBound upperBoundWith add
  split
  · split
    · split_ifs <;> simp
    · exact .inl rfl
  · exact .inr ⟨_, rfl⟩
  · exact .inl rfl

lemma clamp_constant (h : b.symbols = []) (size : RangeSize) : ∃ c, b.clamp t size = .constant c := by
  cases b with
  | symbol s offset => simp [symbols] at h
  | constant c =>
    simp only [clamp]
    split_ifs <;> exact ⟨_, rfl⟩
  | _ => exact ⟨_, rfl⟩

lemma symbols_lowerBound (b : RangeBoundary) : (lowerBound t g b).symbols = [] := by
  rcases lowerBound_cases b with h | ⟨c, h⟩ <;> rw [h] <;> rfl

lemma constantMinSmi_constant (d : ℕ) : ∃ c, constantMinSmi t g d = .constant c := by
  rw [constantMinSmi_eq]
  cases g.range d with
  | none => exact ⟨_, rfl⟩
  | some r => exact clamp_constant (symbols_lowerBound r.min) .smi

end

section
variable (ρ : Def → ℤ)

def AtLeast (x : ℤ) : RangeBoundary → Prop
  | .constant c => c.toInt ≤ x
  | .symbol s offset => ρ s + offset.toInt ≤ x
  | .negativeInfinity => True
  | .positiveInfinity => False

def AtMost (x : ℤ) : RangeBoundary → Prop
  | .constant c => x ≤ c.toInt
  | .symbol s offset => x ≤ ρ s + offset.toInt
  | .negativeInfinity => False
  | .positiveInfinity => True

def Denotes (x : ℤ) : RangeBoundary → Prop
  | .constant c => x = c.toInt
  | .symbol s offset => x = ρ s + offset.toInt
  | _ => False

def Range.Contains (r : Range) (x : ℤ) : Prop := AtLeast ρ x r.min ∧ AtMost ρ x r.max

end

/-- Values for the definitions of a graph: the operations are exact, equal instructions have equal
values, and every value is a Smi within its own range. -/
structure Valuation (t : Target) (g : SmiGraph) where
  value : Def → ℤ
  constant : ∀ {d v}, g.node d = .constant v → value d = v.toInt
  constraint : ∀ {d v}, g.node d = .constraint v → value d = value v
  add : ∀ {d c l r}, g.node d = .binarySmiOp .add c l r → value d = value l + value r
  sub : ∀ {d c l r}, g.node d = .binarySmiOp .sub c l r → value d = value l - value r
  congr : ∀ {d d'}, g.node d = g.node d' → (g.node d).allowsCSE = true → value d = value d'
  smi : ∀ d, -2 ^ t.smiBits ≤ value d ∧ value d < 2 ^ t.smiBits
  inRange : ∀ {d r}, g.range d = some r → r.Contains value (value d)

namespace RangeBoundary
variable {t : Target} {ρ : Def → ℤ} {x y : ℤ} {a b : RangeBoundary}

lemma isValidOffset_iff (offset : Int64) : isValidOffset t offset = true ↔
    -2 ^ 63 + 2 ^ t.smiBits ≤ offset.toInt ∧ offset.toInt ≤ 2 ^ 63 - 2 ^ t.smiBits := by
  have hb := t.two_pow_le
  have hpos := t.two_pow_pos
  have hmax := t.toInt_smiMax
  have hmin := t.toInt_smiMin
  have hM := toInt_maxValue
  have hm := toInt_minValue
  have h1 : (maxValue - t.smiMax).toInt = maxValue.toInt - t.smiMax.toInt := toInt_sub (by unfold Fits; omega)
  have h2 : (minValue - t.smiMin).toInt = minValue.toInt - t.smiMin.toInt := toInt_sub (by unfold Fits; omega)
  simp only [isValidOffset, not_eq_true', or_eq_false_iff, decide_eq_false_iff_not, lt_iff_toInt_lt]
  omega

lemma fits_of_isValidOffset {offset : Int64} (h : isValidOffset t offset = true)
    (hx : -2 ^ t.smiBits ≤ x ∧ x < 2 ^ t.smiBits) : Fits (x + offset.toInt) := by
  rw [isValidOffset_iff] at h
  unfold Fits
  omega

lemma isValidOffset_zero : isValidOffset t 0 = true := by
  have hb := t.two_pow_le
  have h0 := toInt_zero
  rw [isValidOffset_iff]
  omega

lemma atLeast_add (ha : AtLeast ρ x a) (hb : AtLeast ρ y b) : AtLeast ρ (x + y) (add a b .negativeInfinity) := by
  cases a <;> cases b <;> simp only [add, AtLeast] at ha hb ⊢
  case constant.constant u v =>
    cases ho : willAddOverflow u v with
    | true => exact trivial
    | false =>
      simp only [false_eq_true, if_false, toInt_add_of_not_overflow ho]
      omega

lemma atMost_add (ha : AtMost ρ x a) (hb : AtMost ρ y b) : AtMost ρ (x + y) (add a b .positiveInfinity) := by
  cases a <;> cases b <;> simp only [add, AtMost] at ha hb ⊢
  case constant.constant u v =>
    cases ho : willAddOverflow u v with
    | true => exact trivial
    | false =>
      simp only [false_eq_true, if_false, toInt_add_of_not_overflow ho]
      omega

variable {size : RangeSize}

lemma atLeast_clamp (hx : (minConstant t size).toInt ≤ x) (ha : AtLeast ρ x a) : AtLeast ρ x (a.clamp t size) := by
  cases a with
  | constant c =>
    by_cases h1 : c ≤ minConstant t size
    · simp only [clamp, h1]
      exact hx
    · by_cases h2 : maxConstant t size ≤ c
      · simp only [clamp, h1, h2]
        exact (le_iff_toInt_le.1 h2).trans ha
      · simpa only [clamp, h1, h2, if_false] using ha
  | negativeInfinity => exact hx
  | positiveInfinity => exact ha.elim
  | symbol s offset => exact ha

lemma atMost_clamp (hx : x ≤ (maxConstant t size).toInt) (ha : AtMost ρ x a) : AtMost ρ x (a.clamp t size) := by
  cases a with
  | constant c =>
    by_cases h1 : c ≤ minConstant t size
    · simp only [clamp, h1]
      exact ha.trans (le_iff_toInt_le.1 h1)
    · by_cases h2 : maxConstant t size ≤ c
      · simp only [clamp, h1, h2]
        exact hx
      · simpa only [clamp, h1, h2, if_false] using ha
  | negativeInfinity => exact ha.elim
  | positiveInfinity => exact hx
  | symbol s offset => exact ha

end RangeBoundary

lemma atMost_of_denotes {b : RangeBoundary} (h : Denotes ρ x b) : AtMost ρ x b := by
  cases b <;> simp only [Denotes, AtMost] at h ⊢ <;> omega

lemma atLeast_of_denotes {b : RangeBoundary} (h : Denotes ρ x b) : AtLeast ρ x b := by
  cases b <;> simp only [Denotes, AtLeast] at h ⊢ <;> omega

section
variable {t : Target} {g : SmiGraph} (ρ : Valuation t g)
variable {b : RangeBoundary}
variable {x : ℤ}

lemma lowerBoundWith_sound {low : Def → RangeBoundary}
    (hlow : ∀ s ∈ b.symbols, AtLeast ρ.value (ρ.value s) (low s)) (h : AtLeast ρ.value x b) :
    AtLeast ρ.value x (lowerBoundWith low b) := by
  cases b with
  | constant c => exact h
  | symbol s offset =>
    have hs := atLeast_add (hlow s (by simp [symbols])) (b := .constant offset) (le_refl offset.toInt)
    have hx : ρ.value s + offset.toInt ≤ x := h
    simp only [lowerBoundWith]
    generalize add (low s) (.constant offset) .negativeInfinity = c at hs ⊢
    cases c <;> simp only [AtLeast] at hs ⊢ <;> omega
  | negativeInfinity => trivial
  | positiveInfinity => exact h.elim

lemma upperBoundWith_sound {high : Def → RangeBoundary}
    (hhigh : ∀ s ∈ b.symbols, AtMost ρ.value (ρ.value s) (high s)) (h : AtMost ρ.value x b) :
    AtMost ρ.value x (upperBoundWith high b) := by
  cases b with
  | constant c => exact h
  | symbol s offset =>
    have hs := atMost_add (hhigh s (by simp [symbols])) (b := .constant offset) (le_refl offset.toInt)
    have hx : x ≤ ρ.value s + offset.toInt := h
    simp only [upperBoundWith]
    generalize add (high s) (.constant offset) .positiveInfinity = c at hs ⊢
    cases c <;> simp only [AtMost] at hs ⊢ <;> omega
  | negativeInfinity => exact h.elim
  | positiveInfinity => trivial

lemma constantMinSmi_sound (d : ℕ) : AtLeast ρ.value (ρ.value d) (constantMinSmi t g d) := by
  induction d using Nat.strong_induction_on with
  | _ d ih =>
    rw [constantMinSmi_eq]
    cases hr : g.range d with
    | none =>
      simp only [AtLeast, t.toInt_smiMin]
      exact (ρ.smi d).1
    | some r =>
      refine atLeast_clamp (t.toInt_smiMin ▸ (ρ.smi d).1) ?_
      exact lowerBoundWith_sound ρ
        (fun s hs => ih s (g.symbols_lt d r hr s (List.mem_append_left _ hs))) (ρ.inRange hr).1

lemma constantMaxSmi_sound (d : ℕ) : AtMost ρ.value (ρ.value d) (constantMaxSmi t g d) := by
  induction d using Nat.strong_induction_on with
  | _ d ih =>
    rw [constantMaxSmi_eq]
    cases hr : g.range d with
    | none =>
      have := (ρ.smi d).2
      simp only [AtMost, t.toInt_smiMax]
      omega
    | some r =>
      refine atMost_clamp (t.toInt_smiMax ▸ Int.le_sub_one_of_lt (ρ.smi d).2) ?_
      exact upperBoundWith_sound ρ
        (fun s hs => ih s (g.symbols_lt d r hr s (List.mem_append_right _ hs))) (ρ.inRange hr).2

lemma lowerBound_sound (h : AtLeast ρ.value x b) : AtLeast ρ.value x (lowerBound t g b) :=
  lowerBoundWith_sound ρ (fun s _ => constantMinSmi_sound ρ s) h

lemma upperBound_sound (h : AtMost ρ.value x b) : AtMost ρ.value x (upperBound t g b) :=
  upperBoundWith_sound ρ (fun s _ => constantMaxSmi_sound ρ s) h

lemma fromDefinition_denotes (d : Def) {offset : Int64} (h : isValidOffset t offset = true) :
    Denotes ρ.value (ρ.value d + offset.toInt) (fromDefinition g d offset) := by
  unfold fromDefinition
  split
  · rename_i v hn
    have hfits := fits_of_isValidOffset h (ρ.smi d)
    rw [ρ.constant hn] at hfits ⊢
    exact (toInt_add hfits).symm
  · rfl

lemma fromDefinition_zero_denotes (d : Def) : Denotes ρ.value (ρ.value d) (fromDefinition g d 0) := by
  have h := fromDefinition_denotes ρ d isValidOffset_zero
  rwa [show (0 : Int64).toInt = 0 from rfl, add_zero] at h

end
end DartSdk.Ranges
