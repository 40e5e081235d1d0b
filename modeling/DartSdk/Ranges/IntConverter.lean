import DartSdk.Ranges.BinaryOpSound

namespace DartSdk.Ranges
open WrapInt RangeBoundary Range

inductive Representation
  | int32 | uint32 | int64
deriving DecidableEq

namespace Representation

def truncateTo (v : Int64) : Representation → Int64
  | int32 => shr (shl v 32) 32
  | uint32 => v &&& 0xffffffff
  | int64 => v

def Holds (x : ℤ) : Representation → Prop
  | int32 => -2 ^ 31 ≤ x ∧ x < 2 ^ 31
  | uint32 => 0 ≤ x ∧ x < 2 ^ 32
  | int64 => Fits x

variable {r : Representation} {v w : Int64}
variable {x : ℤ}

lemma int32_iff (t : Target) : int32.Holds x ↔ (minConstant t .int32).toInt ≤ x ∧ x ≤ (maxConstant t .int32).toInt := by
  have hmax : (maxConstant t .int32).toInt = 2 ^ 31 - 1 := rfl
  rw [hmax, Int.le_sub_one_iff]
  rfl

lemma uint32_iff : uint32.Holds x ↔ (0 : Int64).toInt ≤ x ∧ x ≤ (0xffffffff : Int64).toInt := by
  have hmax : (0xffffffff : Int64).toInt = 2 ^ 32 - 1 := rfl
  rw [hmax, Int.le_sub_one_iff]
  rfl

lemma truncateTo_spec (r : Representation) (v : Int64) : r.Holds (r.truncateTo v).toInt ∧
    ∃ k : ℤ, (r.truncateTo v).toInt = v.toInt - 2 ^ 32 * k := by
  cases r with
  | int32 =>
    obtain ⟨k, hk⟩ := shl_spec v 32
    have hr := range (shl v 32)
    simp only [Holds, truncateTo, toInt_shr, Fits] at *
    exact ⟨by omega, k, by omega⟩
  | uint32 =>
    have hv := toInt_eq_toNat v
    have hn := toInt_eq_toNat (v &&& 0xffffffff)
    have ha : (v &&& 0xffffffff).toBitVec.toNat = v.toBitVec.toNat % 2 ^ 32 := Nat.and_two_pow_sub_one_eq_mod _ 32
    simp only [Holds, truncateTo]
    refine ⟨by omega, (v.toInt - (v &&& 0xffffffff).toInt) / 2 ^ 32, ?_⟩
    split_ifs at hv hn <;> omega
  | int64 => exact ⟨range v, 0, by simp [truncateTo]⟩

lemma eq_of_holds (hr : r ≠ int64) {k : ℤ} (hv : r.Holds v.toInt) (hw : r.Holds w.toInt)
    (h : w.toInt = v.toInt - 2 ^ 32 * k) : w = v := by
  apply Int64.toInt_inj.1
  cases r <;> simp only [Holds, ne_eq, not_true_eq_false] at * <;> omega

lemma truncateTo_of_holds (h : r.Holds v.toInt) : r.truncateTo v = v := by
  by_cases hr : r = int64
  · rw [hr]
    rfl
  · obtain ⟨hw, k, hk⟩ := truncateTo_spec r v
    exact eq_of_holds hr h hw hk

lemma holds_both_iff {a b : Representation} (h : a ≠ b) (ha : a ≠ int64) (hb : b ≠ int64) :
    a.Holds x ∧ b.Holds x ↔ 0 ≤ x ∧ x < 2 ^ 31 := by
  cases a <;> cases b <;> simp only [Holds, ne_eq, not_true_eq_false] at * <;> omega

end Representation

open DartSdk.Ranges.Representation

section
variable (t : Target) (g : SmiGraph)

def RangeBoundary.overflowed (size : RangeSize) (b : RangeBoundary) : Bool := b != b.clamp t size

def Range.fitsSize (r : Range) (size : RangeSize) : Bool :=
  !(lowerBound t g r.min).overflowed t size && !(upperBound t g r.max).overflowed t size

def Range.isWithin (r : Range) (min max : Int64) : Bool :=
  r.onlyGreaterThanOrEqualTo t g min && r.onlyLessThanOrEqualTo t g max

def Range.fits (range : Option Range) (rep : Representation) : Bool :=
  match range, rep with
  | none, _ => false
  | some _, .int64 => true
  | some r, .int32 => r.fitsSize t g .int32
  | some r, .uint32 => r.isWithin t g 0 0xffffffff

variable {t g}

lemma of_not_overflowed {c : Int64} (h : (constant c).overflowed t .int32 = false) :
    (minConstant t .int32).toInt ≤ c.toInt ∧ c.toInt ≤ (maxConstant t .int32).toInt := by
  have hle : (-0x80000000 : Int64).toInt ≤ (0x7fffffff : Int64).toInt := by decide
  simp only [overflowed, clamp, minConstant, maxConstant, bne_eq_false_iff_eq, Int64.le_iff_toInt_le] at h ⊢
  split_ifs at h <;> simp only [constant.injEq] at h <;> subst_vars <;> omega

lemma fitsSize_sound (ρ : Valuation t g) {r : Range} {x : ℤ}
    (h : r.fitsSize t g .int32 = true) (hx : r.Contains ρ.value x) :
    (minConstant t .int32).toInt ≤ x ∧ x ≤ (maxConstant t .int32).toInt := by
  simp only [fitsSize, Bool.and_eq_true, Bool.not_eq_true'] at h
  have hl := lowerBound_sound ρ hx.1
  have hu := upperBound_sound ρ hx.2
  constructor
  · rcases lowerBound_cases r.min with hc | ⟨c, hc⟩ <;> rw [hc] at h hl
    · simp [overflowed, clamp] at h
    · exact (of_not_overflowed h.1).1.trans hl
  · rcases upperBound_cases r.max with hc | ⟨c, hc⟩ <;> rw [hc] at h hu
    · simp [overflowed, clamp] at h
    · exact hu.trans (of_not_overflowed h.2).2

lemma fits_sound (ρ : Valuation t g) {range : Option Range} {rep : Representation} {v : Int64}
    (h : fits t g range rep = true) (hv : ∀ r, range = some r → r.Contains ρ.value v.toInt) :
    rep.Holds v.toInt := by
  cases range with
  | none => simp [fits] at h
  | some r =>
    have hr := hv r rfl
    cases rep with
    | int32 => exact (int32_iff t).2 (fitsSize_sound ρ h hr)
    | uint32 =>
      simp only [fits, isWithin, Bool.and_eq_true] at h
      exact uint32_iff.2 ⟨(le_constantMin h.1).trans (constantMin_le ρ hr),
        (le_constantMax ρ hr).trans (constantMax_le h.2)⟩
    | int64 => exact WrapInt.range v

end

structure IntConverter where
  fromRep : Representation
  toRep : Representation
  isTruncating : Bool
  ne : fromRep ≠ toRep

namespace IntConverter
variable (t : Target) (g : SmiGraph)

def canDeoptimize (c : IntConverter) (range : Option Range) : Bool :=
  c.toRep = .int32 && !c.isTruncating && !fits t g range .int32

/-- The value a converter produces, `none` where it deoptimises. -/
def eval (c : IntConverter) (range : Option Range) (v : Int64) : Option Int64 :=
  let result := c.toRep.truncateTo (c.fromRep.truncateTo v)
  if c.canDeoptimize t g range && v != result then none else some result

def inferRange (c : IntConverter) (range : Range) : Range :=
  if c.toRep = .uint32 then .ofConstants 0 0xffffffff
  else if c.toRep = .int32 then .make (range.min.clamp t .int32) (range.max.clamp t .int32)
  else range

variable {t g}

lemma eval_eq_some {c : IntConverter} {range : Option Range} {v w : Int64} (hv : c.fromRep.Holds v.toInt)
    (h : c.eval t g range v = some w) :
    w = c.toRep.truncateTo v ∧ (c.canDeoptimize t g range = true → w = v) := by
  simp only [eval, truncateTo_of_holds hv] at h
  split_ifs at h with hd
  simp only [Bool.and_eq_true, bne_iff_ne, not_and, not_not] at hd
  refine ⟨(Option.some.inj h).symm, ?_⟩
  intro hc
  rw [← Option.some.inj h]
  exact (hd hc).symm

end IntConverter

inductive Conversion
  | intConverter (c : IntConverter)
  | unboxUint32
  | unboxInt32

namespace Conversion
variable (t : Target) (g : SmiGraph)

def source : Conversion → Representation
  | intConverter c => c.fromRep
  | _ => .int64

def target : Conversion → Representation
  | intConverter c => c.toRep
  | unboxUint32 => .uint32
  | unboxInt32 => .int32

def eval (range : Range) (v : Int64) : Conversion → Option Int64
  | intConverter c => c.eval t g (some range) v
  | unboxUint32 => some (uint32.truncateTo v)
  | unboxInt32 => some (int32.truncateTo v)

def inferRange (range : Range) : Conversion → Range
  | intConverter c => c.inferRange t range
  | unboxUint32 => if range.isPositive t g then range else .ofConstants 0 0xffffffff
  | unboxInt32 => range

variable {t g} {r : Range} {v w : Int64}
variable {i : Conversion}

lemma eval_eq_some (hv : i.source.Holds v.toInt) (h : i.eval t g r v = some w) : w = i.target.truncateTo v := by
  cases i with
  | intConverter c => exact (IntConverter.eval_eq_some hv h).1
  | _ => simp only [target, ← Option.some.inj h]

lemma uint32_contains (ρ : Valuation t g) (h : uint32.Holds w.toInt) :
    (ofConstants 0 0xffffffff).Contains ρ.value w.toInt :=
  uint32_iff.1 h

/-- The value produced from `v` is in the range that is inferred from the constants `l` and `u`. -/
def Keeps (l u v : ℤ) : Conversion → Prop
  | intConverter c => c.toRep = .int32 →
      (l ≤ v.bmod (2 ^ 32) ∨ v.bmod (2 ^ 32) = 2 ^ 31 - 1) ∧ (v.bmod (2 ^ 32) ≤ u ∨ v.bmod (2 ^ 32) = -2 ^ 31)
  | unboxUint32 => 0 ≤ l → l ≤ v % 2 ^ 32
  | unboxInt32 => l ≤ v.bmod (2 ^ 32) ∧ v.bmod (2 ^ 32) ≤ u

lemma contains_clamp_iff (ρ : Valuation t g) {l u : Int64} (hw : int32.Holds w.toInt) :
    (Range.make ((constant l).clamp t .int32) ((constant u).clamp t .int32)).Contains ρ.value w.toInt ↔
      (l.toInt ≤ w.toInt ∨ w.toInt = 2 ^ 31 - 1) ∧ (w.toInt ≤ u.toInt ∨ w.toInt = -2 ^ 31) := by
  have hmin : (minConstant t .int32).toInt = -2 ^ 31 := rfl
  have hmax : (maxConstant t .int32).toInt = 2 ^ 31 - 1 := rfl
  simp only [Holds] at hw
  simp only [clamp, Int64.le_iff_toInt_le, hmin, hmax]
  split_ifs <;> simp only [make, isInfinity, and_self, dite_true, Range.Contains, AtLeast, AtMost, hmin, hmax] <;> omega

theorem conversion_inferRange_iff (ρ : Valuation t g) (i : Conversion) {l u : Int64} (hv : i.source.Holds v.toInt)
    (hl : l ≤ v) (hu : v ≤ u) (hw : i.eval t g (.ofConstants l u) v = some w) :
    (i.inferRange t g (.ofConstants l u)).Contains ρ.value w.toInt ↔ i.Keeps l.toInt u.toInt v.toInt := by
  have hwv := eval_eq_some hv hw
  obtain ⟨htarget, k, hk⟩ := hwv ▸ truncateTo_spec i.target v
  rw [Int64.le_iff_toInt_le] at hl hu
  cases i with
  | intConverter c =>
    simp only [target] at htarget hwv
    simp only [inferRange, IntConverter.inferRange, Keeps]
    split_ifs with huint hint
    · rw [huint] at htarget ⊢
      simpa using uint32_contains ρ htarget
    · rw [hint] at htarget ⊢
      have hmod : v.toInt.bmod (2 ^ 32) = w.toInt := by
        simp only [Holds] at htarget
        rw [Int.bmod]
        omega
      rw [hmod]
      simpa [ofConstants] using contains_clamp_iff ρ htarget
    · have hto : c.toRep = .int64 := by cases hc : c.toRep <;> simp_all
      rw [hwv, hto]
      simpa [truncateTo] using ofConstants_contains ρ (Int64.le_iff_toInt_le.2 hl) (Int64.le_iff_toInt_le.2 hu)
  | unboxUint32 =>
    simp only [target, Holds] at htarget
    have hmod : v.toInt % 2 ^ 32 = w.toInt := by omega
    have hpos : (ofConstants l u).isPositive t g = decide (0 ≤ l.toInt) := by
      simp [isPositive, onlyGreaterThanOrEqualTo, lowerBound, lowerBoundWith, ofConstants, constantValue,
        Int64.le_iff_toInt_le]
    simp only [inferRange, hpos, Keeps, hmod]
    split_ifs with h <;> simp only [decide_eq_true_eq] at h
    · simp only [ofConstants, Range.Contains, AtLeast, AtMost]
      omega
    · simpa [h] using uint32_contains ρ htarget
  | unboxInt32 =>
    simp only [target, Holds] at htarget
    have hmod : v.toInt.bmod (2 ^ 32) = w.toInt := by
      rw [Int.bmod]
      omega
    rw [Keeps, hmod]
    rfl

/-- A wide range and a value that is cut to 0: the conversion of `2 ^ 32` stays in the range. -/
theorem conversion_inferRange_iff_wide :
    ((intConverter ⟨.int64, .int32, true, by decide⟩).inferRange ⟨62, le_rfl⟩ indexGraph
      (.ofConstants 0 0x100000005)).Contains indexValuation.value (0 : Int64).toInt :=
  (conversion_inferRange_iff indexValuation (intConverter ⟨.int64, .int32, true, by decide⟩) (l := 0)
    (u := 0x100000005) (v := 0x100000000) (w := 0) ⟨by decide, by decide⟩ (by decide) (by decide) (by decide +kernel)).2
    fun _ => by decide

theorem conversion_inferRange_unsound :
    let i := intConverter ⟨.int64, .int32, true, by decide⟩
    let r := ofConstants 0x100000000 0x100000005
    let v : Int64 := 0x100000000
    r.Contains indexValuation.value v.toInt ∧ i.eval ⟨62, le_rfl⟩ indexGraph r v = some 0 ∧
      ¬ (i.inferRange ⟨62, le_rfl⟩ indexGraph r).Contains indexValuation.value (0 : Int64).toInt := by
  intro i r v
  have hmin : (i.inferRange ⟨62, le_rfl⟩ indexGraph r).min = .constant 0x7fffffff := by decide +kernel
  refine ⟨ofConstants_contains _ (by decide) (by decide), by decide +kernel, ?_⟩
  simp [Range.Contains, AtLeast, hmin]

end Conversion

namespace IntConverter
variable (t : Target) (g : SmiGraph)

/-- What a converter is replaced by: itself, the source of the chain, or one converter. -/
inductive Replacement
  | this
  | source
  | converter (c : IntConverter)

def canonicalize (c box : IntConverter) (sourceRange : Option Range) : Replacement :=
  if box.toRep = c.fromRep then
    if box.fromRep = .int64 && !fits t g sourceRange box.toRep then .this
    else if h : box.fromRep = c.toRep then .source
    else .converter ⟨box.fromRep, c.toRep, c.toRep = .uint32 || c.toRep = .int32 && c.isTruncating, h⟩
  else .this

def Replacement.eval (sourceRange : Option Range) (v : Int64) (chain : Option Int64) : Replacement → Option Int64
  | .this => chain
  | .source => some v
  | .converter c => c.eval t g sourceRange v

variable {t g}

section
variable (ρ : Valuation t g) {c box : IntConverter} {r r' : Option Range} {v y w : Int64}

/-- The second conversion has the last word: below `int64` only the low half of the value counts. -/
lemma chain_eq_truncateTo (hto : c.toRep ≠ .int64) (hy : y = box.toRep.truncateTo v)
    (hw : w = c.toRep.truncateTo y) : w = c.toRep.truncateTo v := by
  obtain ⟨-, k, hk⟩ := truncateTo_spec box.toRep v
  obtain ⟨hwto, m, hm⟩ := truncateTo_spec c.toRep y
  obtain ⟨hvto, n, hn⟩ := truncateTo_spec c.toRep v
  rw [← hw] at hwto hm
  rw [← hy] at hk
  refine eq_of_holds hto (k := k + m - n) hvto hwto ?_
  rw [hm, hk, hn]
  ring

lemma second_eq (hy : c.fromRep.Holds y.toInt) (hr : ∀ s, r' = some s → s.Contains ρ.value y.toInt)
    (hw : c.eval t g r' y = some w) (hto : c.toRep = .int32) (htrunc : c.isTruncating = false) : w = y := by
  obtain ⟨hwy, hd⟩ := eval_eq_some hy hw
  cases hf : fits t g r' .int32 with
  | true =>
    rw [hwy, hto]
    exact truncateTo_of_holds (fits_sound ρ hf hr)
  | false => exact hd (by simp [canDeoptimize, hto, htrunc, hf])

/-- Folding a chain keeps its value, except that a conversion from one 32-bit representation through
the other to `int64` has to meet a value that both of them hold. -/
theorem canonicalize_preserves_iff (c box : IntConverter) (hchain : box.toRep = c.fromRep) (hv : box.fromRep.Holds v.toInt)
    (hr : ∀ s, r = some s → s.Contains ρ.value v.toInt) (hr' : ∀ s, r' = some s → s.Contains ρ.value y.toInt)
    (hy : box.eval t g r v = some y) (hw : c.eval t g r' y = some w) :
    (canonicalize t g c box r).eval t g r v (some w) = some w ↔
      (box.fromRep ≠ .int64 → c.toRep = .int64 → 0 ≤ v.toInt ∧ v.toInt < 2 ^ 31) := by
  have hyv := (eval_eq_some hv hy).1
  have hyto : c.fromRep.Holds y.toInt := hchain ▸ hyv ▸ (truncateTo_spec box.toRep v).1
  have hwy := (eval_eq_some hyto hw).1
  by_cases hthis : (box.fromRep = .int64 && !fits t g r box.toRep) = true
  · rw [canonicalize, if_pos hthis]
    simp only [Bool.and_eq_true, decide_eq_true_eq] at hthis
    simp [Replacement.eval, hthis.1]
  -- a first conversion from int64 that is folded away keeps its value
  have hkeep : box.fromRep = .int64 → y = v := by
    intro hfrom
    have hfits : fits t g r box.toRep = true := by simpa [hfrom] using hthis
    rw [hyv]
    exact truncateTo_of_holds (fits_sound ρ hfits hr)
  by_cases hback : box.fromRep = c.toRep
  · rw [canonicalize, if_pos hchain, if_neg hthis, dif_pos hback]
    have hwv : w = v := by
      by_cases hto : c.toRep = .int64
      · rw [hwy, hto, ← hkeep (hback.trans hto)]
        rfl
      · rw [chain_eq_truncateTo hto hyv hwy]
        exact truncateTo_of_holds (hback ▸ hv)
    simp only [Replacement.eval, hwv, true_iff]
    intro hfrom hto
    exact absurd (hback.trans hto) hfrom
  rw [canonicalize, if_pos hchain, if_neg hthis, dif_neg hback]
  simp only [Replacement.eval, eval, truncateTo_of_holds hv]
  by_cases hto : c.toRep = .int64
  · have hfrom : box.fromRep ≠ .int64 := fun h => hback (h.trans hto.symm)
    have hmid : box.toRep ≠ .int64 := fun h => c.ne ((hchain.symm.trans h).trans hto.symm)
    have hwy : w = y := by rw [hwy, hto]; rfl
    have hvv : c.toRep.truncateTo v = v := by rw [hto]; rfl
    simp only [hvv, bne_self_eq_false, Bool.and_false, Bool.false_eq_true, if_false, Option.some.injEq, hwy]
    rw [← holds_both_iff box.ne hfrom hmid]
    constructor
    · rintro rfl _ _
      exact ⟨hv, hchain ▸ hyto⟩
    · intro h
      rw [hyv, truncateTo_of_holds (h hfrom hto).2]
  · rw [← chain_eq_truncateTo hto hyv hwy, if_neg]
    · simp [hto]
    · simp only [canDeoptimize, Bool.and_eq_true, decide_eq_true_eq, Bool.not_eq_true', bne_iff_ne, not_and, not_not]
      rintro ⟨⟨hint, htrunc⟩, -⟩
      simp only [hint, decide_true, Bool.true_and] at htrunc
      rw [second_eq ρ hyto hr' hw hint htrunc]
      by_cases hfrom : box.fromRep = .int64
      · exact (hkeep hfrom).symm
      · -- what is left is uint32 through int64
        have hmid : box.toRep = .int64 := by
          have h1 := box.ne
          have h2 := c.ne
          rw [← hchain, hint] at h2
          rw [hint] at hback
          revert h1 h2 hback hfrom
          cases box.toRep <;> cases box.fromRep <;> simp
        rw [hyv, hmid]
        rfl

theorem canonicalize_preserves_iff_wide :
    (canonicalize ⟨62, le_rfl⟩ indexGraph ⟨.uint32, .int64, false, by decide⟩ ⟨.int32, .uint32, true, by decide⟩
      none).eval ⟨62, le_rfl⟩ indexGraph none 5 (some 5) = some 5 :=
  (canonicalize_preserves_iff indexValuation ⟨.uint32, .int64, false, by decide⟩
    ⟨.int32, .uint32, true, by decide⟩ (r := none) (v := 5) (y := 5) (w := 5) rfl ⟨by decide, by decide⟩
    (by simp) (by simp) (by decide +kernel) (show eval _ _ _ none _ = _ by decide +kernel)).2
    fun _ _ => ⟨by decide, by decide⟩

/-- A negative `int32` goes through `uint32` to `int64`: the chain zero-extends, the folded converter
sign-extends. -/
theorem canonicalize_changes_value :
    let box : IntConverter := ⟨.int32, .uint32, true, by decide⟩
    let c : IntConverter := ⟨.uint32, .int64, false, by decide⟩
    ∃ y, box.eval ⟨62, le_rfl⟩ indexGraph (some (.ofConstants (-1) 0)) (-1) = some y ∧
      c.eval ⟨62, le_rfl⟩ indexGraph none y = some 0xffffffff ∧
      (canonicalize ⟨62, le_rfl⟩ indexGraph c box (some (.ofConstants (-1) 0))).eval ⟨62, le_rfl⟩ indexGraph
        (some (.ofConstants (-1) 0)) (-1) (some 0xffffffff) = some (-1) :=
  ⟨0xffffffff, by decide +kernel, by decide +kernel, by decide +kernel⟩

end
end IntConverter
end DartSdk.Ranges
