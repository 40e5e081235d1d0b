import DartSdk.Ranges.BinaryOp
import DartSdk.Ranges.BoundsCheck

namespace DartSdk.Ranges
open Option Int Range RangeBoundary WrapInt Int64
variable {t : Target} {g : SmiGraph} (ρ : Valuation t g) {r left right : Range} {leftDefn : Option Def} {x y : Int64}
  (hx : left.Contains ρ.value x.toInt) (hy : right.Contains ρ.value y.toInt)
  (hd : ∀ d, leftDefn = some d → g.isArrayLength d = true → ρ.value d = x.toInt)

section
variable (t) in
lemma clamp_int64 (c : Int64) : (constant c).clamp t .int64 = .constant c := by
  have hmin := c.minValue_le_toInt
  have hmax := c.toInt_le
  simp only [clamp]
  by_cases h1 : c ≤ minConstant t .int64
  · rw [if_pos h1]
    exact congrArg _ (toInt_inj.1 (hmin.antisymm (le_iff_toInt_le.1 h1)))
  · rw [if_neg h1]
    by_cases h2 : maxConstant t .int64 ≤ c
    · rw [if_pos h2]
      exact congrArg _ (toInt_inj.1 ((le_iff_toInt_le.1 h2).antisymm hmax))
    · rw [if_neg h2]

lemma constantMin_le (h : r.Contains ρ.value x.toInt) : (r.constantMin t g).toInt ≤ x.toInt := by
  have hs := lowerBound_sound ρ h.1
  unfold constantMin
  rcases lowerBound_cases r.min with hc | ⟨c, hc⟩ <;> rw [hc] at hs ⊢
  · exact x.minValue_le_toInt
  · rw [clamp_int64]
    exact hs

lemma le_constantMax (h : r.Contains ρ.value x.toInt) : x.toInt ≤ (r.constantMax t g).toInt := by
  have hs := upperBound_sound ρ h.2
  unfold constantMax
  rcases upperBound_cases r.max with hc | ⟨c, hc⟩ <;> rw [hc] at hs ⊢
  · exact x.toInt_le
  · rw [clamp_int64]
    exact hs

lemma make_contains {min max : RangeBoundary} (h : min.isInfinity = false → max.isInfinity = false →
    AtLeast ρ.value x.toInt min ∧ AtMost ρ.value x.toInt max) : (make min max).Contains ρ.value x.toInt := by
  unfold make
  split_ifs with hf
  · exact h hf.1 hf.2
  · exact ⟨x.minValue_le_toInt, x.toInt_le⟩

end

/-- A pair of boundaries encloses a value. -/
abbrev Within (ρ : Def → ℤ) (x : ℤ) (b : RangeBoundary × RangeBoundary) : Prop :=
  AtLeast ρ x b.1 ∧ AtMost ρ x b.2

section
variable {a b c : RangeBoundary}

lemma atLeast_iff_of_denotes {ρ : Def → ℤ} {x z : ℤ} (h : Denotes ρ z b) : AtLeast ρ x b ↔ z ≤ x := by
  cases b <;> simp only [Denotes, AtLeast] at h ⊢ <;> omega

lemma atMost_iff_of_denotes {ρ : Def → ℤ} {x z : ℤ} (h : Denotes ρ z b) : AtMost ρ x b ↔ x ≤ z := by
  cases b <;> simp only [Denotes, AtMost] at h ⊢ <;> omega

lemma addOffset_denotes {s : Def} {offset v : Int64} (h : addOffset t g s offset v = some c) :
    Denotes ρ.value (ρ.value s + offset.toInt + v.toInt) c ∧ Fits (ρ.value s + offset.toInt + v.toInt) := by
  unfold addOffset at h
  split_ifs at h with ho hv
  obtain rfl := some.inj h
  have hv : isValidOffset t (offset + v) = true := by simpa using hv
  have hd := fromDefinition_denotes ρ s hv
  have hf := fits_of_isValidOffset hv (ρ.smi s)
  rw [toInt_add_of_not_overflow (by simpa using ho), ← add_assoc] at hd hf
  exact ⟨hd, hf⟩

/-- `c` denotes what `f` makes of the values of `a` and `b`, without an overflow. -/
def Combines (ρ : Def → ℤ) (f : ℤ → ℤ → ℤ) (a b c : RangeBoundary) : Prop :=
  ∃ z w, Denotes ρ z a ∧ Denotes ρ w b ∧ Denotes ρ (f z w) c ∧ Fits (f z w)

lemma symbolicAdd_eq_some (h : symbolicAdd t g a b = some c) : Combines ρ.value (· + ·) a b c := by
  cases a <;> cases b <;> simp only [symbolicAdd, reduceCtorEq] at h
  case symbol.constant s offset v =>
    obtain ⟨hd, hf⟩ := addOffset_denotes ρ h
    exact ⟨_, _, rfl, rfl, hd, hf⟩
  case constant.symbol v s offset =>
    obtain ⟨hd, hf⟩ := addOffset_denotes ρ h
    rw [add_comm (ρ.value s + offset.toInt)] at hd hf
    exact ⟨_, _, rfl, rfl, hd, hf⟩

lemma symbolicSub_eq_some (h : symbolicSub t g a b = some c) : Combines ρ.value (· - ·) a b c := by
  cases a <;> cases b <;> simp only [symbolicSub, reduceCtorEq] at h
  case symbol.constant s offset v =>
    split_ifs at h with ho hv
    obtain rfl := some.inj h
    have hv : isValidOffset t (offset - v) = true := by simpa using hv
    have hd := fromDefinition_denotes ρ s hv
    have hf := fits_of_isValidOffset hv (ρ.smi s)
    rw [toInt_sub_of_not_overflow (by simpa using ho), ← add_sub_assoc] at hd hf
    exact ⟨_, _, rfl, rfl, hd, hf⟩

section
variable (overflow : RangeBoundary) (ho : overflow.isInfinity = true)
include overflow ho

lemma add_solid (h : (RangeBoundary.add a b overflow).isInfinity = false) :
    Combines ρ.value (· + ·) a b (RangeBoundary.add a b overflow) := by
  cases a <;> cases b <;> simp only [RangeBoundary.add, ho, reduceCtorEq] at h ⊢
  case constant.constant u v =>
    by_cases hov : willAddOverflow u v = true
    · rw [if_pos hov, ho] at h
      cases h
    · rw [if_neg hov] at h ⊢
      have hadd := toInt_add_of_not_overflow (by simpa using hov : willAddOverflow u v = false)
      exact ⟨_, _, rfl, rfl, hadd.symm, show Fits (u.toInt + v.toInt) from hadd ▸ range _⟩

lemma sub_solid (h : (RangeBoundary.sub a b overflow).isInfinity = false) :
    Combines ρ.value (· - ·) a b (RangeBoundary.sub a b overflow) := by
  cases a <;> cases b <;> simp only [RangeBoundary.sub, ho, reduceCtorEq] at h ⊢
  case constant.constant u v =>
    by_cases hov : willSubOverflow u v = true
    · rw [if_pos hov, ho] at h
      cases h
    · rw [if_neg hov] at h ⊢
      have hsub := toInt_sub_of_not_overflow (by simpa using hov : willSubOverflow u v = false)
      exact ⟨_, _, rfl, rfl, hsub.symm, show Fits (u.toInt - v.toInt) from hsub ▸ range _⟩

end

lemma leftBoundary_of {P : RangeBoundary → Prop} (h : P a) (hlength : ∀ d, leftDefn = some d →
    g.isArrayLength d = true → P (fromDefinition g d 0)) : P (leftBoundary g leftDefn a) := by
  unfold leftBoundary
  split
  · split_ifs with hl
    · exact hlength _ rfl hl
    · exact h
  · exact h

lemma contains_of_exact {min max : RangeBoundary} {z : Int64} {e v w : ℤ}
    (hz : Fits e → z.toInt = e) (hv : Fits v) (hdv : Denotes ρ.value v min) (hve : v ≤ e)
    (hw : Fits w) (hdw : Denotes ρ.value w max) (hwe : e ≤ w) :
    AtLeast ρ.value z.toInt min ∧ AtMost ρ.value z.toInt max := by
  have he : z.toInt = e := hz ⟨hv.1.trans hve, lt_of_le_of_lt hwe hw.2⟩
  rw [he]
  exact ⟨(atLeast_iff_of_denotes hdv).2 hve, (atMost_iff_of_denotes hdw).2 hwe⟩

lemma getD_denotes {a' b' solid : RangeBoundary} {symbolic : Option RangeBoundary} {f : ℤ → ℤ → ℤ}
    (hsym : ∀ c, symbolic = some c → Combines ρ.value f a b c)
    (hsolid : solid.isInfinity = false → Combines ρ.value f a' b' solid)
    (h : (symbolic.getD solid).isInfinity = false) :
    ∃ z w, (Denotes ρ.value z a ∧ Denotes ρ.value w b ∨ Denotes ρ.value z a' ∧ Denotes ρ.value w b') ∧
    Denotes ρ.value (f z w) (symbolic.getD solid) ∧ Fits (f z w) := by
  cases symbolic with
  | some c =>
    obtain ⟨z, w, hz, hw, hc, hf⟩ := hsym c rfl
    exact ⟨z, w, .inl ⟨hz, hw⟩, hc, hf⟩
  | none =>
    obtain ⟨z, w, hz, hw, hc, hf⟩ := hsolid h
    exact ⟨z, w, .inr ⟨hz, hw⟩, hc, hf⟩

section

include hx hd

lemma leftBoundary_within : Within ρ.value x.toInt
    (leftBoundary g leftDefn left.min, leftBoundary g leftDefn left.max) :=
  ⟨leftBoundary_of hx.1 fun d h hl => atLeast_of_denotes (hd d h hl ▸ fromDefinition_zero_denotes ρ d),
    leftBoundary_of hx.2 fun d h hl => atMost_of_denotes (hd d h hl ▸ fromDefinition_zero_denotes ρ d)⟩

include hy

lemma add_sound (hmin : (add t g left right leftDefn).1.isInfinity = false)
    (hmax : (add t g left right leftDefn).2.isInfinity = false) :
    Within ρ.value (x + y).toInt (add t g left right leftDefn) := by
  obtain ⟨z, w, hzw, hdv, hv⟩ := getD_denotes ρ (fun _ => symbolicAdd_eq_some ρ) (add_solid ρ _ rfl) hmin
  obtain ⟨z', w', hzw', hdw, hw⟩ := getD_denotes ρ (fun _ => symbolicAdd_eq_some ρ) (add_solid ρ _ rfl) hmax
  refine contains_of_exact ρ (fun h => toInt_add h) hv hdv ?_ hw hdw ?_
  · rcases hzw with ⟨hz, hw⟩ | ⟨hz, hw⟩
    · exact add_le_add ((atLeast_iff_of_denotes hz).1 (leftBoundary_within ρ hx hd).1)
        ((atLeast_iff_of_denotes hw).1 hy.1)
    · exact add_le_add ((atLeast_iff_of_denotes hz).1 (lowerBound_sound ρ hx.1))
        ((atLeast_iff_of_denotes hw).1 (lowerBound_sound ρ hy.1))
  · rcases hzw' with ⟨hz, hw⟩ | ⟨hz, hw⟩
    · exact add_le_add ((atMost_iff_of_denotes hz).1 (leftBoundary_within ρ hx hd).2) ((atMost_iff_of_denotes hw).1 hy.2)
    · rw [add_comm]
      exact add_le_add ((atMost_iff_of_denotes hz).1 (upperBound_sound ρ hy.2))
        ((atMost_iff_of_denotes hw).1 (upperBound_sound ρ hx.2))

lemma sub_sound (hmin : (sub t g left right leftDefn).1.isInfinity = false)
    (hmax : (sub t g left right leftDefn).2.isInfinity = false) :
    Within ρ.value (x - y).toInt (sub t g left right leftDefn) := by
  obtain ⟨z, w, hzw, hdv, hv⟩ := getD_denotes ρ (fun _ => symbolicSub_eq_some ρ) (sub_solid ρ _ rfl) hmin
  obtain ⟨z', w', hzw', hdw, hw⟩ := getD_denotes ρ (fun _ => symbolicSub_eq_some ρ) (sub_solid ρ _ rfl) hmax
  refine contains_of_exact ρ (fun h => toInt_sub h) hv hdv ?_ hw hdw ?_
  · rcases hzw with ⟨hz, hw⟩ | ⟨hz, hw⟩
    · exact sub_le_sub ((atLeast_iff_of_denotes hz).1 (leftBoundary_within ρ hx hd).1)
        ((atMost_iff_of_denotes hw).1 hy.2)
    · exact sub_le_sub ((atLeast_iff_of_denotes hz).1 (lowerBound_sound ρ hx.1))
        ((atMost_iff_of_denotes hw).1 (upperBound_sound ρ hy.2))
  · rcases hzw' with ⟨hz, hw⟩ | ⟨hz, hw⟩
    · exact sub_le_sub ((atMost_iff_of_denotes hz).1 (leftBoundary_within ρ hx hd).2)
        ((atLeast_iff_of_denotes hw).1 hy.1)
    · exact sub_le_sub ((atMost_iff_of_denotes hz).1 (upperBound_sound ρ hx.2))
        ((atLeast_iff_of_denotes hw).1 (lowerBound_sound ρ hy.1))

end
end

section

lemma toInt_maximum (a b : Int64) : (maximum a b).toInt = max a.toInt b.toInt := by
  unfold maximum
  split_ifs with h <;> rw [lt_iff_toInt_lt] at h <;> omega

lemma toInt_minimum (a b : Int64) : (minimum a b).toInt = min a.toInt b.toInt := by
  unfold minimum
  split_ifs with h <;> rw [lt_iff_toInt_lt] at h <;> omega

lemma absWithSaturation_spec (x : Int64) : (absWithSaturation x).toInt = x.toInt.natAbs ∨
    x.toInt = -2 ^ 63 ∧ (absWithSaturation x).toInt = 2 ^ 63 - 1 := by
  have h0 := toInt_zero
  have hr := range x
  unfold Fits at hr
  unfold absWithSaturation
  by_cases hx : x < 0
  · rw [if_pos hx]
    rw [lt_iff_toInt_lt] at hx
    by_cases hm : x = minValue
    · right
      rw [hm]
      exact ⟨rfl, rfl⟩
    · have hne : x.toInt ≠ -2 ^ 63 := fun h => hm (Int64.toInt_inj.1 h)
      rw [if_neg hm, WrapInt.toInt_neg (by unfold Fits; omega)]
      omega
  · rw [if_neg hx]
    rw [lt_iff_toInt_lt] at hx
    omega

lemma constantAbsMax_nonneg (r : Range) : 0 ≤ (r.constantAbsMax t g).toInt := by
  have h1 := absWithSaturation_spec (r.constantMin t g)
  rw [constantAbsMax, toInt_maximum]
  omega

lemma abs_le_constantAbsMax (h : r.Contains ρ.value x.toInt)
    (hs : (r.constantMin t g).toInt ≠ -2 ^ 63 ∨ (r.constantAbsMax t g).toInt < 2 ^ 63 - 1) :
    x.toInt.natAbs ≤ (r.constantAbsMax t g).toInt := by
  have hl := constantMin_le ρ h
  have hu := le_constantMax ρ h
  have h1 := absWithSaturation_spec (r.constantMin t g)
  have h2 := absWithSaturation_spec (r.constantMax t g)
  rw [constantAbsMax, toInt_maximum] at hs ⊢
  omega

lemma constantAbsMin_nonneg (r : Range) : 0 ≤ (r.constantAbsMin t g).toInt := by
  have h1 := absWithSaturation_spec (r.constantMin t g)
  have h2 := absWithSaturation_spec (r.constantMax t g)
  rw [constantAbsMin, toInt_minimum]
  omega

lemma constantAbsMin_le_abs (h : r.Contains ρ.value x.toInt)
    (hs : 0 ≤ (r.constantMin t g).toInt ∨ (r.constantMax t g).toInt ≤ 0) :
    (r.constantAbsMin t g).toInt ≤ x.toInt.natAbs := by
  have hl := constantMin_le ρ h
  have hu := le_constantMax ρ h
  have h1 := absWithSaturation_spec (r.constantMin t g)
  have h2 := absWithSaturation_spec (r.constantMax t g)
  rw [constantAbsMin, toInt_minimum]
  omega

lemma le_constantMin {v : Int64} (h : r.onlyGreaterThanOrEqualTo t g v = true) :
    v.toInt ≤ (r.constantMin t g).toInt := by
  unfold onlyGreaterThanOrEqualTo at h
  unfold constantMin
  rcases lowerBound_cases r.min with hc | ⟨c, hc⟩ <;> rw [hc] at h ⊢
  · simp at h
  · rw [clamp_int64]
    exact le_iff_toInt_le.1 (of_decide_eq_true h)

lemma constantMax_le {v : Int64} (h : r.onlyLessThanOrEqualTo t g v = true) : (r.constantMax t g).toInt ≤ v.toInt := by
  unfold onlyLessThanOrEqualTo at h
  unfold constantMax
  rcases upperBound_cases r.max with hc | ⟨c, hc⟩ <;> rw [hc] at h ⊢
  · simp at h
  · rw [clamp_int64]
    exact le_iff_toInt_le.1 (of_decide_eq_true h)

end

section

lemma sameSign_cases (h : (onlyPositiveOrZero t g left right || onlyNegativeOrZero t g left right) = true) :
    (0 ≤ (left.constantMin t g).toInt ∧ 0 ≤ (right.constantMin t g).toInt) ∨
    ((left.constantMax t g).toInt ≤ 0 ∧ (right.constantMax t g).toInt ≤ 0) := by
  simp only [onlyPositiveOrZero, onlyNegativeOrZero, Bool.or_eq_true, Bool.and_eq_true] at h
  rcases h with ⟨h1, h2⟩ | ⟨h1, h2⟩
  · exact .inl ⟨le_constantMin h1, le_constantMin h2⟩
  · exact .inr ⟨constantMax_le h1, constantMax_le h2⟩

lemma toInt_neg_smiMin : (-t.smiMin).toInt = 2 ^ t.smiBits := by
  have hpow := t.two_pow_le
  have hpos := t.two_pow_pos
  rw [WrapInt.toInt_neg, t.toInt_smiMin, neg_neg]
  rw [t.toInt_smiMin]
  unfold Fits
  omega

lemma absMax_lt_of_le {a : Int64} (h : a.toInt ≤ (-t.smiMin).toInt) : a.toInt < 2 ^ 63 - 1 := by
  have hpow := t.two_pow_le
  rw [toInt_neg_smiMin] at h
  omega

lemma product_le {a b : Int64} (ha : 0 ≤ a.toInt)
    (h : a = 0 ∨ b.toInt ≤ (Int64.maxValue / a).toInt) : a.toInt * b.toInt ≤ 2 ^ 63 - 1 := by
  have hM := toInt_maxValue
  rcases h with rfl | h
  · have h0 := toInt_zero
    rw [h0]
    omega
  · rw [toInt_div (by omega) ha] at h
    rcases ha.eq_or_lt with h0 | hpos
    · rw [← h0]
      omega
    · rw [mul_comm]
      exact (Int.le_ediv_iff_mul_le hpos).1 h

lemma natAbs_mul_le {x y L R : ℤ} (hx : x.natAbs ≤ L) (hy : y.natAbs ≤ R) : (x * y).natAbs ≤ L * R := by
  rw [Int.natAbs_mul]
  exact mul_le_mul hx hy (by omega) (by omega)

lemma mul_cases (hmax : (mul t g left right).2.isInfinity = false) :
    ((left.constantAbsMax t g).toInt ≤ (-t.smiMin).toInt ∧ (right.constantAbsMax t g).toInt ≤ (-t.smiMin).toInt ∧
    (left.constantAbsMax t g = 0 ∨ (right.constantAbsMax t g).toInt ≤
    (Int64.maxValue / left.constantAbsMax t g).toInt)) ∧
    (((onlyPositiveOrZero t g left right || onlyNegativeOrZero t g left right) = true ∧
    mul t g left right = (.constant (left.constantAbsMin t g * right.constantAbsMin t g),
    .constant (left.constantAbsMax t g * right.constantAbsMax t g))) ∨ mul t g left right =
    (.constant (-(left.constantAbsMax t g * right.constantAbsMax t g)),
    .constant (left.constantAbsMax t g * right.constantAbsMax t g))) := by
  unfold mul at hmax ⊢
  dsimp only at hmax ⊢
  split_ifs at hmax ⊢ with hc hsign
  · simp only [Bool.and_eq_true, decide_eq_true_eq, Bool.or_eq_true, le_iff_toInt_le] at hc
    exact ⟨⟨hc.1.1, hc.1.2, hc.2⟩, .inl ⟨hsign, rfl⟩⟩
  · simp only [Bool.and_eq_true, decide_eq_true_eq, Bool.or_eq_true, le_iff_toInt_le] at hc
    exact ⟨⟨hc.1.1, hc.1.2, hc.2⟩, .inr rfl⟩
  · simp [isInfinity] at hmax
  · simp [isInfinity] at hmax

include hx hy in
lemma constantAbsMin_mul_le (h : (onlyPositiveOrZero t g left right || onlyNegativeOrZero t g left right) = true) :
    (left.constantAbsMin t g).toInt * (right.constantAbsMin t g).toInt ≤ x.toInt * y.toInt := by
  have hxl := constantMin_le ρ hx
  have hxu := le_constantMax ρ hx
  have hyl := constantMin_le ρ hy
  have hyu := le_constantMax ρ hy
  have hsign := sameSign_cases h
  have hxm : (left.constantAbsMin t g).toInt ≤ x.toInt.natAbs :=
    constantAbsMin_le_abs ρ hx (hsign.imp And.left And.left)
  have hym : (right.constantAbsMin t g).toInt ≤ y.toInt.natAbs :=
    constantAbsMin_le_abs ρ hy (hsign.imp And.right And.right)
  have hnonneg : 0 ≤ x.toInt * y.toInt := by
    rcases hsign with ⟨h1, h2⟩ | ⟨h1, h2⟩
    · exact mul_nonneg (h1.trans hxl) (h2.trans hyl)
    · exact mul_nonneg_of_nonpos_of_nonpos (hxu.trans h1) (hyu.trans h2)
  have habs : x.toInt * y.toInt = (x.toInt.natAbs : ℤ) * y.toInt.natAbs := by
    rw [← Nat.cast_mul, ← Int.natAbs_mul, natAbs_of_nonneg hnonneg]
  rw [habs]
  exact mul_le_mul hxm hym (constantAbsMin_nonneg right) (by omega)

include hx hy in
lemma mul_sound (hmax : (mul t g left right).2.isInfinity = false) :
    Within ρ.value (x * y).toInt (mul t g left right) := by
  obtain ⟨⟨hL, hR, hprod⟩, hcase⟩ := mul_cases hmax
  have hxL := abs_le_constantAbsMax ρ hx (.inr (absMax_lt_of_le hL))
  have hyR := abs_le_constantAbsMax ρ hy (.inr (absMax_lt_of_le hR))
  have hLR := product_le (constantAbsMax_nonneg left) hprod
  have hxy := natAbs_mul_le hxL hyR
  have he : (x * y).toInt = x.toInt * y.toInt := toInt_mul (by unfold Fits; omega)
  have hmul : (left.constantAbsMax t g * right.constantAbsMax t g).toInt =
      (left.constantAbsMax t g).toInt * (right.constantAbsMax t g).toInt :=
    toInt_mul (by unfold Fits; omega)
  rcases hcase with ⟨hsign, hm⟩ | hm
  · have hmn := constantAbsMin_mul_le ρ hx hy hsign
    have hmin : (left.constantAbsMin t g * right.constantAbsMin t g).toInt =
        (left.constantAbsMin t g).toInt * (right.constantAbsMin t g).toInt := by
      have := mul_nonneg (constantAbsMin_nonneg (t := t) (g := g) left) (constantAbsMin_nonneg (t := t) (g := g) right)
      exact toInt_mul (by unfold Fits; omega)
    rw [hm]
    simp only [Within, AtLeast, AtMost, he, hmul, hmin]
    omega
  · have hneg : (-(left.constantAbsMax t g * right.constantAbsMax t g)).toInt =
        -((left.constantAbsMax t g).toInt * (right.constantAbsMax t g).toInt) := by
      rw [WrapInt.toInt_neg, hmul]
      rw [hmul]
      unfold Fits
      omega
    rw [hm]
    simp only [Within, AtLeast, AtMost, he, hmul, hneg]
    omega

lemma ediv_anti {a b c : ℤ} (ha : 0 ≤ a) (hb : 0 < b) (hbc : b ≤ c) : a / c ≤ a / b := by
  apply Int.le_ediv_of_mul_le hb
  calc a / c * b ≤ a / c * c := mul_le_mul_of_nonneg_left hbc (Int.ediv_nonneg ha (by omega))
    _ ≤ a := Int.ediv_mul_le a (by omega)

include hx hy in
lemma truncDiv_sound (hmax : (truncDiv t g left right).2.isInfinity = false) :
    Within ρ.value (x / y).toInt (truncDiv t g left right) := by
  have h1 := toInt_one
  have h0 := toInt_zero
  unfold truncDiv at hmax ⊢
  split_ifs at hmax ⊢ with hc
  · simp only [Bool.and_eq_true] at hc
    have hl := le_constantMin hc.1
    have hr := le_constantMin hc.2
    rw [h0] at hl
    rw [h1] at hr
    have hxl := constantMin_le ρ hx
    have hyl := constantMin_le ρ hy
    have hyu := le_constantMax ρ hy
    have hxL := abs_le_constantAbsMax ρ hx (.inl (by omega))
    have hyR := abs_le_constantAbsMax ρ hy (.inl (by omega))
    have hxm := constantAbsMin_le_abs ρ hx (.inl hl)
    have hym := constantAbsMin_le_abs ρ hy (.inl (by omega))
    have hm0 := constantAbsMin_nonneg (t := t) (g := g) left
    have hn1 : 1 ≤ (right.constantAbsMin t g).toInt := by
      have h₁ := absWithSaturation_spec (right.constantMin t g)
      have h2 := absWithSaturation_spec (right.constantMax t g)
      rw [constantAbsMin, toInt_minimum]
      omega
    simp only [Within, AtLeast, AtMost]
    rw [toInt_div (x := x) (by omega) (by omega), toInt_div hm0 (by omega), WrapInt.toInt_div (by omega) (by omega)]
    constructor
    · exact (ediv_anti (b := y.toInt) hm0 (by omega) (by omega)).trans (Int.ediv_le_ediv (by omega) (by omega))
    · exact (ediv_anti (by omega) (by omega) (by omega)).trans (Int.ediv_le_ediv (a := x.toInt) (by omega) (by omega))
  · simp [isInfinity] at hmax

lemma mod_sound (hy : right.Contains ρ.value y.toInt) (h : y ≠ 0) :
    Within ρ.value (Int64.ofInt (x.toInt % y.toInt)).toInt (mod t g right) := by
  have h1 := toInt_one
  have hy0 : y.toInt ≠ 0 := fun he => h (toInt_inj.1 he)
  have hyr := range y
  have hnonneg := emod_nonneg x.toInt hy0
  have hlt := emod_lt x.toInt hy0
  unfold Fits at hyr
  rw [toInt_ofInt (by unfold Fits; omega)]
  refine ⟨hnonneg, ?_⟩
  unfold mod
  split_ifs with hm
  · have hmin : (right.constantMin t g).toInt ≠ -2 ^ 63 := fun he => hm (toInt_inj.1 he)
    have hR := abs_le_constantAbsMax ρ hy (.inl hmin)
    have hRr := range (right.constantAbsMax t g)
    unfold Fits at hRr
    simp only [AtMost, toInt_maximum]
    rw [WrapInt.toInt_sub (by unfold Fits; omega)]
    omega
  · have := Int64.toInt_le (Int64.ofInt (x.toInt % y.toInt))
    rwa [toInt_ofInt (by unfold Fits; omega)] at this

end

section Shift

lemma toInt_shl_one {n : ℕ} (h : n ≤ 62) : (shl 1 n).toInt = 2 ^ n := by
  have h1 := toInt_one
  have hle : (2 : ℤ) ^ n ≤ 2 ^ 62 := pow_le_pow_right₀ (by norm_num) h
  have hpos : (0 : ℤ) < 2 ^ n := by positivity
  rw [toInt_shl, h1, Int.one_mul]
  rw [h1]
  unfold Fits
  omega

lemma isInt_spec {n : ℕ} (hn : 1 ≤ n) (hn' : n < 64) {value : Int64}
    (h : isInt n value = true) : Fits (value.toInt * 2 ^ (64 - n)) := by
  unfold isInt at h
  rw [if_neg (by omega)] at h
  have hone := toInt_shl_one (n := n - 1) (by omega)
  have hpos : (0 : ℤ) < 2 ^ (n - 1) := by positivity
  have hle : (2 : ℤ) ^ (n - 1) ≤ 2 ^ 62 := pow_le_pow_right₀ (by norm_num) (by omega)
  have hneg : (-WrapInt.shl 1 (n - 1)).toInt = -2 ^ (n - 1) := by
    rw [WrapInt.toInt_neg, hone]
    unfold Fits
    omega
  simp only [Bool.and_eq_true, decide_eq_true_eq, le_iff_toInt_le, lt_iff_toInt_lt, hone, hneg] at h
  have hpow : (2 : ℤ) ^ (n - 1) * 2 ^ (64 - n) = 2 ^ 63 := by
    rw [← pow_add]
    congr 1
    omega
  have hp : (0 : ℤ) < 2 ^ (64 - n) := by positivity
  constructor
  · calc (-2 ^ 63 : ℤ) = -2 ^ (n - 1) * 2 ^ (64 - n) := by rw [neg_mul, hpow]
      _ ≤ value.toInt * 2 ^ (64 - n) := mul_le_mul_of_nonneg_right h.1 hp.le
  · calc value.toInt * 2 ^ (64 - n) < 2 ^ (n - 1) * 2 ^ (64 - n) := mul_lt_mul_of_pos_right h.2 hp
      _ = 2 ^ 63 := hpow

lemma boundaryShl_spec {value count : Int64} {overflow : RangeBoundary}
    (hc : 0 ≤ count.toInt) (ho : overflow.isInfinity = true)
    (h : (RangeBoundary.shl value count overflow).isInfinity = false) :
    ∃ v : Int64, RangeBoundary.shl value count overflow = .constant v ∧
    v.toInt = value.toInt * 2 ^ count.toInt.toNat := by
  have h0 := toInt_zero
  have h64 : (64 : Int64).toInt = 64 := rfl
  have hcr := range count
  unfold Fits at hcr
  have hlim : (64 - count).toInt = 64 - count.toInt := by
    rw [WrapInt.toInt_sub, h64]
    unfold Fits
    omega
  unfold RangeBoundary.shl at h ⊢
  dsimp only at h ⊢
  split_ifs at h ⊢ with hv hs
  · exact ⟨0, rfl, by rw [hv, h0, MulZeroClass.zero_mul]⟩
  · refine ⟨_, rfl, toInt_shl ?_⟩
    simp only [Bool.or_eq_true, Bool.and_eq_true, decide_eq_true_eq, Int64.lt_iff_toInt_lt, hlim] at hs
    by_cases hz : count.toInt = 0
    · rw [hz]
      simpa using range value
    · rcases hs with rfl | ⟨hpos, hi⟩
      · exact absurd h0 hz
      · have := isInt_spec (by omega) (by omega) hi
        rwa [show 64 - (64 - count.toInt).toNat = count.toInt.toNat by omega] at this
  · rw [ho] at h
    cases h

lemma shl_lower {l x : ℤ} {a y b : ℕ} (hl : l ≤ x) (ha : a ≤ y) (hb : y ≤ b) :
    l * 2 ^ (if 0 < l then a else b) ≤ x * 2 ^ y := by
  have hy : (0 : ℤ) < 2 ^ y := by positivity
  split_ifs with h
  · exact mul_le_mul hl (pow_le_pow_right₀ (by norm_num) ha) (by positivity) (by omega)
  · have hpow : (2 : ℤ) ^ y ≤ 2 ^ b := pow_le_pow_right₀ (by norm_num) hb
    calc l * 2 ^ b ≤ l * 2 ^ y := mul_le_mul_of_nonpos_left hpow (by omega)
      _ ≤ x * 2 ^ y := mul_le_mul_of_nonneg_right hl hy.le

lemma shl_upper {u x : ℤ} {a y b : ℕ} (hu : x ≤ u) (ha : a ≤ y) (hb : y ≤ b) :
    x * 2 ^ y ≤ u * 2 ^ (if 0 < u then b else a) := by
  have hy : (0 : ℤ) < 2 ^ y := by positivity
  split_ifs with h
  · have hpow : (2 : ℤ) ^ y ≤ 2 ^ b := pow_le_pow_right₀ (by norm_num) hb
    calc x * 2 ^ y ≤ u * 2 ^ y := mul_le_mul_of_nonneg_right hu hy.le
      _ ≤ u * 2 ^ b := mul_le_mul_of_nonneg_left hpow (by omega)
  · have hpow : (2 : ℤ) ^ a ≤ 2 ^ y := pow_le_pow_right₀ (by norm_num) ha
    calc x * 2 ^ y ≤ u * 2 ^ y := mul_le_mul_of_nonneg_right hu hy.le
      _ ≤ u * 2 ^ a := mul_le_mul_of_nonpos_left hpow (by omega)

lemma eval_shl {x y : Int64} (h : Fits (x.toInt * 2 ^ y.toInt.toNat)) :
    (if 64 ≤ y then 0 else shl x y.toInt.toNat).toInt = x.toInt * 2 ^ y.toInt.toNat := by
  have h64 : (64 : Int64).toInt = 64 := rfl
  split_ifs with hy
  · rw [le_iff_toInt_le] at hy
    have hpow : (2 : ℤ) ^ 64 ≤ 2 ^ y.toInt.toNat := pow_le_pow_right₀ (by norm_num) (by omega)
    have hx : x.toInt = 0 := by
      unfold Fits at h
      by_contra hne
      rcases lt_or_gt_of_ne hne with hlt | hgt
      · have : x.toInt * 2 ^ y.toInt.toNat ≤ (-1) * 2 ^ y.toInt.toNat :=
          mul_le_mul_of_nonneg_right (by omega) (by positivity)
        omega
      · have : 1 * 2 ^ y.toInt.toNat ≤ x.toInt * 2 ^ y.toInt.toNat :=
          mul_le_mul_of_nonneg_right (by omega) (by positivity)
        omega
    rw [hx, Int.zero_mul]
    rfl
  · exact toInt_shl h

lemma ediv_mono_nonpos {a b c : ℤ} (ha : a ≤ 0) (hb : 0 < b) (hbc : b ≤ c) : a / b ≤ a / c := by
  have hq : a / b ≤ 0 := by simpa using Int.ediv_le_ediv hb ha
  apply Int.le_ediv_of_mul_le (by omega)
  calc a / b * c ≤ a / b * b := mul_le_mul_of_nonpos_left hbc hq
    _ ≤ a := Int.ediv_mul_le a (by omega)

lemma toInt_shr_any (v c : Int64) : (if 64 ≤ c then (if v < 0 then -1 else 0) else shr v c.toInt.toNat).toInt =
    v.toInt / 2 ^ c.toInt.toNat := by
  have h64 : (64 : Int64).toInt = 64 := rfl
  have h0 := toInt_zero
  have h1 : (-1 : Int64).toInt = -1 := rfl
  have hv := range v
  unfold Fits at hv
  by_cases hcount : 64 ≤ c
  · rw [if_pos hcount]
    rw [le_iff_toInt_le] at hcount
    have hpow : (2 : ℤ) ^ 64 ≤ 2 ^ c.toInt.toNat := pow_le_pow_right₀ (by norm_num) (by omega)
    by_cases hneg : v < 0
    · rw [if_pos hneg, h1]
      rw [lt_iff_toInt_lt] at hneg
      symm
      rw [ediv_eq_iff_of_pos (by omega)]
      omega
    · rw [if_neg hneg]
      rw [lt_iff_toInt_lt] at hneg
      exact (ediv_eq_zero_of_lt (by omega) (by omega)).symm
  · rw [if_neg hcount]
    exact toInt_shr v _

lemma boundaryShr_spec (v c : Int64) : ∃ w : Int64, shr v c = .constant w ∧ w.toInt = v.toInt / 2 ^ c.toInt.toNat := by
  refine ⟨_, rfl, ?_⟩
  rw [← toInt_shr_any v c]
  congr 1
  have h63 : (63 : Int64).toInt = 63 := rfl
  have h64 : (64 : Int64).toInt = 64 := rfl
  by_cases h : c ≤ 63
  · have h' : ¬ 64 ≤ c := by
      rw [le_iff_toInt_le] at h ⊢
      omega
    rw [if_pos h, if_neg h']
  · have h' : 64 ≤ c := by
      rw [le_iff_toInt_le] at h ⊢
      omega
    rw [if_neg h, if_pos h']
    by_cases hv : 0 ≤ v
    · rw [if_pos hv, if_neg (Int64.not_lt.2 hv)]
    · rw [if_neg hv, if_pos (Int64.not_le.1 hv)]

lemma shr_lower {l x : ℤ} {a y b : ℕ} (hl : l ≤ x) (ha : a ≤ y) (hb : y ≤ b) :
    l / 2 ^ (if 0 < l then b else a) ≤ x / 2 ^ y := by
  have hle : l / 2 ^ y ≤ x / 2 ^ y := Int.ediv_le_ediv (by positivity) hl
  split_ifs with h
  · exact (ediv_anti h.le (by positivity) (pow_le_pow_right₀ (by norm_num) hb)).trans hle
  · exact (ediv_mono_nonpos (by omega) (by positivity) (pow_le_pow_right₀ (by norm_num) ha)).trans hle

lemma shr_upper {u x : ℤ} {a y b : ℕ} (hu : x ≤ u) (ha : a ≤ y) (hb : y ≤ b) :
    x / 2 ^ y ≤ u / 2 ^ (if 0 < u then a else b) := by
  have hle : x / 2 ^ y ≤ u / 2 ^ y := Int.ediv_le_ediv (by positivity) hu
  split_ifs with h
  · exact hle.trans (ediv_anti h.le (by positivity) (pow_le_pow_right₀ (by norm_num) ha))
  · exact hle.trans (ediv_mono_nonpos (by omega) (by positivity) (pow_le_pow_right₀ (by norm_num) hb))

lemma convertRangeToUnsigned_spec {l u x : Int64} (hl : l.toInt ≤ x.toInt) (hu : x.toInt ≤ u.toInt) :
    (convertRangeToUnsigned l u).1.toNat ≤ x.toUInt64.toNat ∧
    x.toUInt64.toNat ≤ (convertRangeToUnsigned l u).2.toNat := by
  have h0 := toInt_zero
  have hx := toNat_toUInt64 x
  have hlu := toNat_toUInt64 l
  have huu := toNat_toUInt64 u
  have hlt := x.toUInt64.toNat_lt
  unfold convertRangeToUnsigned
  by_cases h : l < 0 ∧ 0 ≤ u
  · rw [if_pos h]
    have hmax : (0xffffffffffffffff : UInt64).toNat = 2 ^ 64 - 1 := rfl
    exact ⟨Nat.zero_le _, by dsimp only; omega⟩
  · rw [if_neg h]
    rw [lt_iff_toInt_lt, le_iff_toInt_le] at h
    dsimp only
    split_ifs at hx hlu huu <;> omega

lemma convertRangeToSigned_spec {a b u : UInt64} (ha : a.toNat ≤ u.toNat) (hb : u.toNat ≤ b.toNat) :
    (convertRangeToSigned a b).1.toInt ≤ u.toInt64.toInt ∧ u.toInt64.toInt ≤ (convertRangeToSigned a b).2.toInt := by
  have hmax : maxValue.toUInt64.toNat = 2 ^ 63 - 1 := rfl
  have hmin : minValue.toUInt64.toNat = 2 ^ 63 := rfl
  unfold convertRangeToSigned
  by_cases h : a ≤ maxValue.toUInt64 ∧ minValue.toUInt64 ≤ b
  · rw [if_pos h]
    exact ⟨Int64.minValue_le_toInt _, Int64.toInt_le _⟩
  · rw [if_neg h]
    rw [UInt64.le_iff_toNat_le, UInt64.le_iff_toNat_le] at h
    rw [toInt_toInt64, toInt_toInt64, toInt_toInt64]
    split_ifs <;> omega

lemma toNat_ushr_any (u : UInt64) {c : Int64} (hc : 0 ≤ c.toInt) :
    (if 64 ≤ c then 0 else u >>> c.toUInt64).toNat = u.toNat / 2 ^ c.toInt.toNat := by
  have h64 : (64 : Int64).toInt = 64 := rfl
  have hu := u.toNat_lt
  have hcn := toNat_toUInt64 c
  by_cases h : 64 ≤ c
  · rw [if_pos h]
    rw [le_iff_toInt_le] at h
    have hpow : 2 ^ 64 ≤ 2 ^ c.toInt.toNat := Nat.pow_le_pow_right (by norm_num) (by omega)
    exact (Nat.div_eq_of_lt (by omega)).symm
  · rw [if_neg h]
    rw [le_iff_toInt_le] at h
    rw [toNat_shiftRight (by omega), show c.toUInt64.toNat = c.toInt.toNat by omega]

lemma toNat_ite (l a b : Int64) :
    (if 0 < l then a else b).toInt.toNat = if 0 < l.toInt then a.toInt.toNat else b.toInt.toNat := by
  have h : 0 < l ↔ 0 < l.toInt := lt_iff_toInt_lt
  simp only [h]
  split <;> rfl

section
variable (hcount : (right.shiftCounts t g).1.toInt ≤ y.toInt ∧ y.toInt ≤ (right.shiftCounts t g).2.toInt)

lemma shiftCounts_nonneg (right : Range) :
    0 ≤ (right.shiftCounts t g).1.toInt ∧ 0 ≤ (right.shiftCounts t g).2.toInt := by
  have h0 := toInt_zero
  simp only [shiftCounts, toInt_maximum]
  omega

lemma shiftCounts_contains (hr : right.Contains ρ.value y.toInt) (h : ¬ y < 0) :
    (right.shiftCounts t g).1.toInt ≤ y.toInt ∧ y.toInt ≤ (right.shiftCounts t g).2.toInt := by
  have hl := constantMin_le ρ hr
  have hu := le_constantMax ρ hr
  rw [lt_iff_toInt_lt] at h
  simp only [shiftCounts, toInt_maximum]
  omega

include hx hcount

lemma shl_sound (hmin : (Range.shl t g left right).1.isInfinity = false)
    (hmax : (Range.shl t g left right).2.isInfinity = false) :
    Within ρ.value (if 64 ≤ y then 0 else shl x y.toInt.toNat).toInt (Range.shl t g left right) := by
  have hl := constantMin_le ρ hx
  have hu := le_constantMax ρ hx
  have hn := shiftCounts_nonneg (t := t) (g := g) right
  unfold Range.shl at hmin hmax ⊢
  dsimp only at hmin hmax ⊢
  generalize (right.shiftCounts t g).1 = a at *
  generalize (right.shiftCounts t g).2 = b at *
  have hlow := shl_lower hl (a := a.toInt.toNat) (y := y.toInt.toNat) (b := b.toInt.toNat) (by omega) (by omega)
  have hhigh := shl_upper hu (a := a.toInt.toNat) (y := y.toInt.toNat) (b := b.toInt.toNat) (by omega) (by omega)
  obtain ⟨v, hv, hve⟩ := boundaryShl_spec (by split_ifs <;> omega) (by split_ifs <;> rfl) hmin
  obtain ⟨w, hw, hwe⟩ := boundaryShl_spec (by split_ifs <;> omega) (by split_ifs <;> rfl) hmax
  rw [hv, hw]
  refine contains_of_exact ρ eval_shl (range v) rfl ?_ (range w) rfl ?_
  · rw [hve, toNat_ite]
    exact hlow
  · rw [hwe, toNat_ite]
    exact hhigh

lemma shr_sound : Within ρ.value (if 64 ≤ y then (if x < 0 then -1 else 0) else shr x y.toInt.toNat).toInt
    (Range.shr t g left right) := by
  have hl := constantMin_le ρ hx
  have hu := le_constantMax ρ hx
  unfold Range.shr
  dsimp only
  generalize left.constantMin t g = l at *
  generalize left.constantMax t g = u at *
  generalize (right.shiftCounts t g).1 = a at *
  generalize (right.shiftCounts t g).2 = b at *
  have hlow := shr_lower hl (a := a.toInt.toNat) (y := y.toInt.toNat) (b := b.toInt.toNat) (by omega) (by omega)
  have hhigh := shr_upper hu (a := a.toInt.toNat) (y := y.toInt.toNat) (b := b.toInt.toNat) (by omega) (by omega)
  obtain ⟨v, hv, hve⟩ := boundaryShr_spec l (if 0 < l then b else a)
  obtain ⟨w, hw, hwe⟩ := boundaryShr_spec u (if 0 < u then a else b)
  rw [hv, hw, toInt_shr_any x y]
  refine ⟨?_, ?_⟩
  · simp only [AtLeast, hve, toNat_ite]
    exact hlow
  · simp only [AtMost, hwe, toNat_ite]
    exact hhigh

lemma ushr_sound : Within ρ.value (if 64 ≤ y then 0 else (x.toUInt64 >>> y.toUInt64).toInt64).toInt
    (ushr t g left right) := by
  obtain ⟨hl, hu⟩ := convertRangeToUnsigned_spec (constantMin_le ρ hx) (le_constantMax ρ hx)
  have hn := shiftCounts_nonneg (t := t) (g := g) right
  have hres : (if 64 ≤ y then 0 else (x.toUInt64 >>> y.toUInt64).toInt64) =
      (if 64 ≤ y then 0 else x.toUInt64 >>> y.toUInt64).toInt64 := by
    split_ifs <;> rfl
  rw [hres]
  have hr := toNat_ushr_any x.toUInt64 (c := y) (by omega)
  unfold ushr
  refine convertRangeToSigned_spec ?_ ?_
  · rw [toNat_ushr_any _ hn.2, hr]
    exact (Nat.div_le_div_right hl).trans
      (Nat.div_le_div_left (Nat.pow_le_pow_right (by norm_num) (by omega)) (by positivity))
  · rw [toNat_ushr_any _ hn.1, hr]
    exact (Nat.div_le_div_right hu).trans
      (Nat.div_le_div_left (Nat.pow_le_pow_right (by norm_num) (by omega)) (by positivity))

end
end Shift

section

lemma halve_spec {n r k : ℕ} {x c : UInt64} (hc : c.toNat = k) (hk : k < 64)
    (hx : n / 2 ^ r = x.toNat) (hlt : x.toNat < 2 ^ (k + k)) (hne : x.toNat ≠ 0) :
    n / 2 ^ (halve c (x, r)).2 = (halve c (x, r)).1.toNat ∧
    (halve c (x, r)).1.toNat < 2 ^ k ∧ (halve c (x, r)).1.toNat ≠ 0 := by
  have hs : (x >>> c).toNat = x.toNat / 2 ^ k := by rw [toNat_shiftRight (by omega), hc]
  have h0 : (0 : UInt64).toNat = 0 := rfl
  by_cases h : x >>> c ≠ 0
  · have hne' : (x >>> c).toNat ≠ 0 := fun he => h (UInt64.toNat_inj.1 he)
    simp only [halve, if_pos h]
    refine ⟨?_, ?_, hne'⟩
    · rw [hs, ← hx, hc, Nat.div_div_eq_div_mul, ← pow_add]
    · rw [hs, Nat.div_lt_iff_lt_mul (by positivity), ← pow_add]
      exact hlt
  · simp only [halve, if_neg h]
    rw [Classical.not_not] at h
    refine ⟨hx, ?_, hne⟩
    rw [h, h0, eq_comm, Nat.div_eq_zero_iff_lt (by positivity)] at hs
    exact hs

lemma highestBit_spec {v : Int64} (h : 0 < v.toInt) : v.toInt < 2 ^ (highestBit v + 1) ∧ highestBit v ≤ 62 := by
  have h0 := toInt_zero
  have hv := range v
  unfold Fits at hv
  have hn := toNat_toUInt64 v
  generalize hN : v.toUInt64.toNat = n at hn
  have hpos : 0 < v := by rw [lt_iff_toInt_lt, h0]; exact h
  have h₁ := halve_spec (n := n) (r := 0) (k := 32) (x := v.toUInt64) (c := 32) rfl (by omega)
    (by simp [hN]) (by omega) (by omega)
  generalize he1 : halve 32 (v.toUInt64, 0) = s1 at h₁
  have h2 := halve_spec (k := 16) (c := 16) rfl (by omega) h₁.1 h₁.2.1 h₁.2.2
  generalize he2 : halve 16 (s1.1, s1.2) = s2 at h2
  have h3 := halve_spec (k := 8) (c := 8) rfl (by omega) h2.1 h2.2.1 h2.2.2
  generalize he3 : halve 8 (s2.1, s2.2) = s3 at h3
  have h4 := halve_spec (k := 4) (c := 4) rfl (by omega) h3.1 h3.2.1 h3.2.2
  generalize he4 : halve 4 (s3.1, s3.2) = s4 at h4
  have h5 := halve_spec (k := 2) (c := 2) rfl (by omega) h4.1 h4.2.1 h4.2.2
  generalize he5 : halve 2 (s4.1, s4.2) = s5 at h5
  have hbit : highestBit v = if 1 < s5.1 then s5.2 + 1 else s5.2 := by
    unfold highestBit
    rw [if_pos hpos, he1, he2, he3, he4, he5]
  have htop : n / 2 ^ highestBit v = 1 := by
    rw [hbit]
    have h1 : (1 : UInt64).toNat = 1 := rfl
    split_ifs with hone
    · rw [UInt64.lt_iff_toNat_lt] at hone
      rw [pow_succ, ← Nat.div_div_eq_div_mul]
      omega
    · rw [UInt64.lt_iff_toNat_lt] at hone
      omega
  have hmod := Nat.div_add_mod n (2 ^ highestBit v)
  rw [htop] at hmod
  have hle : 2 ^ highestBit v < 2 ^ 63 := by omega
  have hexp : highestBit v < 63 := (Nat.pow_lt_pow_iff_right (by norm_num)).1 hle
  refine ⟨?_, by omega⟩
  have hcast : ((2 ^ highestBit v : ℕ) : ℤ) = 2 ^ highestBit v := by push_cast; rfl
  omega

lemma bitLength_spec (v : Int64) : InBits (bitLength v) v ∧ bitLength v ≤ 63 := by
  have h0 := toInt_zero
  have hflip : (v ^^^ WrapInt.shr v 63).toInt = v.toInt ∧ 0 ≤ v.toInt ∨
      (v ^^^ WrapInt.shr v 63).toInt = -v.toInt - 1 ∧ v.toInt < 0 := by
    rcases lt_or_ge v.toInt 0 with hn | hn
    · rw [(neg_iff_shr v).1 hn, toInt_xor_neg_one]
      exact .inr ⟨rfl, hn⟩
    · rw [(nonneg_iff_shr v).1 hn, xor_zero]
      exact .inl ⟨rfl, hn⟩
  unfold bitLength
  dsimp only
  generalize v ^^^ WrapInt.shr v 63 = w at hflip
  split_ifs with hw
  · rw [hw] at hflip
    refine ⟨?_, by omega⟩
    unfold InBits
    omega
  · have hw0 : w.toInt ≠ 0 := fun he => hw (toInt_inj.1 he)
    obtain ⟨hlt, hle⟩ := highestBit_spec (v := w) (by omega)
    refine ⟨?_, by omega⟩
    unfold InBits
    omega

lemma maximum_nat (a b : ℕ) : maximum a b = max a b := by
  unfold maximum
  split_ifs <;> omega

lemma bitSize_le (r : Range) : r.bitSize t g ≤ 63 := by
  rw [bitSize, maximum_nat]
  exact max_le (bitLength_spec _).2 (bitLength_spec _).2

lemma inBits_bitSize {r : Range} (h : r.Contains ρ.value x.toInt) : InBits (r.bitSize t g) x := by
  have hl := constantMin_le ρ h
  have hu := le_constantMax ρ h
  have h1 := (bitLength_spec (r.constantMin t g)).1.mono (le_max_left _ (bitLength (r.constantMax t g)))
  have h2 := (bitLength_spec (r.constantMax t g)).1.mono (le_max_right (bitLength (r.constantMin t g)) _)
  rw [bitSize, maximum_nat]
  exact ⟨h1.1.trans hl, lt_of_le_of_lt hu h2.2⟩

lemma toInt_powers {b : ℕ} (h : b ≤ 63) : (-shl 1 b).toInt = -2 ^ b ∧ (shl 1 b - 1).toInt = 2 ^ b - 1 := by
  rcases Nat.lt_or_eq_of_le h with hlt | rfl
  · have hone := toInt_shl_one (n := b) (by omega)
    have h1 := toInt_one
    have hpos : (0 : ℤ) < 2 ^ b := by positivity
    have hle : (2 : ℤ) ^ b ≤ 2 ^ 62 := pow_le_pow_right₀ (by norm_num) (by omega)
    constructor
    · rw [WrapInt.toInt_neg, hone]
      unfold Fits
      omega
    · rw [WrapInt.toInt_sub, hone, h1]
      unfold Fits
      omega
  · exact ⟨rfl, rfl⟩

include hx hy in
lemma bitwiseOp_sound {z : Int64} (hbits : ∀ b, InBits b x → InBits b y → InBits b z)
    (hnonneg : 0 ≤ x.toInt → 0 ≤ y.toInt → 0 ≤ z.toInt) : Within ρ.value z.toInt (bitwiseOp t g left right) := by
  unfold bitwiseOp
  dsimp only
  rw [maximum_nat]
  have hle : max (left.bitSize t g) (right.bitSize t g) ≤ 63 := max_le (bitSize_le left) (bitSize_le right)
  have hz := hbits (max (left.bitSize t g) (right.bitSize t g))
    ((inBits_bitSize ρ hx).mono (le_max_left _ _)) ((inBits_bitSize ρ hy).mono (le_max_right _ _))
  obtain ⟨hneg, hmax⟩ := toInt_powers hle
  refine ⟨?_, ?_⟩
  · split_ifs with hs
    · rw [Bool.and_eq_true] at hs
      have hx0 := (le_constantMin hs.1).trans (constantMin_le ρ hx)
      have hy0 := (le_constantMin hs.2).trans (constantMin_le ρ hy)
      exact hnonneg hx0 hy0
    · simp only [AtLeast, hneg]
      exact hz.1
  · simp only [AtMost, hmax]
    exact le_sub_one_of_lt hz.2

include hx hy in
lemma and_sound : Within ρ.value (x &&& y).toInt (Range.and t g left right) := by
  have h0 := toInt_zero
  unfold Range.and
  split_ifs with hr hl
  · rw [le_iff_toInt_le, h0] at hr
    have h := and_nonneg (x := x) (hr.trans (constantMin_le ρ hy))
    exact ⟨h.1, h.2.trans (le_constantMax ρ hy)⟩
  · rw [le_iff_toInt_le, h0] at hl
    have h := and_nonneg (x := y) (hl.trans (constantMin_le ρ hx))
    rw [Int64.and_comm] at h
    exact ⟨h.1, h.2.trans (le_constantMax ρ hx)⟩
  · exact bitwiseOp_sound ρ hx hy (fun b => inBits_and) fun _ h => (and_nonneg h).1

end

section
variable {z : Int64}

section
variable (op : BinaryOp)
include op hx hy hd

lemma boundaries_contain (hz : op.eval x y = some z)
    (hmin : (boundaries t g op left right leftDefn).1.isInfinity = false)
    (hmax : (boundaries t g op left right leftDefn).2.isInfinity = false) :
    Within ρ.value z.toInt (boundaries t g op left right leftDefn) := by
  cases op with
  | add =>
    obtain rfl := some.inj hz
    exact add_sound ρ hx hy hd hmin hmax
  | sub =>
    obtain rfl := some.inj hz
    exact sub_sound ρ hx hy hd hmin hmax
  | mul =>
    obtain rfl := some.inj hz
    exact mul_sound ρ hx hy hmax
  | truncDiv =>
    obtain ⟨hne, ⟨⟩⟩ := ite_none_left_eq_some.1 hz
    exact truncDiv_sound ρ hx hy hmax
  | mod =>
    obtain ⟨hne, ⟨⟩⟩ := ite_none_left_eq_some.1 hz
    exact mod_sound ρ hy hne
  | shl =>
    obtain ⟨hne, ⟨⟩⟩ := ite_none_left_eq_some.1 hz
    exact shl_sound ρ hx (shiftCounts_contains ρ hy hne) hmin hmax
  | shr =>
    obtain ⟨hne, ⟨⟩⟩ := ite_none_left_eq_some.1 hz
    exact shr_sound ρ hx (shiftCounts_contains ρ hy hne)
  | ushr =>
    obtain ⟨hne, ⟨⟩⟩ := ite_none_left_eq_some.1 hz
    exact ushr_sound ρ hx (shiftCounts_contains ρ hy hne)
  | bitAnd =>
    obtain rfl := some.inj hz
    exact and_sound ρ hx hy
  | bitOr =>
    obtain rfl := some.inj hz
    exact bitwiseOp_sound ρ hx hy (fun _ => inBits_or) or_nonneg
  | bitXor =>
    obtain rfl := some.inj hz
    exact bitwiseOp_sound ρ hx hy (fun _ => inBits_xor) xor_nonneg
  | other => simp [BinaryOp.eval] at hz

lemma boundaries_inhabited (hmin : (boundaries t g op left right leftDefn).1.isInfinity = false)
    (hmax : (boundaries t g op left right leftDefn).2.isInfinity = false) :
    ∃ z : Int64, Within ρ.value z.toInt (boundaries t g op left right leftDefn) := by
  have hcounts : (right.shiftCounts t g).1.toInt ≤ (right.shiftCounts t g).1.toInt ∧
      (right.shiftCounts t g).1.toInt ≤ (right.shiftCounts t g).2.toInt := by
    have h := (constantMin_le ρ hy).trans (le_constantMax ρ hy)
    simp only [shiftCounts, toInt_maximum]
    exact ⟨le_rfl, max_le_max_right _ h⟩
  cases op with
  | truncDiv => exact ⟨_, truncDiv_sound ρ hx hy hmax⟩
  | mod =>
    refine ⟨0, le_rfl, ?_⟩
    simp only [boundaries, mod]
    split_ifs
    · simp only [AtMost, toInt_maximum]
      exact le_max_right _ _
    · exact Int64.toInt_le 0
  | shl => exact ⟨_, shl_sound ρ hx hcounts hmin hmax⟩
  | shr => exact ⟨_, shr_sound ρ hx hcounts⟩
  | ushr => exact ⟨_, ushr_sound ρ hx hcounts⟩
  | other => simp [boundaries, isInfinity] at hmin
  | _ => exact ⟨_, boundaries_contain ρ hx hy hd _ rfl hmin hmax⟩

end

lemma make_ordered {min max : RangeBoundary} {a b : Int64} (h : min.isInfinity = false → max.isInfinity = false →
    ∃ z : Int64, AtLeast ρ.value z.toInt min ∧ AtMost ρ.value z.toInt max)
    (ha : (make min max).min = .constant a) (hb : (make min max).max = .constant b) : a ≤ b := by
  unfold make at ha hb
  split_ifs at ha hb with hf
  · obtain ⟨z, hmin, hmax⟩ := h hf.1 hf.2
    subst ha hb
    exact le_iff_toInt_le.2 (hmin.trans hmax)
  · obtain rfl := constant.inj ha
    obtain rfl := constant.inj hb
    decide

def Range.ofConstants (l u : Int64) : Range := ⟨.constant l, .constant u, rfl, rfl⟩

lemma ofConstants_contains {l u : Int64} (hl : l ≤ x) (hu : x ≤ u) : (ofConstants l u).Contains ρ.value x.toInt :=
  ⟨Int64.le_iff_toInt_le.1 hl, Int64.le_iff_toInt_le.1 hu⟩

lemma exists_left {l u : Int64} (hlu : l ≤ u) (hd : ∀ d, leftDefn = some d → g.isArrayLength d = true →
    l.toInt ≤ ρ.value d ∧ ρ.value d ≤ u.toInt) : ∃ x : Int64, l ≤ x ∧ x ≤ u ∧
    ∀ d, leftDefn = some d → g.isArrayLength d = true → ρ.value d = x.toInt := by
  by_cases h : ∃ d, leftDefn = some d ∧ g.isArrayLength d = true
  · obtain ⟨d, rfl, hl⟩ := h
    obtain ⟨h1, h2⟩ := hd d rfl hl
    have hv : (ofInt (ρ.value d)).toInt = ρ.value d := toInt_ofInt ⟨(range l).1.trans h1, lt_of_le_of_lt h2 (range u).2⟩
    refine ⟨ofInt (ρ.value d), ?_, ?_, ?_⟩
    · rwa [le_iff_toInt_le, hv]
    · rwa [le_iff_toInt_le, hv]
    · intro d' hd' _
      rw [← some.inj hd', hv]
  · exact ⟨l, Int64.le_refl l, hlu, fun d hd' hl => absurd ⟨d, hd', hl⟩ h⟩

theorem binaryOp_sound (op : BinaryOp) {l₁ u₁ l₂ u₂ : Int64} (h₁ : l₁ ≤ u₁) (h₂ : l₂ ≤ u₂) (leftDefn : Option Def)
    (hd : ∀ d, leftDefn = some d → g.isArrayLength d = true → l₁.toInt ≤ ρ.value d ∧ ρ.value d ≤ u₁.toInt) :
    (∀ x y z : Int64, l₁ ≤ x → x ≤ u₁ → l₂ ≤ y → y ≤ u₂ →
      (∀ d, leftDefn = some d → g.isArrayLength d = true → ρ.value d = x.toInt) → op.eval x y = some z →
      (binaryOp t g op (.ofConstants l₁ u₁) (.ofConstants l₂ u₂) leftDefn).Contains ρ.value z.toInt) ∧
    ∀ a b : Int64, (binaryOp t g op (.ofConstants l₁ u₁) (.ofConstants l₂ u₂) leftDefn).min = .constant a →
      (binaryOp t g op (.ofConstants l₁ u₁) (.ofConstants l₂ u₂) leftDefn).max = .constant b → a ≤ b := by
  refine ⟨?_, ?_⟩
  · intro x y z hlx hxu hly hyu hx hz
    exact make_contains ρ (boundaries_contain ρ (ofConstants_contains ρ hlx hxu)
      (ofConstants_contains ρ hly hyu) hx op hz)
  · intro a b ha hb
    obtain ⟨x, hlx, hxu, hx⟩ := exists_left ρ h₁ hd
    exact make_ordered ρ (boundaries_inhabited ρ (ofConstants_contains ρ hlx hxu)
      (ofConstants_contains ρ (Int64.le_refl l₂) h₂) hx op) ha hb

theorem binaryOp_sound_shift : ((binaryOp ⟨62, le_rfl⟩ indexGraph .shr (.ofConstants (-8) 5) (.ofConstants 1 70)
    none).Contains indexValuation.value (-1)) ∧ (-4 : Int64) ≤ 2 := by
  have h := binaryOp_sound indexValuation .shr (show (-8 : Int64) ≤ 5 by decide)
    (show (1 : Int64) ≤ 70 by decide) none (by simp)
  exact ⟨h.1 (-8) 64 (-1) (by decide) (by decide) (by decide) (by decide) (by simp) (by decide),
    h.2 (-4) 2 (by decide +kernel) (by decide +kernel)⟩

end
end DartSdk.Ranges
