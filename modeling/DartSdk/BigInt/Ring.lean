import DartSdk.BigInt.Canonical

namespace DartSdk.BigInt
open Int Limbs

namespace BigIntImpl
variable {x y : BigIntImpl}

section
variable (isNegative : Bool)

lemma make_one {d : ℕ} (hd : d < digitBase) : (make isNegative 1 [d, 0]).Represents (signed isNegative d) := by
  have h := make_filled isNegative (bounded_cons.2 ⟨hd, bounded_nil⟩)
  exact h

lemma make_two {d e : ℕ} (hd : d < digitBase) (he : e < digitBase) :
    (make isNegative 2 [d, e]).Represents (signed isNegative (d + digitBase * e)) := by
  have h := make_filled isNegative (bounded_cons.2 ⟨hd, bounded_cons.2 ⟨he, bounded_nil⟩⟩)
  have hfil : filled 2 [d, e] = [d, e] := List.append_nil _
  rw [← hfil]
  exact h

lemma fromInt_nonneg {n : ℤ} (hlo : 0 ≤ n) (hhi : n < 2 ^ 63) : (if n < digitBase then make isNegative 1 [low n, 0]
    else make isNegative 2 [low n, low (high n)]).Represents (signed isNegative n.toNat) := by
  split_ifs with hsma
  · have hlow : low n = n.toNat := by rw [low, emod_eq_of_lt hlo hsma]
    rw [← hlow]
    exact make_one isNegative (low_lt n)
  · have hspl : low n + digitBase * low (high n) = n.toNat := by
      rw [low, low, high, digitBase]
      omega
    rw [← hspl]
    exact make_two isNegative (low_lt n) (low_lt _)

lemma fromInt_represents {n : ℤ} (hlo : -2 ^ 63 ≤ n) (hhi : n < 2 ^ 63) : (fromInt n).Represents n := by
  rw [fromInt]
  by_cases hmin : n = -2 ^ 63
  · rw [hmin]
    exact make_two true (by decide) (by decide)
  by_cases hneg : n < 0
  · have h := fromInt_nonneg (n := -n) true (by omega) (by omega)
    rw [if_neg hmin, decide_eq_true hneg]
    rwa [signed_true, toNat_of_nonneg (by omega), neg_neg] at h
  · have h := fromInt_nonneg false (by omega) hhi
    rw [if_neg hmin, decide_eq_false hneg]
    rwa [signed_false, toNat_of_nonneg (by omega)] at h

lemma zero_represents : zero.Represents 0 := fromInt_represents (by decide) (by decide)

lemma one_represents : one.Represents 1 := fromInt_represents (by decide) (by decide)

end

section

section
variable (hx : x.Canonical) (hy : y.Canonical)
include hx hy

lemma absCompare_sign : (x.absCompare y).sign = ((x.magnitude : ℤ) - y.magnitude).sign := by
  rw [absCompare, compareDigits, hx.usedDigits_length, hy.usedDigits_length]
  split_ifs with heq
  · exact sign_difference (by rw [hx.usedDigits_length, hy.usedDigits_length, heq])
      hx.usedDigits_bounded hy.usedDigits_bounded
  · rcases Nat.lt_or_gt_of_ne heq with hlt | hlt
    · have := magnitude_lt_of_used_lt hx hy hlt
      rw [sign_eq_neg_one_of_neg (by omega), sign_eq_neg_one_of_neg (by omega)]
    · have := magnitude_lt_of_used_lt hy hx hlt
      rw [sign_eq_one_of_pos (by omega), sign_eq_one_of_pos (by omega)]

lemma absCompare_nonneg : 0 ≤ x.absCompare y ↔ y.magnitude ≤ x.magnitude := by
  rw [← sign_nonneg_iff, absCompare_sign hx hy, sign_nonneg_iff]
  omega

lemma compareTo_sign : (x.compareTo y).sign = (x.val - y.val).sign := by
  have habs := absCompare_sign hx hy
  have hxneg := hx.val_neg_iff
  have hyneg := hy.val_neg_iff
  rw [compareTo]
  split_ifs with hsame hneg hneg
  · rw [val, val, ← hsame, hneg, zero_sub, sign_neg, habs, ← sign_neg, signed_true, signed_true]
    congr 1
    ring
  · rw [val, val, ← hsame, Bool.eq_false_of_not_eq_true hneg, habs, signed_false, signed_false]
  · have hy' : ¬ y.val < 0 := fun h => hsame (hneg.trans (hyneg.1 h).symm)
    have hx' := hxneg.2 hneg
    rw [sign_eq_neg_one_of_neg (by omega : x.val - y.val < 0)]
    rfl
  · have hy' : y.val < 0 := by
      apply hyneg.2
      cases hb : y.isNegative with
      | true => rfl
      | false => exact absurd ((Bool.eq_false_of_not_eq_true hneg).trans hb.symm) hsame
    have hx' : ¬ x.val < 0 := fun h => hneg (hxneg.1 h)
    rw [sign_eq_one_of_pos (by omega : 0 < x.val - y.val)]
    rfl

lemma equals_iff : x.equals y = true ↔ x.val = y.val := by
  rw [equals, decide_eq_true_iff, ← sign_eq_zero_iff_zero, compareTo_sign hx hy, sign_eq_zero_iff_zero, sub_eq_zero]

end
end

section

section
variable (hx : x.Canonical)
include hx

lemma neg_represents : x.neg.Represents (-x.val) := by
  rw [neg]
  split_ifs with hzero
  · exact ⟨hx, by rw [hx.val_eq_zero.2 hzero, neg_zero]⟩
  · have h := make_represents (!x.isNegative) hx.even hx.le hx.bounded hx.pad
    rwa [signed_not] at h

lemma setSign_represents (isNegative : Bool) :
    (if x.isNegative = isNegative then x else x.neg).Represents (signed isNegative x.magnitude) := by
  split_ifs with hsame
  · exact ⟨hx, by rw [val, hsame]⟩
  · have h := neg_represents hx
    rwa [val, ← signed_not, show (!x.isNegative) = isNegative by
      cases hb : x.isNegative <;> cases isNegative <;> simp_all] at h

lemma absAddOrdered_represents (hy : y.Canonical) (hle : y.used ≤ x.used) (isNegative : Bool) :
    (absAddOrdered x y isNegative).Represents (signed isNegative (x.magnitude + y.magnitude)) := by
  rw [absAddOrdered]
  by_cases hxze : x.used = 0
  · rw [if_pos hxze, hx.magnitude_eq_zero.2 hxze, hy.magnitude_eq_zero.2 (by omega), signed_zero]
    exact zero_represents
  by_cases hyze : y.used = 0
  · rw [if_neg hxze, if_pos hyze, hy.magnitude_eq_zero.2 hyze]
    exact setSign_represents hx isNegative
  rw [if_neg hxze, if_neg hyze]
  obtain ⟨hleng, hbou, hval⟩ := absAdd_spec hx.usedDigits_bounded hy.usedDigits_bounded
    (by rw [hx.usedDigits_length, hy.usedDigits_length]; exact hle)
  have h := make_filled isNegative hbou
  rwa [hleng, hval, hx.usedDigits_length] at h

lemma absAddSetSign_represents (hy : y.Canonical) (isNegative : Bool) :
    (x.absAddSetSign y isNegative).Represents (signed isNegative (x.magnitude + y.magnitude)) := by
  rw [absAddSetSign]
  split_ifs with hlt
  · rw [Nat.add_comm]
    exact absAddOrdered_represents hy hx hlt.le isNegative
  · exact absAddOrdered_represents hx hy (by omega) isNegative

lemma absSubSetSign_represents (hy : y.Canonical) (hle : y.magnitude ≤ x.magnitude) (isNegative : Bool) :
    (x.absSubSetSign y isNegative).Represents (signed isNegative (x.magnitude - y.magnitude)) := by
  have hused := used_le_of_magnitude_le hx hy hle
  rw [absSubSetSign]
  by_cases hxze : x.used = 0
  · rw [if_pos hxze, hx.magnitude_eq_zero.2 hxze, Nat.zero_sub, signed_zero]
    exact zero_represents
  by_cases hyze : y.used = 0
  · rw [if_neg hxze, if_pos hyze, hy.magnitude_eq_zero.2 hyze]
    exact setSign_represents hx isNegative
  rw [if_neg hxze, if_neg hyze]
  obtain ⟨hleng, hbou, hval⟩ := absSub_spec hx.usedDigits_bounded hy.usedDigits_bounded
    (by rw [hx.usedDigits_length, hy.usedDigits_length]; exact hused) hle
  have h := make_filled isNegative hbou
  rwa [hleng, hval, hx.usedDigits_length] at h

end

lemma signed_add (isNegative : Bool) (m n : ℕ) :
    signed isNegative (m + n) = signed isNegative m + signed isNegative n := by
  cases isNegative
  · exact Nat.cast_add m n
  · rw [signed_true, signed_true, signed_true]
    push_cast
    ring

lemma signed_sub (isNegative : Bool) {m n : ℕ} (h : n ≤ m) :
    signed isNegative (m - n) = signed isNegative m - signed isNegative n := by
  cases isNegative
  · exact Nat.cast_sub h
  · rw [signed_true, signed_true, signed_true]
    omega

section
variable (hx : x.Canonical) (hy : y.Canonical)
include hx hy

lemma absDifference_represents : (if 0 ≤ x.absCompare y then x.absSubSetSign y x.isNegative
    else y.absSubSetSign x (!x.isNegative)).Represents (x.val - signed x.isNegative y.magnitude) := by
  have hcom := absCompare_nonneg hx hy
  split_ifs with hle
  · rw [val, ← signed_sub x.isNegative (hcom.1 hle)]
    exact absSubSetSign_represents hx hy (hcom.1 hle) x.isNegative
  · have hlt : x.magnitude ≤ y.magnitude := by omega
    have h := absSubSetSign_represents hy hx hlt (!x.isNegative)
    rwa [signed_not, signed_sub x.isNegative hlt, neg_sub] at h

lemma add_represents : (x.add y).Represents (x.val + y.val) := by
  rw [add, isZero, isZero]
  by_cases hxze : x.used = 0
  · rw [if_pos (decide_eq_true hxze), hx.val_eq_zero.2 hxze, zero_add]
    exact ⟨hy, rfl⟩
  by_cases hyze : y.used = 0
  · rw [if_neg (by simpa using hxze), if_pos (decide_eq_true hyze), hy.val_eq_zero.2 hyze, add_zero]
    exact ⟨hx, rfl⟩
  rw [if_neg (by simpa using hxze), if_neg (by simpa using hyze)]
  by_cases hsame : x.isNegative = y.isNegative
  · have h := absAddSetSign_represents hx hy x.isNegative
    rw [if_pos hsame, val, val, ← hsame]
    rwa [signed_add] at h
  · have h := absDifference_represents hx hy
    have hnot : y.isNegative = !x.isNegative := Bool.eq_not.2 (Ne.symm hsame)
    rw [if_neg hsame, show y.val = -signed x.isNegative y.magnitude by rw [val, hnot, signed_not]]
    exact h

lemma sub_represents : (x.sub y).Represents (x.val - y.val) := by
  rw [sub, isZero, isZero]
  by_cases hxze : x.used = 0
  · rw [if_pos (decide_eq_true hxze), hx.val_eq_zero.2 hxze, zero_sub]
    exact neg_represents hy
  by_cases hyze : y.used = 0
  · rw [if_neg (by simpa using hxze), if_pos (decide_eq_true hyze), hy.val_eq_zero.2 hyze, sub_zero]
    exact ⟨hx, rfl⟩
  rw [if_neg (by simpa using hxze), if_neg (by simpa using hyze)]
  by_cases hsame : x.isNegative = y.isNegative
  · have h := absDifference_represents hx hy
    rw [if_neg (not_not_intro hsame), show y.val = signed x.isNegative y.magnitude by rw [val, hsame]]
    exact h
  · have h := absAddSetSign_represents hx hy x.isNegative
    have hnot : y.isNegative = !x.isNegative := Bool.eq_not.2 (Ne.symm hsame)
    rw [if_pos hsame, show y.val = -signed x.isNegative y.magnitude by rw [val, hnot, signed_not], sub_neg_eq_add]
    rwa [signed_add] at h

end
end

section

lemma signed_mul (a b : Bool) (m n : ℕ) : signed (a != b) (m * n) = signed a m * signed b n := by
  cases a <;> cases b <;> simp

lemma newDigits_length (n : ℕ) : (newDigits n).length = n + n % 2 := List.length_replicate

lemma newDigits_bounded (n : ℕ) : Bounded (newDigits n) := bounded_replicate_zero digitBase_pos _

lemma value_newDigits (n : ℕ) : value (newDigits n) = 0 := value_replicate_zero _

lemma mul_represents (hx : x.Canonical) (hy : y.Canonical) : ∃ z, x.mul y = .ok z ∧ z.Represents (x.val * y.val) := by
  rw [mul]
  by_cases hzero : x.used = 0 ∨ y.used = 0
  · refine ⟨zero, if_pos hzero, ?_⟩
    have hprod : x.val * y.val = 0 := by
      rcases hzero with hxze | hyze
      · rw [hx.val_eq_zero.2 hxze, zero_mul]
      · rw [hy.val_eq_zero.2 hyze, mul_zero]
    rw [hprod]
    exact zero_represents
  have hlen := newDigits_length (x.used + y.used)
  obtain ⟨rs, hrs, hleng, hbou, hval⟩ := mulLoop_eq (i := 0) hx.usedDigits_bounded
    hy.usedDigits_bounded (newDigits_bounded (x.used + y.used))
    (by rw [hlen, hx.usedDigits_length, hy.usedDigits_length]; omega)
    (by rw [value_newDigits]; exact Nat.pow_pos digitBase_pos)
  rw [value_newDigits, pow_zero, one_mul, zero_add] at hval
  have hlt : value rs < digitBase ^ (x.used + y.used) := by
    rw [hval, pow_add]
    exact Nat.mul_lt_mul'' hx.magnitude_lt hy.magnitude_lt
  refine ⟨make (x.isNegative != y.isNegative) (x.used + y.used) rs, ?_, ?_⟩
  · rw [if_neg hzero]
    dsimp only
    rw [hrs]
    rfl
  · have h := make_of_lt (x.isNegative != y.isNegative) (by rw [hleng, hlen]; omega)
      (by rw [hleng, hlen]; omega) hbou hlt
    rw [hval, signed_mul] at h
    exact h

lemma powLoop_represents {result base : BigIntImpl} {r b : ℤ} (hres : result.Represents r)
    (hbase : base.Represents b) (exponent : ℕ) :
    ∃ z, powLoop result base exponent = .ok z ∧ z.Represents (r * b ^ exponent) := by
  induction exponent using Nat.strong_induction_on generalizing result base r b with
  | _ exponent ih =>
    rw [powLoop]
    by_cases hzero : exponent = 0
    · refine ⟨result, dif_pos hzero, ?_⟩
      rwa [hzero, pow_zero, mul_one]
    rw [dif_neg hzero]
    obtain ⟨result', hres', hrep'⟩ : ∃ z, (if exponent % 2 = 1 then result.mul base else .ok result) =
        .ok z ∧ z.Represents (r * b ^ (exponent % 2)) := by
      split_ifs with hodd
      · rw [hodd, pow_one, ← hres.2, ← hbase.2]
        exact mul_represents hres.1 hbase.1
      · exact ⟨result, rfl, by rwa [show exponent % 2 = 0 by omega, pow_zero, mul_one]⟩
    rw [hres']
    by_cases hlast : exponent / 2 = 0
    -- The square of the base is left out on the last round.
    · obtain ⟨z, hz, hrep⟩ := ih (exponent / 2) (by omega) hrep' hbase
      refine ⟨z, ?_, ?_⟩
      · rw [if_neg (not_not_intro hlast)]
        exact hz
      · rwa [hlast, pow_zero, mul_one, show exponent % 2 = exponent by omega] at hrep
    · obtain ⟨square, hsqu, hrepSquare⟩ := mul_represents hbase.1 hbase.1
      rw [hbase.2] at hrepSquare
      obtain ⟨z, hz, hrep⟩ := ih (exponent / 2) (by omega) hrep' hrepSquare
      refine ⟨z, ?_, ?_⟩
      · rw [if_pos hlast, hsqu]
        exact hz
      · have hpow : r * b ^ (exponent % 2) * (b * b) ^ (exponent / 2) = r * b ^ exponent := by
          rw [← pow_two, ← pow_mul, mul_assoc, ← pow_add, Nat.mod_add_div]
        rwa [hpow] at hrep

lemma pow_represents (hx : x.Canonical) (n : ℕ) : ∃ z, x.pow n = .ok z ∧ z.Represents (x.val ^ n) := by
  rw [pow, if_neg (by omega)]
  split_ifs with hzero
  · refine ⟨one, rfl, ?_⟩
    rw [natCast_eq_zero.1 hzero, pow_zero]
    exact one_represents
  · have h := powLoop_represents one_represents ⟨hx, rfl⟩ n
    rwa [one_mul] at h

end

theorem bigInt_ringOrder {x y : BigIntImpl} (hx : x.Canonical) (hy : y.Canonical) (n : ℕ) :
    ((x.add y).Canonical ∧ (x.add y).val = x.val + y.val) ∧ ((x.sub y).Canonical ∧ (x.sub y).val = x.val - y.val) ∧
      (∃ z, x.mul y = .ok z ∧ z.Canonical ∧ z.val = x.val * y.val) ∧
      (∃ z, x.pow n = .ok z ∧ z.Canonical ∧ z.val = x.val ^ n) ∧
      (x.compareTo y).sign = (x.val - y.val).sign ∧ (x.equals y = true ↔ x.val = y.val) :=
  ⟨add_represents hx hy, sub_represents hx hy, mul_represents hx hy, pow_represents hx n,
    compareTo_sign hx hy, equals_iff hx hy⟩

/-- Two operands of two digits, with a product of three. -/
theorem bigInt_ringOrder_wide : ((fromInt (2 ^ 62 + 1)).add (fromInt (-2 ^ 40))).val = 2 ^ 62 + 1 - 2 ^ 40 ∧
    (∃ z, (fromInt (2 ^ 62 + 1)).mul (fromInt (-2 ^ 40)) = .ok z ∧ z.val = -((2 ^ 62 + 1) * 2 ^ 40)) ∧
    (∃ z, (fromInt (2 ^ 62 + 1)).pow 3 = .ok z ∧ z.val = (2 ^ 62 + 1) ^ 3) ∧
    ((fromInt (2 ^ 62 + 1)).compareTo (fromInt (-2 ^ 40))).sign = 1 := by
  have hx := fromInt_represents (n := 2 ^ 62 + 1) (by decide) (by decide)
  have hy := fromInt_represents (n := -2 ^ 40) (by decide) (by decide)
  obtain ⟨hadd, -, ⟨z, hz, -, hmul⟩, ⟨w, hw, -, hpow⟩, hcompare, -⟩ := bigInt_ringOrder hx.1 hy.1 3
  rw [hx.2, hy.2] at hadd hmul hcompare
  rw [hx.2] at hpow
  exact ⟨hadd.2, ⟨z, hz, hmul⟩, ⟨w, hw, hpow⟩, hcompare⟩

end BigIntImpl
end DartSdk.BigInt
