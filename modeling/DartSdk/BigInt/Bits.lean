import DartSdk.BigInt.Ring
import Mathlib.Data.Int.Bitwise

namespace DartSdk.BigInt
open Nat Limbs Bool List

section

def andNotDigits : List ℕ → List ℕ → List ℕ
  | [], _ => []
  | d :: ds, [] => d :: ds
  | d :: ds, o :: os => Nat.ldiff d o :: andNotDigits ds os

def overlay (op : ℕ → ℕ → ℕ) : List ℕ → List ℕ → List ℕ
  | [], os => os
  | d :: ds, [] => d :: ds
  | d :: ds, o :: os => op d o :: overlay op ds os

end

namespace BigIntImpl

def minusOne : BigIntImpl := one.neg

def absAndSetSign (x other : BigIntImpl) (isNegative : Bool) : BigIntImpl :=
  let resultUsed := min x.used other.used
  make isNegative resultUsed (filled resultUsed (zipWith (· &&& ·) x.usedDigits other.usedDigits))

def absAndNotSetSign (x other : BigIntImpl) (isNegative : Bool) : BigIntImpl :=
  make isNegative x.used (filled x.used (andNotDigits x.usedDigits other.usedDigits))

def absOverlaySetSign (op : ℕ → ℕ → ℕ) (x other : BigIntImpl) (isNegative : Bool) : BigIntImpl :=
  let resultUsed := max x.used other.used
  make isNegative resultUsed (filled resultUsed (overlay op x.usedDigits other.usedDigits))

def absOrSetSign : BigIntImpl → BigIntImpl → Bool → BigIntImpl := absOverlaySetSign (· ||| ·)

def absXorSetSign : BigIntImpl → BigIntImpl → Bool → BigIntImpl := absOverlaySetSign (· ^^^ ·)

def and (x other : BigIntImpl) : BigIntImpl :=
  if x.isZero || other.isZero then zero
  else if x.isNegative = other.isNegative then
    if x.isNegative then
      let this1 := x.absSubSetSign one true
      let other1 := other.absSubSetSign one true
      (this1.absOrSetSign other1 true).absAddSetSign one true
    else x.absAndSetSign other false
  else
    let p := if x.isNegative then other else x
    let n := if x.isNegative then x else other
    p.absAndNotSetSign (n.absSubSetSign one false) false

def or (x other : BigIntImpl) : BigIntImpl :=
  if x.isZero then other
  else if other.isZero then x
  else if x.isNegative = other.isNegative then
    if x.isNegative then
      let this1 := x.absSubSetSign one true
      let other1 := other.absSubSetSign one true
      (this1.absAndSetSign other1 true).absAddSetSign one true
    else x.absOrSetSign other false
  else
    let p := if x.isNegative then other else x
    let n := if x.isNegative then x else other
    ((n.absSubSetSign one true).absAndNotSetSign p true).absAddSetSign one true

def xor (x other : BigIntImpl) : BigIntImpl :=
  if x.isZero then other
  else if other.isZero then x
  else if x.isNegative = other.isNegative then
    if x.isNegative then
      let this1 := x.absSubSetSign one true
      let other1 := other.absSubSetSign one true
      this1.absXorSetSign other1 false
    else x.absXorSetSign other false
  else
    let p := if x.isNegative then other else x
    let n := if x.isNegative then x else other
    (p.absXorSetSign (n.absSubSetSign one true) true).absAddSetSign one true

def not (x : BigIntImpl) : BigIntImpl :=
  if x.isZero then minusOne
  else if x.isNegative then x.absSubSetSign one false
  else x.absAddSetSign one true

end BigIntImpl

variable {f : Bool → Bool → Bool}

section

lemma digitBase_eq : digitBase = 2 ^ 32 := by decide

lemma bitwise_value_cons (hf : f false false = false) {d o : ℕ}
    (hd : d < digitBase) (ho : o < digitBase) (ds os : List ℕ) : Nat.bitwise f (value (d :: ds)) (value (o :: os)) =
    Nat.bitwise f d o + digitBase * Nat.bitwise f (value ds) (value os) := by
  rw [digitBase_eq] at hd ho ⊢
  exact bitwise_cons hf hd ho

lemma bitwise_lt {d o : ℕ} (hd : d < digitBase) (ho : o < digitBase) : Nat.bitwise f d o < digitBase := by
  rw [digitBase_eq] at *
  exact bitwise_lt_two_pow hd ho

variable {ds os : List ℕ}

lemma value_zipWith_and (hds : Bounded ds) (hos : Bounded os) : Bounded (zipWith (· &&& ·) ds os) ∧
    value (zipWith (· &&& ·) ds os) = value ds &&& value os := by
  induction ds generalizing os with
  | nil => exact ⟨bounded_nil, (zero_and _).symm⟩
  | cons d ds ih =>
    cases os with
    | nil => exact ⟨bounded_nil, (and_zero _).symm⟩
    | cons o os =>
      obtain ⟨hd, hds⟩ := bounded_cons.1 hds
      obtain ⟨ho, hos⟩ := bounded_cons.1 hos
      obtain ⟨hbou, hval⟩ := ih hds hos
      refine ⟨bounded_cons.2 ⟨bitwise_lt hd ho, hbou⟩, ?_⟩
      rw [zipWith_cons_cons, value_cons, hval]
      exact (bitwise_value_cons rfl hd ho ds os).symm

lemma andNotDigits_spec (hds : Bounded ds) (hos : Bounded os) :
    (andNotDigits ds os).length = ds.length ∧ Bounded (andNotDigits ds os) ∧
    value (andNotDigits ds os) = Nat.ldiff (value ds) (value os) := by
  induction ds generalizing os with
  | nil =>
    refine ⟨rfl, bounded_nil, ?_⟩
    apply eq_of_testBit_eq
    intro i
    rw [testBit_ldiff, andNotDigits, value_nil, zero_testBit, Bool.false_and]
  | cons d ds ih =>
    cases os with
    | nil => exact ⟨rfl, hds, (bitwise_zero_right (fun a => Bool.and_true a) _).symm⟩
    | cons o os =>
      obtain ⟨hd, hds⟩ := bounded_cons.1 hds
      obtain ⟨ho, hos⟩ := bounded_cons.1 hos
      obtain ⟨hlen, hbou, hval⟩ := ih hds hos
      refine ⟨congrArg (· + 1) hlen, bounded_cons.2 ⟨bitwise_lt hd ho, hbou⟩, ?_⟩
      rw [andNotDigits, value_cons, hval]
      exact (bitwise_value_cons rfl hd ho ds os).symm

lemma overlay_spec (hleft : ∀ a, f false a = a) (hrig : ∀ a, f a false = a) (hds : Bounded ds) (hos : Bounded os) :
    (overlay (Nat.bitwise f) ds os).length = max ds.length os.length ∧ Bounded (overlay (Nat.bitwise f) ds os) ∧
    value (overlay (Nat.bitwise f) ds os) = Nat.bitwise f (value ds) (value os) := by
  induction ds generalizing os with
  | nil => exact ⟨(zero_max _).symm, hos, (bitwise_zero_left hleft _).symm⟩
  | cons d ds ih =>
    cases os with
    | nil => exact ⟨(max_zero _).symm, hds, (bitwise_zero_right hrig _).symm⟩
    | cons o os =>
      obtain ⟨hd, hds⟩ := bounded_cons.1 hds
      obtain ⟨ho, hos⟩ := bounded_cons.1 hos
      obtain ⟨hlen, hbou, hval⟩ := ih hds hos
      refine ⟨?_, bounded_cons.2 ⟨bitwise_lt hd ho, hbou⟩, ?_⟩
      · rw [overlay, length_cons, hlen, length_cons, length_cons, Nat.succ_max_succ]
      · rw [overlay, value_cons, hval]
        exact (bitwise_value_cons (hleft false) hd ho ds os).symm

end

namespace BigIntImpl
variable {x y : BigIntImpl}

section

lemma Represents.magnitude_eq {isNegative : Bool} {n : ℕ} (h : x.Represents (signed isNegative n)) :
    x.magnitude = n := by
  rw [← val_natAbs, h.2]
  cases isNegative <;> simp

lemma minusOne_represents : minusOne.Represents (-1) := by
  have h := neg_represents one_represents.1
  rwa [one_represents.2] at h

lemma absAndSetSign_represents (hx : x.Canonical) (hy : y.Canonical) (isNegative : Bool) :
    (x.absAndSetSign y isNegative).Represents (signed isNegative (x.magnitude &&& y.magnitude)) := by
  obtain ⟨hbou, hval⟩ := value_zipWith_and hx.usedDigits_bounded hy.usedDigits_bounded
  have h := make_filled isNegative hbou
  rwa [length_zipWith, hval, hx.usedDigits_length, hy.usedDigits_length] at h

lemma absAndNotSetSign_represents (hx : x.Canonical) (hy : y.Canonical) (isNegative : Bool) :
    (x.absAndNotSetSign y isNegative).Represents (signed isNegative (Nat.ldiff x.magnitude y.magnitude)) := by
  obtain ⟨hlen, hbou, hval⟩ := andNotDigits_spec hx.usedDigits_bounded hy.usedDigits_bounded
  have h := make_filled isNegative hbou
  rwa [hlen, hval, hx.usedDigits_length] at h

lemma absOverlaySetSign_represents (hleft : ∀ a, f false a = a)
    (hrig : ∀ a, f a false = a) (hx : x.Canonical) (hy : y.Canonical) (isNegative : Bool) :
    (absOverlaySetSign (Nat.bitwise f) x y isNegative).Represents
    (signed isNegative (Nat.bitwise f x.magnitude y.magnitude)) := by
  obtain ⟨hlen, hbou, hval⟩ := overlay_spec hleft hrig hx.usedDigits_bounded hy.usedDigits_bounded
  have h := make_filled isNegative hbou
  rwa [hlen, hval, hx.usedDigits_length, hy.usedDigits_length] at h

lemma absOrSetSign_represents (hx : x.Canonical) (hy : y.Canonical) (isNegative : Bool) :
    (x.absOrSetSign y isNegative).Represents (signed isNegative (x.magnitude ||| y.magnitude)) :=
  absOverlaySetSign_represents false_or or_false hx hy isNegative

lemma absXorSetSign_represents (hx : x.Canonical) (hy : y.Canonical) (isNegative : Bool) :
    (x.absXorSetSign y isNegative).Represents (signed isNegative (x.magnitude ^^^ y.magnitude)) :=
  absOverlaySetSign_represents (f := Bool.xor) false_xor xor_false hx hy isNegative

lemma magnitude_one : one.magnitude = 1 := by rfl

lemma one_le (hx : x.Canonical) (hzero : x.used ≠ 0) : one.magnitude ≤ x.magnitude := by
  have := mt hx.magnitude_eq_zero.1 hzero
  rw [magnitude_one]
  omega

lemma pred_spec (hx : x.Canonical) (hzero : x.used ≠ 0) (isNegative : Bool) :
    (x.absSubSetSign one isNegative).Canonical ∧ (x.absSubSetSign one isNegative).magnitude = x.magnitude - 1 := by
  have h := absSubSetSign_represents hx one_represents.1 (one_le hx hzero) isNegative
  exact ⟨h.1, h.magnitude_eq⟩

lemma complement_represents (hx : x.Canonical) : (x.absAddSetSign one true).Represents (Int.negSucc x.magnitude) := by
  have h := absAddSetSign_represents hx one_represents.1 true
  exact h

lemma val_of_nonneg (h : x.isNegative = false) : x.val = (x.magnitude : ℤ) := by rw [val, h, signed_false]

lemma Canonical.val_of_neg (hx : x.Canonical) (h : x.isNegative = true) : x.val = Int.negSucc (x.magnitude - 1) := by
  have hneg := hx.val_neg_iff.2 h
  rw [val, h, signed_true] at hneg ⊢
  omega

end

section

lemma zero_land (n : ℤ) : Int.land 0 n = 0 := by
  cases n with
  | ofNat n => exact congrArg Int.ofNat (zero_and n)
  | negSucc n =>
    refine congrArg Int.ofNat (eq_of_testBit_eq fun i => ?_)
    rw [testBit_ldiff, zero_testBit, Bool.false_and]

lemma land_comm (m n : ℤ) : Int.land m n = Int.land n m := by
  cases m with
  | ofNat m =>
    cases n with
    | ofNat n => exact congrArg Int.ofNat (Nat.and_comm m n)
    | negSucc n => rfl
  | negSucc m =>
    cases n with
    | ofNat n => rfl
    | negSucc n => exact congrArg Int.negSucc (Nat.or_comm m n)

lemma lor_comm (m n : ℤ) : Int.lor m n = Int.lor n m := by
  cases m with
  | ofNat m =>
    cases n with
    | ofNat n => exact congrArg Int.ofNat (Nat.or_comm m n)
    | negSucc n => rfl
  | negSucc m =>
    cases n with
    | ofNat n => rfl
    | negSucc n => exact congrArg Int.negSucc (Nat.and_comm m n)

lemma xor_comm (m n : ℤ) : Int.xor m n = Int.xor n m := by
  cases m with
  | ofNat m =>
    cases n with
    | ofNat n => exact congrArg Int.ofNat (Nat.xor_comm m n)
    | negSucc n => exact congrArg Int.negSucc (Nat.xor_comm m n)
  | negSucc m =>
    cases n with
    | ofNat n => exact congrArg Int.negSucc (Nat.xor_comm m n)
    | negSucc n => exact congrArg Int.ofNat (Nat.xor_comm m n)

lemma zero_lor (n : ℤ) : Int.lor 0 n = n := by
  cases n with
  | ofNat n => exact congrArg Int.ofNat (zero_or n)
  | negSucc n => exact congrArg Int.negSucc (bitwise_zero_right (fun a => Bool.and_true a) n)

lemma zero_xor (n : ℤ) : Int.xor 0 n = n := by
  cases n with
  | ofNat n => exact congrArg Int.ofNat (Nat.zero_xor n)
  | negSucc n => exact congrArg Int.negSucc (Nat.zero_xor n)

lemma Canonical.pred (hx : x.Canonical) (hzero : x.used ≠ 0) (hneg : x.isNegative = true) (isNegative : Bool) :
    (x.absSubSetSign one isNegative).Canonical ∧ x.val = Int.negSucc (x.absSubSetSign one isNegative).magnitude := by
  obtain ⟨hcan, hmag⟩ := pred_spec hx hzero isNegative
  rw [hmag]
  exact ⟨hcan, hx.val_of_neg hneg⟩

lemma Represents.complement {n : ℕ} (h : x.Represents (signed true n)) :
    (x.absAddSetSign one true).Represents (Int.negSucc n) := by
  have hcom := complement_represents h.1
  rwa [h.magnitude_eq] at hcom

lemma nonneg_of_mixed (h : x.isNegative ≠ y.isNegative) (hneg : x.isNegative = true) : y.isNegative = false :=
  eq_false_of_not_eq_true fun hy => h (hneg.trans hy.symm)

lemma neg_of_mixed (h : x.isNegative ≠ y.isNegative) (hneg : x.isNegative = false) : y.isNegative = true :=
  eq_true_of_not_eq_false fun hy => h (hneg.trans hy.symm)

section
variable (hx : x.Canonical) (hy : y.Canonical)
include hx hy

lemma and_represents : (x.and y).Represents (Int.land x.val y.val) := by
  rw [and, isZero, isZero]
  by_cases hxze : x.used = 0
  · rw [if_pos (by simp [hxze]), hx.val_eq_zero.2 hxze, zero_land]
    exact zero_represents
  by_cases hyze : y.used = 0
  · rw [if_pos (by simp [hyze]), hy.val_eq_zero.2 hyze, land_comm, zero_land]
    exact zero_represents
  rw [if_neg (by simp [hxze, hyze])]
  split_ifs with hsame hneg hneg
  · obtain ⟨hx1, hxv⟩ := hx.pred hxze hneg true
    obtain ⟨hy1, hyv⟩ := hy.pred hyze (hsame ▸ hneg) true
    rw [hxv, hyv]
    exact (absOrSetSign_represents hx1 hy1 true).complement
  · have hneg := eq_false_of_not_eq_true hneg
    rw [val_of_nonneg hneg, val_of_nonneg (hsame ▸ hneg)]
    exact absAndSetSign_represents hx hy false
  · obtain ⟨hx1, hxv⟩ := hx.pred hxze hneg false
    rw [hxv, val_of_nonneg (nonneg_of_mixed hsame hneg)]
    exact absAndNotSetSign_represents hy hx1 false
  · have hneg := eq_false_of_not_eq_true hneg
    obtain ⟨hy1, hyv⟩ := hy.pred hyze (neg_of_mixed hsame hneg) false
    rw [hyv, val_of_nonneg hneg]
    exact absAndNotSetSign_represents hx hy1 false

lemma or_represents : (x.or y).Represents (Int.lor x.val y.val) := by
  rw [or, isZero, isZero]
  by_cases hxze : x.used = 0
  · rw [if_pos (by simp [hxze]), hx.val_eq_zero.2 hxze, zero_lor]
    exact ⟨hy, rfl⟩
  by_cases hyze : y.used = 0
  · rw [if_neg (by simp [hxze]), if_pos (by simp [hyze]), hy.val_eq_zero.2 hyze, lor_comm, zero_lor]
    exact ⟨hx, rfl⟩
  rw [if_neg (by simp [hxze]), if_neg (by simp [hyze])]
  split_ifs with hsame hneg hneg
  · obtain ⟨hx1, hxv⟩ := hx.pred hxze hneg true
    obtain ⟨hy1, hyv⟩ := hy.pred hyze (hsame ▸ hneg) true
    rw [hxv, hyv]
    exact (absAndSetSign_represents hx1 hy1 true).complement
  · have hneg := eq_false_of_not_eq_true hneg
    rw [val_of_nonneg hneg, val_of_nonneg (hsame ▸ hneg)]
    exact absOrSetSign_represents hx hy false
  · obtain ⟨hx1, hxv⟩ := hx.pred hxze hneg true
    rw [hxv, val_of_nonneg (nonneg_of_mixed hsame hneg)]
    exact (absAndNotSetSign_represents hx1 hy true).complement
  · have hneg := eq_false_of_not_eq_true hneg
    obtain ⟨hy1, hyv⟩ := hy.pred hyze (neg_of_mixed hsame hneg) true
    rw [hyv, val_of_nonneg hneg]
    exact (absAndNotSetSign_represents hy1 hx true).complement

lemma xor_represents : (x.xor y).Represents (Int.xor x.val y.val) := by
  rw [xor, isZero, isZero]
  by_cases hxze : x.used = 0
  · rw [if_pos (by simp [hxze]), hx.val_eq_zero.2 hxze, zero_xor]
    exact ⟨hy, rfl⟩
  by_cases hyze : y.used = 0
  · rw [if_neg (by simp [hxze]), if_pos (by simp [hyze]), hy.val_eq_zero.2 hyze, xor_comm, zero_xor]
    exact ⟨hx, rfl⟩
  rw [if_neg (by simp [hxze]), if_neg (by simp [hyze])]
  split_ifs with hsame hneg hneg
  · obtain ⟨hx1, hxv⟩ := hx.pred hxze hneg true
    obtain ⟨hy1, hyv⟩ := hy.pred hyze (hsame ▸ hneg) true
    rw [hxv, hyv]
    exact absXorSetSign_represents hx1 hy1 false
  · have hneg := eq_false_of_not_eq_true hneg
    rw [val_of_nonneg hneg, val_of_nonneg (hsame ▸ hneg)]
    exact absXorSetSign_represents hx hy false
  · obtain ⟨hx1, hxv⟩ := hx.pred hxze hneg true
    rw [hxv, val_of_nonneg (nonneg_of_mixed hsame hneg), xor_comm]
    exact (absXorSetSign_represents hy hx1 true).complement
  · have hneg := eq_false_of_not_eq_true hneg
    obtain ⟨hy1, hyv⟩ := hy.pred hyze (neg_of_mixed hsame hneg) true
    rw [hyv, val_of_nonneg hneg]
    exact (absXorSetSign_represents hx hy1 true).complement

end

lemma not_represents (hx : x.Canonical) : x.not.Represents (Int.lnot x.val) := by
  rw [not, isZero]
  by_cases hzero : x.used = 0
  · rw [if_pos (decide_eq_true hzero), hx.val_eq_zero.2 hzero]
    exact minusOne_represents
  rw [if_neg (by simpa using hzero)]
  split_ifs with hneg
  · have h := absSubSetSign_represents hx one_represents.1 (one_le hx hzero) false
    rw [hx.val_of_neg hneg]
    exact h
  · rw [val_of_nonneg (eq_false_of_not_eq_true hneg)]
    exact complement_represents hx

end
end BigIntImpl
end DartSdk.BigInt
