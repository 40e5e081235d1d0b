import DartSdk.BigInt.Impl

namespace DartSdk.BigInt
open List
variable {digits : List ℕ} {n : ℕ} {used : ℕ}

section

lemma normalize_le (used : ℕ) (digits : List ℕ) : normalize used digits ≤ used := by
  induction used with
  | zero => exact le_rfl
  | succ used ih =>
    rw [normalize]
    split_ifs
    · omega
    · exact le_rfl

lemma normalize_top (h : normalize used digits ≠ 0) : digits.getD (normalize used digits - 1) 0 ≠ 0 := by
  induction used with
  | zero => exact absurd rfl h
  | succ used ih =>
    rw [normalize] at h ⊢
    split_ifs at h ⊢ with hzero
    · exact ih h
    · exact hzero

lemma normalize_zeros {used i : ℕ} (hle : normalize used digits ≤ i) (hlt : i < used) : digits.getD i 0 = 0 := by
  induction used with
  | zero => exact absurd hlt (Nat.not_lt_zero i)
  | succ used ih =>
    rw [normalize] at hle
    split_ifs at hle with hzero
    · rcases Nat.lt_succ_iff_lt_or_eq.1 hlt with hlt | rfl
      · exact ih hle hlt
      · exact hzero
    · omega

lemma value_take_succ (h : n < digits.length) :
    value (digits.take (n + 1)) = value (digits.take n) + digitBase ^ n * digits.getD n 0 := by
  rw [take_succ_eq_append_getElem h, value_append, length_take, Nat.min_eq_left h.le, getD_eq_getElem _ _ h]
  rw [value, value, Limbs.value_singleton]

lemma value_normalize (h : used ≤ digits.length) :
    value (digits.take (normalize used digits)) = value (digits.take used) := by
  induction used with
  | zero => rfl
  | succ used ih =>
    rw [normalize]
    split_ifs with hzero
    · rw [ih (by omega), value_take_succ h, hzero, Nat.mul_zero, Nat.add_zero]
    · rfl

lemma value_take_of_lt (hn : n ≤ digits.length) (h : value digits < digitBase ^ n) :
    value (digits.take n) = value digits ∧ digits.getD n 0 = 0 := by
  have hsplit : value digits = value (digits.take n) + digitBase ^ n * value (digits.drop n) :=
    Limbs.value_take_drop digits n hn
  have hzero : value (digits.drop n) = 0 := by
    by_contra hne
    have := Nat.le_mul_of_pos_right (digitBase ^ n) (Nat.pos_of_ne_zero hne)
    omega
  constructor
  · rw [hsplit, hzero, Nat.mul_zero, Nat.add_zero]
  · cases hdrop : digits.drop n with
    | nil =>
      rw [drop_eq_nil_iff] at hdrop
      exact getD_eq_default _ _ hdrop
    | cons d ds =>
      have hd : digits[n]? = some d := by
        have := congrArg List.head? hdrop
        rwa [List.head?_drop] at this
      rw [hdrop, value_cons] at hzero
      rw [getD_eq_getElem?_getD, hd, Option.getD_some]
      omega

end

def signed (isNegative : Bool) (n : ℕ) : ℤ := if isNegative then -n else n

@[simp] lemma signed_zero (isNegative : Bool) : signed isNegative 0 = 0 := by cases isNegative <;> rfl

@[simp] lemma signed_true (n : ℕ) : signed true n = -n := rfl

@[simp] lemma signed_false (n : ℕ) : signed false n = n := rfl

lemma signed_not (isNegative : Bool) (n : ℕ) : signed (!isNegative) n = -signed isNegative n := by
  cases isNegative <;> simp

namespace BigIntImpl

def magnitude (x : BigIntImpl) : ℕ := value x.usedDigits

def val (x : BigIntImpl) : ℤ := signed x.isNegative x.magnitude

/-- No leading zero among the used digits, no negative zero, an even number of digits, and a zero
after an odd number of used digits. -/
structure Canonical (x : BigIntImpl) : Prop where
  even : x.digits.length % 2 = 0
  le : x.used ≤ x.digits.length
  bounded : Bounded x.digits
  top : x.used ≠ 0 → x.digits.getD (x.used - 1) 0 ≠ 0
  pad : x.used % 2 = 1 → x.digits.getD x.used 0 = 0
  sign : x.used = 0 → x.isNegative = false

def Represents (x : BigIntImpl) (n : ℤ) : Prop := x.Canonical ∧ x.val = n

variable (isNegative : Bool)

lemma make_represents (heven : digits.length % 2 = 0)
    (hle : used ≤ digits.length) (hbounded : Bounded digits) (hpad : used % 2 = 1 → digits.getD used 0 = 0) :
    (make isNegative used digits).Represents (signed isNegative (value (digits.take used))) := by
  have hused := normalize_le used digits
  constructor
  · refine ⟨heven, hused.trans hle, hbounded, normalize_top, ?_, ?_⟩
    · intro hodd
      change digits.getD (normalize used digits) 0 = 0
      rcases hused.lt_or_eq with hlt | heq
      · exact normalize_zeros le_rfl hlt
      · change normalize used digits % 2 = 1 at hodd
        rw [heq] at hodd ⊢
        exact hpad hodd
    · intro hzero
      change normalize used digits = 0 at hzero
      change (if normalize used digits = 0 then false else isNegative) = false
      rw [if_pos hzero]
  · change signed (if normalize used digits = 0 then false else isNegative)
      (value (digits.take (normalize used digits))) = _
    split_ifs with hzero
    · rw [← value_normalize hle, hzero, take_zero, value_nil, signed_zero, signed_zero]
    · rw [value_normalize hle]

variable {l : List ℕ}

lemma filled_length (h : l.length ≤ n) : (filled n l).length = n + n % 2 := by
  rw [filled, length_append, length_replicate]
  omega

lemma filled_bounded (h : Bounded l) : Bounded (filled n l) :=
  Limbs.bounded_append.2 ⟨h, Limbs.bounded_replicate_zero digitBase_pos _⟩

lemma filled_getD {n i : ℕ} (hi : l.length ≤ i) : (filled n l).getD i 0 = 0 := by
  rw [filled, getD_append_right _ _ _ _ hi]
  exact List.getElem?_getD_replicate_default_eq _ _ _

lemma make_filled_le (hle : l.length ≤ n) (h : Bounded l) :
    (make isNegative l.length (filled n l)).Represents (signed isNegative (value l)) := by
  have hlen := filled_length hle
  have hused : l.length ≤ (filled n l).length := by omega
  have hmake := make_represents isNegative (by rw [hlen]; omega) hused (filled_bounded h) (fun _ => filled_getD le_rfl)
  rwa [filled, take_left, ← filled] at hmake

lemma make_filled (h : Bounded l) :
    (make isNegative l.length (filled l.length l)).Represents (signed isNegative (value l)) :=
  make_filled_le isNegative le_rfl h

lemma make_of_lt (heven : digits.length % 2 = 0)
    (hle : used ≤ digits.length) (hbounded : Bounded digits) (hlt : value digits < digitBase ^ used) :
    (make isNegative used digits).Represents (signed isNegative (value digits)) := by
  obtain ⟨htake, hpad⟩ := value_take_of_lt hle hlt
  rw [← htake]
  exact make_represents isNegative heven hle hbounded (fun _ => hpad)

section
variable {x y : BigIntImpl}

section
variable (hx : x.Canonical)
include hx

lemma Canonical.usedDigits_length : x.usedDigits.length = x.used := by
  rw [usedDigits, length_take, Nat.min_eq_left hx.le]

lemma Canonical.usedDigits_bounded : Bounded x.usedDigits := hx.bounded.take x.used

lemma Canonical.magnitude_lt : x.magnitude < digitBase ^ x.used := by
  have := value_lt hx.usedDigits_bounded
  rwa [hx.usedDigits_length] at this

lemma Canonical.le_magnitude (hused : x.used ≠ 0) : digitBase ^ (x.used - 1) ≤ x.magnitude := by
  have hle := hx.le
  have htop := Nat.pos_of_ne_zero (hx.top hused)
  have hsucc : x.used = x.used - 1 + 1 := by omega
  rw [magnitude, usedDigits]
  nth_rewrite 2 [hsucc]
  rw [value_take_succ (by omega)]
  have := Nat.le_mul_of_pos_right (digitBase ^ (x.used - 1)) htop
  omega

lemma Canonical.magnitude_eq_zero : x.magnitude = 0 ↔ x.used = 0 := by
  constructor
  · intro hzero
    by_contra hne
    have := hx.le_magnitude hne
    have hpos : 0 < digitBase ^ (x.used - 1) := Nat.pow_pos digitBase_pos
    omega
  · intro hzero
    rw [magnitude, usedDigits, hzero, take_zero, value_nil]

lemma Canonical.val_eq_zero : x.val = 0 ↔ x.used = 0 := by
  rw [← hx.magnitude_eq_zero, val]
  cases x.isNegative <;> simp

lemma Canonical.val_neg_iff : x.val < 0 ↔ x.isNegative = true := by
  have hpos : x.isNegative = true → x.magnitude ≠ 0 := by
    intro hneg hzero
    rw [hx.sign (hx.magnitude_eq_zero.1 hzero)] at hneg
    cases hneg
  rw [val]
  cases hneg : x.isNegative with
  | false => simp
  | true =>
    have := hpos hneg
    simp only [signed_true, iff_true]
    omega

end

lemma val_natAbs (x : BigIntImpl) : x.val.natAbs = x.magnitude := by
  rw [val]
  cases x.isNegative <;> simp

lemma magnitude_lt_of_used_lt (hx : x.Canonical) (hy : y.Canonical) (h : x.used < y.used) : x.magnitude < y.magnitude :=
  hx.magnitude_lt.trans_le ((Nat.pow_le_pow_right digitBase_pos (by omega)).trans (hy.le_magnitude (by omega)))

lemma used_le_of_magnitude_le (hx : x.Canonical) (hy : y.Canonical) (h : y.magnitude ≤ x.magnitude) :
    y.used ≤ x.used := by
  by_contra hlt
  exact absurd h (magnitude_lt_of_used_lt hx hy (by omega)).not_ge

end
end BigIntImpl
end DartSdk.BigInt
