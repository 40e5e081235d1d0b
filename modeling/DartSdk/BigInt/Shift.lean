import DartSdk.BigInt.Bits
import Mathlib.Data.Int.ModEq

namespace DartSdk.BigInt
open List Nat Limbs Int

section

def lshLoop (bitShift : ℕ) : List ℕ → List ℕ × ℕ
  | [] => ([], 0)
  | digit :: ds =>
    let carryBitShift := digitBits - bitShift
    let bitMask := (1 <<< carryBitShift) - 1
    let r := lshLoop bitShift ds
    (((digit >>> carryBitShift) ||| r.2) :: r.1, (digit &&& bitMask) <<< bitShift)

def lsh (xDigits : List ℕ) (n : ℕ) : List ℕ :=
  let r := lshLoop (n % digitBits) xDigits
  List.replicate (n / digitBits) 0 ++ r.2 :: r.1

def rshLoop (bitShift : ℕ) : List ℕ → ℕ → List ℕ
  | [], carry => [carry]
  | digit :: ds, carry =>
    let carryBitShift := digitBits - bitShift
    let bitMask := (1 <<< bitShift) - 1
    (((digit &&& bitMask) <<< carryBitShift) ||| carry) :: rshLoop bitShift ds (digit >>> bitShift)

def rsh (xDigits : List ℕ) (n : ℕ) : List ℕ :=
  let bitShift := n % digitBits
  rshLoop bitShift (xDigits.drop (n / digitBits + 1)) (xDigits.getD (n / digitBits) 0 >>> bitShift)

end

namespace BigIntImpl

def dlShift (x : BigIntImpl) (n : ℕ) : BigIntImpl :=
  if x.used = 0 then zero
  else make x.isNegative (x.used + n) (filled (x.used + n) (List.replicate n 0 ++ x.usedDigits))

def drShift (x : BigIntImpl) (n : ℕ) : BigIntImpl :=
  if x.used = 0 then zero
  else if x.used ≤ n then if x.isNegative then minusOne else zero
  else
    let resultUsed := x.used - n
    let result := make x.isNegative resultUsed (filled resultUsed (x.usedDigits.drop n))
    if x.isNegative ∧ (x.digits.take n).any (· ≠ 0) then result.sub one else result

def shiftLeft (x : BigIntImpl) (shiftAmount : ℤ) : Except Error BigIntImpl :=
  if shiftAmount < 0 then .error (.argumentError s!"shift-amount must be positive {shiftAmount}")
  else if x.isZero then .ok x
  else
    let n := shiftAmount.toNat
    if n % digitBits = 0 then .ok (x.dlShift (n / digitBits))
    else
      let resultUsed := x.used + n / digitBits + 1
      .ok (make x.isNegative resultUsed (filled (resultUsed + 1) (lsh x.usedDigits n)))

def shiftRight (x : BigIntImpl) (shiftAmount : ℤ) : Except Error BigIntImpl :=
  if shiftAmount < 0 then .error (.argumentError s!"shift-amount must be positive {shiftAmount}")
  else if x.isZero then .ok x
  else
    let n := shiftAmount.toNat
    let digitShift := n / digitBits
    let bitShift := n % digitBits
    if bitShift = 0 then .ok (x.drShift digitShift)
    else if x.used ≤ digitShift then .ok (if x.isNegative then minusOne else zero)
    else
      let resultUsed := x.used - digitShift
      let result := make x.isNegative resultUsed (filled resultUsed (rsh x.usedDigits n))
      .ok (if x.isNegative ∧ (x.digits.getD digitShift 0 &&& ((1 <<< bitShift) - 1) ≠ 0 ∨
          (x.digits.take digitShift).any (· ≠ 0)) then result.sub one else result)

def bitLength (x : BigIntImpl) : ℕ :=
  if x.used = 0 then 0
  else
    let highBits := x.digits.getD (x.used - 1) 0
    let length := digitBits * (x.used - 1) + highBits.size
    if x.isNegative = false then length
    else if highBits &&& (highBits - 1) ≠ 0 then length
    else if (x.digits.take (x.used - 1)).any (· ≠ 0) then length
    else length - 1

def toUnsigned (x : BigIntImpl) (width : ℤ) : Except Error BigIntImpl := do
  let mask ← one.shiftLeft width
  .ok (x.and (mask.sub one))

def toSigned (x : BigIntImpl) (width : ℤ) : Except Error BigIntImpl := do
  let signMask ← one.shiftLeft (width - 1)
  .ok ((x.and (signMask.sub one)).sub (x.and signMask))

end BigIntImpl

variable {ds : List ℕ}

section
variable {k : ℕ}

lemma digitBase_split (hk : k ≤ 32) : digitBase = 2 ^ k * 2 ^ (digitBits - k) := by
  rw [digitBits, ← pow_add, Nat.add_sub_cancel' hk]
  rfl

lemma mask_eq (d k : ℕ) : d &&& ((1 <<< k) - 1) = d % 2 ^ k := by rw [Nat.one_shiftLeft, Nat.and_two_pow_sub_one_eq_mod]

lemma lshLoop_spec (hk : k ≤ 32) (hds : Bounded ds) : (lshLoop k ds).1.length = ds.length ∧ Bounded (lshLoop k ds).1 ∧
    (lshLoop k ds).2 < digitBase ∧ 2 ^ k ∣ (lshLoop k ds).2 ∧
    value ((lshLoop k ds).2 :: (lshLoop k ds).1) = 2 ^ k * value ds := by
  have hspl := digitBase_split hk
  have hpos : 0 < 2 ^ (digitBits - k) := Nat.two_pow_pos _
  induction ds with
  | nil => exact ⟨rfl, bounded_nil, digitBase_pos, dvd_zero _, rfl⟩
  | cons d ds ih =>
    obtain ⟨hd, hds⟩ := bounded_cons.1 hds
    obtain ⟨hlen, hbou, hcar, ⟨c, hc⟩, hvalue⟩ := ih hds
    have hhigh : d / 2 ^ (digitBits - k) < 2 ^ k := by
      rw [Nat.div_lt_iff_lt_mul hpos, ← hspl]
      exact hd
    have hdig : (d >>> (digitBits - k)) ||| (lshLoop k ds).2 = d / 2 ^ (digitBits - k) + (lshLoop k ds).2 := by
      rw [Nat.shiftRight_eq_div_pow, hc, Nat.or_comm, ← Nat.two_pow_add_eq_or_of_lt hhigh, Nat.add_comm]
    have hlow : (d &&& ((1 <<< (digitBits - k)) - 1)) <<< k = 2 ^ k * (d % 2 ^ (digitBits - k)) := by
      rw [mask_eq, Nat.shiftLeft_eq, Nat.mul_comm]
    have hsum : d / 2 ^ (digitBits - k) + (lshLoop k ds).2 < digitBase := by
      rw [hc, hspl] at hcar ⊢
      have hc' : c + 1 ≤ 2 ^ (digitBits - k) := lt_of_mul_lt_mul_left hcar (Nat.zero_le _)
      calc d / 2 ^ (digitBits - k) + 2 ^ k * c < 2 ^ k + 2 ^ k * c := by omega
        _ = 2 ^ k * (c + 1) := by ring
        _ ≤ _ := mul_le_mul_left _ hc'
    rw [lshLoop]
    rw [hdig, hlow]
    refine ⟨congrArg (· + 1) hlen, bounded_cons.2 ⟨hsum, hbou⟩, ?_, dvd_mul_right _ _, ?_⟩
    · rw [hspl]
      exact Nat.mul_lt_mul_of_pos_left (Nat.mod_lt _ hpos) (Nat.two_pow_pos k)
    · have hmod := Nat.mod_add_div d (2 ^ (digitBits - k))
      rw [value_cons] at hvalue
      calc 2 ^ k * (d % 2 ^ (digitBits - k)) + digitBase *
            (d / 2 ^ (digitBits - k) + (lshLoop k ds).2 + digitBase * value (lshLoop k ds).1)
          = 2 ^ k * (d % 2 ^ (digitBits - k)) + digitBase * (d / 2 ^ (digitBits - k)) +
            digitBase * ((lshLoop k ds).2 + digitBase * value (lshLoop k ds).1) := by ring
        _ = 2 ^ k * (d % 2 ^ (digitBits - k) + 2 ^ (digitBits - k) * (d / 2 ^ (digitBits - k))) +
          digitBase * (2 ^ k * value ds) := by rw [hvalue]; nth_rewrite 1 [hspl]; ring
        _ = 2 ^ k * (d + digitBase * value ds) := by rw [hmod]; ring

lemma rshLoop_spec (hk : k ≤ 32) {carry : ℕ} (hds : Bounded ds) (hcar : carry < 2 ^ (digitBits - k)) :
    (rshLoop k ds carry).length = ds.length + 1 ∧ Bounded (rshLoop k ds carry) ∧
    value (rshLoop k ds carry) = carry + 2 ^ (digitBits - k) * value ds := by
  have hspl := digitBase_split hk
  have hpos : 0 < 2 ^ k := Nat.two_pow_pos _
  induction ds generalizing carry with
  | nil =>
    refine ⟨rfl, bounded_cons.2 ⟨?_, bounded_nil⟩, ?_⟩
    · rw [hspl]
      exact hcar.trans_le (Nat.le_mul_of_pos_left _ hpos)
    · rw [rshLoop, value_cons, value_nil, Nat.mul_zero, Nat.mul_zero]
  | cons d ds ih =>
    obtain ⟨hd, hds⟩ := bounded_cons.1 hds
    have hhigh : d >>> k < 2 ^ (digitBits - k) := by
      rw [Nat.shiftRight_eq_div_pow, Nat.div_lt_iff_lt_mul hpos, Nat.mul_comm, ← hspl]
      exact hd
    obtain ⟨hlen, hbou, hvalue⟩ := ih hds hhigh
    have hdig : ((d &&& ((1 <<< k) - 1)) <<< (digitBits - k)) ||| carry = 2 ^ (digitBits - k) * (d % 2 ^ k) + carry := by
      rw [mask_eq, Nat.shiftLeft_eq, Nat.mul_comm, Nat.two_pow_add_eq_or_of_lt hcar]
    have hsum : 2 ^ (digitBits - k) * (d % 2 ^ k) + carry < digitBase := by
      have hmod : d % 2 ^ k + 1 ≤ 2 ^ k := Nat.mod_lt _ hpos
      calc 2 ^ (digitBits - k) * (d % 2 ^ k) + carry < 2 ^ (digitBits - k) * (d % 2 ^ k + 1) := by
            rw [mul_add]
            omega
        _ ≤ 2 ^ (digitBits - k) * 2 ^ k := mul_le_mul_left _ hmod
        _ = _ := by rw [hspl, Nat.mul_comm]
    rw [rshLoop, hdig]
    refine ⟨congrArg (· + 1) hlen, bounded_cons.2 ⟨hsum, hbou⟩, ?_⟩
    have hmod := Nat.mod_add_div d (2 ^ k)
    rw [value_cons, hvalue, value_cons, Nat.shiftRight_eq_div_pow]
    nth_rewrite 3 [← hmod]
    rw [hspl]
    ring

lemma any_ne_zero : ds.any (· ≠ 0) = true ↔ value ds ≠ 0 := by
  induction ds with
  | nil => simp [value_nil]
  | cons d ds ih =>
    rw [any_cons, Bool.or_eq_true, ih, value_cons, decide_eq_true_iff]
    have hpos := digitBase_pos
    constructor
    · rintro (hd | hds)
      · omega
      · have := mul_pos hpos (pos_of_ne_zero hds)
        omega
    · intro h
      by_contra hcon
      rw [not_or, not_not, not_not] at hcon
      rw [hcon.1, hcon.2] at h
      exact h rfl

end

namespace BigIntImpl
variable {x : BigIntImpl}
variable {n : ℕ}

section Shifts

lemma two_pow_split (n : ℕ) : 2 ^ n = digitBase ^ (n / digitBits) * 2 ^ (n % digitBits) := by
  have hn := div_add_mod n 32
  rw [digitBase_eq, ← pow_mul, ← pow_add, digitBits, hn]

lemma value_zeros_append (n : ℕ) (ds : List ℕ) : value (List.replicate n 0 ++ ds) = digitBase ^ n * value ds := by
  rw [value_append, value, value_replicate_zero, length_replicate, zero_add]

lemma zeros_append_bounded (n : ℕ) (h : Bounded ds) : Bounded (List.replicate n 0 ++ ds) :=
  bounded_append.2 ⟨bounded_replicate_zero digitBase_pos n, h⟩

lemma dlShift_represents (hx : x.Canonical) (n : ℕ) :
    (x.dlShift n).Represents (signed x.isNegative (digitBase ^ n * x.magnitude)) := by
  rw [dlShift]
  split_ifs with hzero
  · rw [hx.magnitude_eq_zero.2 hzero, mul_zero, signed_zero]
    exact zero_represents
  · have h := make_filled x.isNegative (zeros_append_bounded n hx.usedDigits_bounded)
    rwa [value_zeros_append, length_append, length_replicate, hx.usedDigits_length, add_comm n] at h

lemma lsh_spec (hx : x.Canonical) (n : ℕ) :
    (lsh x.usedDigits n).length = x.used + n / digitBits + 1 ∧ Bounded (lsh x.usedDigits n) ∧
    value (lsh x.usedDigits n) = 2 ^ n * x.magnitude := by
  obtain ⟨hlen, hbou, hcar, -, hvalue⟩ := lshLoop_spec (k := n % digitBits)
    (mod_lt n (by decide)).le hx.usedDigits_bounded
  rw [lsh]
  refine ⟨?_, zeros_append_bounded _ (bounded_cons.2 ⟨hcar, hbou⟩), ?_⟩
  · rw [length_append, length_replicate, length_cons, hlen, hx.usedDigits_length]
    omega
  · rw [value_zeros_append, hvalue, two_pow_split n, mul_assoc]
    rfl

lemma shiftLeft_represents (hx : x.Canonical) (n : ℕ) : ∃ z, x.shiftLeft n = .ok z ∧ z.Represents (x.val * 2 ^ n) := by
  have hval : signed x.isNegative (2 ^ n * x.magnitude) = x.val * 2 ^ n := by
    rw [val]
    cases x.isNegative
    · rw [signed_false, signed_false]
      push_cast
      ring
    · rw [signed_true, signed_true]
      push_cast
      ring
  rw [shiftLeft, if_neg (by omega), toNat_natCast, isZero]
  by_cases hzero : x.used = 0
  · refine ⟨x, if_pos (decide_eq_true hzero), hx, ?_⟩
    rw [hx.val_eq_zero.2 hzero, zero_mul]
  rw [if_neg (by simpa using hzero), ← hval]
  dsimp only
  split_ifs with hbits
  · have h := dlShift_represents hx (n / digitBits)
    have hpow := two_pow_split n
    rw [hbits, pow_zero, mul_one] at hpow
    rw [hpow]
    exact ⟨_, rfl, h⟩
  · obtain ⟨hlen, hbou, hvalue⟩ := lsh_spec hx n
    have h := make_filled_le (n := (lsh x.usedDigits n).length + 1) x.isNegative (by omega) hbou
    rw [hlen, hvalue] at h
    exact ⟨_, rfl, h⟩

lemma neg_ediv_eq (m d : ℕ) (hd : 0 < d) :
    -(m : ℤ) / d = if m % d ≠ 0 then -((m / d : ℕ) : ℤ) - 1 else -((m / d : ℕ) : ℤ) := by
  have hspl : (m : ℤ) = d * ((m / d : ℕ) : ℤ) + ((m % d : ℕ) : ℤ) := by exact_mod_cast (div_add_mod m d).symm
  have hmod : ((m % d : ℕ) : ℤ) < d := by exact_mod_cast mod_lt m hd
  have hpos : (0 : ℤ) < d := by exact_mod_cast hd
  split_ifs with hzero
  · refine (Int.ediv_emod_unique (r := d - ((m % d : ℕ) : ℤ)) hpos).2 ⟨?_, by omega, by omega⟩ |>.1
    linear_combination hspl
  · rw [not_not] at hzero
    rw [hzero] at hspl
    refine (Int.ediv_emod_unique hpos).2 ⟨?_, le_rfl, hpos⟩ |>.1
    linear_combination hspl

lemma roundDown_represents {z : BigIntImpl} {c : Prop} [Decidable c]
    (hz : z.Represents (signed x.isNegative (x.magnitude / 2 ^ n)))
    (hc : c ↔ x.isNegative = true ∧ x.magnitude % 2 ^ n ≠ 0) :
    (if c then z.sub one else z).Represents (x.val / 2 ^ n) := by
  have hsub := sub_represents hz.1 one_represents.1
  rw [hz.2] at hsub
  have hneg := neg_ediv_eq x.magnitude (2 ^ n) (Nat.two_pow_pos n)
  push_cast at hneg
  rw [val]
  cases hsign : x.isNegative with
  | false =>
    rw [if_neg (by rw [hc, hsign]; simp)]
    rw [hsign] at hz
    exact_mod_cast hz
  | true =>
    rw [hsign] at hz hsub
    rw [signed_true, hneg]
    by_cases hzero : x.magnitude % 2 ^ n = 0
    · rw [if_neg (by rw [hc]; simp [hzero]), if_neg (not_not_intro hzero)]
      exact_mod_cast hz
    · rw [if_pos (hc.2 ⟨hsign, hzero⟩), if_pos hzero]
      exact_mod_cast hsub

section
variable (hx : x.Canonical)
include hx

lemma shiftedOut_represents (hzero : x.used ≠ 0) (hle : x.used ≤ n / digitBits) :
    (if x.isNegative then minusOne else zero).Represents (x.val / 2 ^ n) := by
  have hlt : x.magnitude < 2 ^ n := by
    apply hx.magnitude_lt.trans_le
    rw [two_pow_split n]
    exact (Nat.pow_le_pow_right digitBase_pos hle).trans (Nat.le_mul_of_pos_right _ (Nat.two_pow_pos _))
  have hpos := mt hx.magnitude_eq_zero.1 hzero
  have hneg := neg_ediv_eq x.magnitude (2 ^ n) (Nat.two_pow_pos n)
  rw [Nat.mod_eq_of_lt hlt, Nat.div_eq_of_lt hlt, if_pos hpos] at hneg
  push_cast at hneg
  rw [val]
  cases hsign : x.isNegative with
  | false =>
    rw [signed_false]
    have : ((x.magnitude : ℤ) / 2 ^ n) = 0 := by exact_mod_cast Nat.div_eq_of_lt hlt
    rw [this]
    exact zero_represents
  | true =>
    rw [signed_true, hneg]
    exact minusOne_represents

lemma magnitude_split {s : ℕ} (hlt : s < x.used) : x.magnitude = value (x.digits.take s) +
    digitBase ^ s * (x.digits.getD s 0 + digitBase * value (x.usedDigits.drop (s + 1))) := by
  have hle := hx.le
  have hspl : x.magnitude = _ := value_take_drop x.usedDigits s (by rw [hx.usedDigits_length]; exact hlt.le)
  have htake : x.usedDigits.take s = x.digits.take s := by rw [usedDigits, take_take, min_eq_left hlt.le]
  have hdrop : x.usedDigits.drop s = x.digits.getD s 0 :: x.usedDigits.drop (s + 1) := by
    rw [drop_eq_getElem_cons (by rw [hx.usedDigits_length]; exact hlt)]
    congr 1
    rw [getD_eq_getElem _ _ (by omega)]
    exact getElem_take
  rw [hspl, htake, hdrop]
  change value (x.digits.take s) + digitBase ^ s * value _ = _
  rw [value_cons]

lemma magnitude_shift (hlt : n / digitBits < x.used) :
    x.magnitude / 2 ^ n = x.digits.getD (n / digitBits) 0 / 2 ^ (n % digitBits) +
    2 ^ (digitBits - n % digitBits) * value (x.usedDigits.drop (n / digitBits + 1)) ∧
    (x.magnitude % 2 ^ n ≠ 0 ↔ x.digits.getD (n / digitBits) 0 % 2 ^ (n % digitBits) ≠ 0 ∨
    value (x.digits.take (n / digitBits)) ≠ 0) := by
  have hk : n % digitBits ≤ 32 := (Nat.mod_lt n (by decide)).le
  have hmag := magnitude_split hx hlt
  have htake := value_lt (hx.bounded.take (n / digitBits))
  have hle := hx.le
  rw [length_take, min_eq_left (by omega)] at htake
  rw [digitBase_split hk, mul_assoc, ← digitBase_split hk] at hmag
  rw [two_pow_split n]
  generalize n / digitBits = s at *
  generalize n % digitBits = k at *
  set d := x.digits.getD s 0
  set V := 2 ^ (digitBits - k) * value (x.usedDigits.drop (s + 1))
  set T := value (x.digits.take s)
  have hpos : 0 < digitBase ^ s := Nat.pow_pos digitBase_pos
  have hdiv : x.magnitude / digitBase ^ s = d + 2 ^ k * V := by
    rw [hmag, Nat.add_mul_div_left _ _ hpos, Nat.div_eq_of_lt htake, Nat.zero_add]
  have hmod : x.magnitude % digitBase ^ s = T := by rw [hmag, Nat.add_mul_mod_self_left, Nat.mod_eq_of_lt htake]
  constructor
  · rw [← Nat.div_div_eq_div_mul, hdiv, Nat.add_mul_div_left _ _ (Nat.two_pow_pos k)]
  · rw [Nat.mod_mul, hdiv, hmod, Nat.add_mul_mod_self_left]
    rw [Ne, Nat.add_eq_zero_iff, Nat.mul_eq_zero]
    constructor
    · intro h
      by_contra hcon
      rw [not_or, not_not, not_not] at hcon
      exact h ⟨hcon.2, Or.inr hcon.1⟩
    · rintro (hd | hT) ⟨hzero, hzero'⟩
      · rcases hzero' with hzero' | hzero'
        · omega
        · exact hd hzero'
      · exact hT hzero

lemma rsh_spec (hlt : n / digitBits < x.used) :
    (rsh x.usedDigits n).length = x.used - n / digitBits ∧ Bounded (rsh x.usedDigits n) ∧
    value (rsh x.usedDigits n) = x.magnitude / 2 ^ n := by
  have hk : n % digitBits ≤ 32 := (Nat.mod_lt n (by decide)).le
  have hle := hx.le
  have hgetD : x.usedDigits.getD (n / digitBits) 0 = x.digits.getD (n / digitBits) 0 := by
    rw [getD_eq_getElem _ _ (by rw [hx.usedDigits_length]; exact hlt), getD_eq_getElem _ _ (by omega)]
    exact getElem_take
  have hcar : x.digits.getD (n / digitBits) 0 >>> (n % digitBits) < 2 ^ (digitBits - n % digitBits) := by
    rw [Nat.shiftRight_eq_div_pow, Nat.div_lt_iff_lt_mul (Nat.two_pow_pos _), Nat.mul_comm, ← digitBase_split hk]
    exact hx.bounded.getD digitBase_pos _
  obtain ⟨hlen, hbou, hvalue⟩ := rshLoop_spec hk (hx.usedDigits_bounded.drop (n / digitBits + 1)) hcar
  rw [rsh, hgetD]
  refine ⟨?_, hbou, ?_⟩
  · rw [hlen, length_drop, hx.usedDigits_length]
    omega
  · rw [hvalue, (magnitude_shift hx hlt).1, Nat.shiftRight_eq_div_pow]

lemma drShift_represents (hbits : n % digitBits = 0) : (x.drShift (n / digitBits)).Represents (x.val / 2 ^ n) := by
  rw [drShift]
  by_cases hzero : x.used = 0
  · rw [if_pos hzero, hx.val_eq_zero.2 hzero, zero_ediv]
    exact zero_represents
  rw [if_neg hzero]
  by_cases hout : x.used ≤ n / digitBits
  · rw [if_pos hout]
    exact shiftedOut_represents hx hzero hout
  rw [if_neg hout]
  have hlt : n / digitBits < x.used := by omega
  obtain ⟨hdiv, hmod⟩ := magnitude_shift hx hlt
  have hmake := make_filled x.isNegative (hx.usedDigits_bounded.drop (n / digitBits))
  have hvalue : value (x.usedDigits.drop (n / digitBits)) = x.magnitude / 2 ^ n := by
    rw [hdiv, hbits]
    have hle := hx.le
    rw [drop_eq_getElem_cons (by rw [hx.usedDigits_length]; exact hlt), value_cons, pow_zero,
      Nat.div_one, getD_eq_getElem _ _ (by omega)]
    congr 1
    exact getElem_take
  rw [length_drop, hx.usedDigits_length, hvalue] at hmake
  refine roundDown_represents hmake ?_
  rw [any_ne_zero, hmod, hbits, pow_zero, mod_one]
  simp

lemma shiftRight_represents (n : ℕ) : ∃ z, x.shiftRight n = .ok z ∧ z.Represents (x.val / 2 ^ n) := by
  rw [shiftRight, if_neg (by omega), toNat_natCast, isZero]
  by_cases hzero : x.used = 0
  · refine ⟨x, if_pos (decide_eq_true hzero), hx, ?_⟩
    rw [hx.val_eq_zero.2 hzero, zero_ediv]
  rw [if_neg (by simpa using hzero)]
  by_cases hbits : n % digitBits = 0
  · rw [if_pos hbits]
    exact ⟨_, rfl, drShift_represents hx hbits⟩
  rw [if_neg hbits]
  by_cases hout : x.used ≤ n / digitBits
  · rw [if_pos hout]
    exact ⟨_, rfl, shiftedOut_represents hx hzero hout⟩
  rw [if_neg hout]
  have hlt : n / digitBits < x.used := by omega
  obtain ⟨hlen, hbou, hvalue⟩ := rsh_spec hx hlt
  have hmake := make_filled x.isNegative hbou
  rw [hlen, hvalue] at hmake
  refine ⟨_, rfl, roundDown_represents hmake ?_⟩
  rw [any_ne_zero, mask_eq, (magnitude_shift hx hlt).2]

end
end Shifts

section

lemma magnitude_top (hx : x.Canonical) (hzero : x.used ≠ 0) : x.magnitude = value (x.digits.take (x.used - 1)) +
    2 ^ (digitBits * (x.used - 1)) * x.digits.getD (x.used - 1) 0 := by
  have h := magnitude_split hx (s := x.used - 1) (by omega)
  have hdrop : x.usedDigits.drop (x.used - 1 + 1) = [] := by
    rw [drop_eq_nil_iff, hx.usedDigits_length]
    omega
  rwa [hdrop, value_nil, mul_zero, add_zero, digitBase_eq, ← pow_mul] at h

lemma size_add_mul {k low high : ℕ} (hlow : low < 2 ^ k) (hhigh : high ≠ 0) :
    (low + 2 ^ k * high).size = k + high.size := by
  have hlt := lt_size_self high
  have hle : 2 ^ (high.size - 1) ≤ high := lt_size.1 (sub_lt (size_pos.2 (pos_of_ne_zero hhigh)) one_pos)
  apply le_antisymm
  · rw [size_le, pow_add]
    calc low + 2 ^ k * high < 2 ^ k * (high + 1) := by rw [mul_add]; omega
      _ ≤ _ := mul_le_mul_left _ hlt
  · have : 2 ^ (k + (high.size - 1)) ≤ low + 2 ^ k * high := by
      rw [pow_add]
      exact (mul_le_mul_left _ hle).trans (le_add_left _ _)
    have := lt_size.2 this
    omega

lemma size_pred_of_pow (k : ℕ) : (2 ^ k - 1).size = k := by
  apply le_antisymm
  · rw [Nat.size_le]
    have := Nat.two_pow_pos k
    omega
  · cases k with
    | zero => exact Nat.zero_le _
    | succ k =>
      apply Nat.lt_size.2
      omega

lemma size_pred (hn : n ≠ 0) (hpow : ∀ k, n ≠ 2 ^ k) : (n - 1).size = n.size := by
  apply le_antisymm (size_le_size (sub_le n 1))
  have hsize : 0 < n.size := size_pos.2 (pos_of_ne_zero hn)
  have hle : 2 ^ (n.size - 1) ≤ n := lt_size.1 (by omega)
  have hne := hpow (n.size - 1)
  have := lt_size.2 (show 2 ^ (n.size - 1) ≤ n - 1 by omega)
  omega

lemma lower_lt (hx : x.Canonical) : value (x.digits.take (x.used - 1)) < 2 ^ (digitBits * (x.used - 1)) := by
  have hlt := value_lt (hx.bounded.take (x.used - 1))
  have hle := hx.le
  rwa [length_take, min_eq_left (by omega), digitBase_eq, ← pow_mul] at hlt

lemma size_magnitude (hx : x.Canonical) (hzero : x.used ≠ 0) :
    x.magnitude.size = digitBits * (x.used - 1) + (x.digits.getD (x.used - 1) 0).size := by
  rw [magnitude_top hx hzero, size_add_mul (lower_lt hx) (hx.top hzero)]

lemma bitLength_nonneg (hx : x.Canonical) (hsign : x.isNegative = false) : x.bitLength = x.magnitude.size := by
  rw [bitLength]
  by_cases hzero : x.used = 0
  · rw [if_pos hzero, hx.magnitude_eq_zero.2 hzero, size_zero]
  · rw [if_neg hzero, if_pos hsign, size_magnitude hx hzero]

lemma pow_split {low high k j : ℕ} (hlow : low < 2 ^ k) (hhigh : high ≠ 0) (h : low + 2 ^ k * high = 2 ^ j) :
    low = 0 ∧ high = 2 ^ (j - k) := by
  have hpos := Nat.two_pow_pos k
  have hle : 2 ^ k ≤ 2 ^ j := by
    rw [← h]
    exact (Nat.le_mul_of_pos_right _ (Nat.pos_of_ne_zero hhigh)).trans (Nat.le_add_left _ _)
  have hkj : k ≤ j := (Nat.pow_le_pow_iff_right (by decide)).1 hle
  have hspl : 2 ^ j = 2 ^ k * 2 ^ (j - k) := by rw [← pow_add, Nat.add_sub_cancel' hkj]
  have hmod := congrArg (· % 2 ^ k) h
  have hdiv := congrArg (· / 2 ^ k) h
  rw [Nat.add_mul_mod_self_left, Nat.mod_eq_of_lt hlow, hspl, Nat.mul_mod_right] at hmod
  rw [Nat.add_mul_div_left _ _ hpos, Nat.div_eq_of_lt hlow, Nat.zero_add, hspl, Nat.mul_div_cancel_left _ hpos] at hdiv
  exact ⟨hmod, hdiv⟩

lemma bitLength_neg (hx : x.Canonical) (hsign : x.isNegative = true) : x.bitLength = (x.magnitude - 1).size := by
  have hzero : x.used ≠ 0 := by
    intro hzero
    rw [hx.sign hzero] at hsign
    cases hsign
  have hmag := magnitude_top hx hzero
  have hpred : (∀ k, x.magnitude ≠ 2 ^ k) → (x.magnitude - 1).size = x.magnitude.size :=
    size_pred (mt hx.magnitude_eq_zero.1 hzero)
  rw [bitLength, if_neg hzero, if_neg (by rw [hsign]; simp), ← size_magnitude hx hzero]
  split_ifs with hhigh hlow
  · refine (hpred fun k hk => hhigh ?_).symm
    rw [hmag] at hk
    exact (and_sub_one_eq_zero_iff_isPowerOfTwo (hx.top hzero)).2 ⟨_, (pow_split (lower_lt hx) (hx.top hzero) hk).2⟩
  · refine (hpred fun k hk => any_ne_zero.1 hlow ?_).symm
    rw [hmag] at hk
    exact (pow_split (lower_lt hx) (hx.top hzero) hk).1
  · obtain ⟨k, hk⟩ := (and_sub_one_eq_zero_iff_isPowerOfTwo (hx.top hzero)).1 (not_not.1 hhigh)
    rw [any_ne_zero, not_not] at hlow
    rw [hlow, zero_add, hk, ← pow_add] at hmag
    rw [hmag, size_pow, size_pred_of_pow]
    rfl

lemma bitLength_isLeast (hx : x.Canonical) : IsLeast {w : ℕ | -2 ^ w ≤ x.val ∧ x.val < 2 ^ w} x.bitLength := by
  cases hsign : x.isNegative with
  | false =>
    have hmem (w : ℕ) : w ∈ {w : ℕ | -2 ^ w ≤ x.val ∧ x.val < 2 ^ w} ↔ x.magnitude.size ≤ w := by
      rw [size_le, Set.mem_ofPred_eq, val_of_nonneg hsign]
      constructor
      · rintro ⟨-, h⟩
        exact_mod_cast h
      · intro h
        have h' : (x.magnitude : ℤ) < 2 ^ w := by exact_mod_cast h
        omega
    rw [bitLength_nonneg hx hsign]
    exact ⟨(hmem _).2 le_rfl, fun w hw => (hmem w).1 hw⟩
  | true =>
    have hmem (w : ℕ) : w ∈ {w : ℕ | -2 ^ w ≤ x.val ∧ x.val < 2 ^ w} ↔ (x.magnitude - 1).size ≤ w := by
      rw [size_le, Set.mem_ofPred_eq, hx.val_of_neg hsign]
      constructor
      · rintro ⟨h, -⟩
        have h' : ((x.magnitude - 1 : ℕ) : ℤ) < 2 ^ w := by omega
        exact_mod_cast h'
      · intro h
        have h' : ((x.magnitude - 1 : ℕ) : ℤ) < 2 ^ w := by exact_mod_cast h
        omega
    rw [bitLength_neg hx hsign]
    exact ⟨(hmem _).2 le_rfl, fun w hw => (hmem w).1 hw⟩

end

section

lemma ldiff_mask (m w : ℕ) : Nat.ldiff (2 ^ w - 1) m = 2 ^ w - (m % 2 ^ w + 1) := by
  apply Nat.eq_of_testBit_eq
  intro i
  rw [Nat.testBit_ldiff, Nat.testBit_two_pow_sub_succ (Nat.mod_lt _ (Nat.two_pow_pos w))]
  by_cases hi : i < w
  · simp [hi]
  · simp [hi]

lemma land_mask (n : ℤ) (w : ℕ) : Int.land n (2 ^ w - 1) = n % 2 ^ w := by
  have hpos := Nat.two_pow_pos w
  have hmask : (2 : ℤ) ^ w - 1 = ((2 ^ w - 1 : ℕ) : ℤ) := by
    rw [Nat.cast_sub hpos]
    rfl
  rw [hmask]
  cases n with
  | ofNat m =>
    change ((m &&& (2 ^ w - 1) : ℕ) : ℤ) = (m : ℤ) % 2 ^ w
    rw [Nat.and_two_pow_sub_one_eq_mod]
    rfl
  | negSucc m =>
    change ((Nat.ldiff (2 ^ w - 1) m : ℕ) : ℤ) = _
    have hmod := Nat.mod_lt m hpos
    rw [ldiff_mask, negSucc_emod m (by positivity), Nat.cast_sub hmod]
    push_cast
    ring

lemma mod_two_pow_succ (m w : ℕ) : m % 2 ^ (w + 1) = m % 2 ^ w + (m.testBit w).toNat * 2 ^ w := by
  have hbit : (m.testBit w).toNat = m / 2 ^ w % 2 := by
    rw [testBit_eq_decide_div_mod_eq]
    rcases mod_two_eq_zero_or_one (m / 2 ^ w) with h | h <;> simp [h]
  rw [hbit, pow_succ, mod_mul, mul_comm]

lemma ldiff_two_pow (m w : ℕ) : Nat.ldiff (2 ^ w) m = (!m.testBit w).toNat * 2 ^ w := by
  apply Nat.eq_of_testBit_eq
  intro i
  rw [Nat.testBit_ldiff]
  by_cases hi : w = i
  · subst hi
    cases m.testBit w <;> simp
  · cases m.testBit w <;> simp [hi]

lemma land_bit (n : ℤ) (w : ℕ) : Int.land n (2 ^ w) = n % 2 ^ (w + 1) - n % 2 ^ w := by
  have hbit : (2 : ℤ) ^ w = ((2 ^ w : ℕ) : ℤ) := by push_cast; rfl
  have hmod (m : ℕ) : ((m % 2 ^ (w + 1) : ℕ) : ℤ) = ((m % 2 ^ w + (m.testBit w).toNat * 2 ^ w : ℕ) : ℤ) :=
    congrArg Nat.cast (mod_two_pow_succ m w)
  push_cast at hmod
  cases n with
  | ofNat m =>
    have hland : Int.land (Int.ofNat m) (2 ^ w) = ((m &&& 2 ^ w : ℕ) : ℤ) := by rw [hbit]; rfl
    rw [hland, and_two_pow]
    push_cast
    rw [ofNat_eq_natCast, hmod]
    ring
  | negSucc m =>
    have hland : Int.land (Int.negSucc m) (2 ^ w) = ((Nat.ldiff (2 ^ w) m : ℕ) : ℤ) := by rw [hbit]; rfl
    rw [hland, ldiff_two_pow, negSucc_emod m (by positivity), negSucc_emod m (by positivity)]
    push_cast
    rw [hmod]
    cases m.testBit w
    · simp only [Bool.not_false, Bool.toNat_true, Bool.toNat_false]
      ring
    · simp only [Bool.not_true, Bool.toNat_true, Bool.toNat_false]
      ring

lemma signExtend_spec (n : ℤ) (w : ℕ) : -2 ^ w ≤ n % 2 ^ w - (n % 2 ^ (w + 1) - n % 2 ^ w) ∧
    n % 2 ^ w - (n % 2 ^ (w + 1) - n % 2 ^ w) < 2 ^ w ∧
    n % 2 ^ w - (n % 2 ^ (w + 1) - n % 2 ^ w) ≡ n [ZMOD 2 ^ (w + 1)] := by
  have hpos : (0 : ℤ) < 2 ^ w := by positivity
  have hlow' := emod_lt_of_pos n hpos
  have hspl : n % 2 ^ (w + 1) = n % 2 ^ w + 2 ^ w * (n / 2 ^ w % 2) := by
    have hdiv := Int.emod_add_mul_ediv n (2 ^ w)
    have hbit := Int.emod_add_mul_ediv (n / 2 ^ w) 2
    refine (Int.ediv_emod_unique (q := n / 2 ^ w / 2) (by omega)).2 ⟨?_, ?_, ?_⟩ |>.2
    · linear_combination hdiv + 2 ^ w * hbit
    all_goals
      rcases Int.emod_two_eq_zero_or_one (n / 2 ^ w) with h | h <;> rw [h] <;> omega
  rcases Int.emod_two_eq_zero_or_one (n / 2 ^ w) with hbit | hbit
  · rw [hbit, mul_zero, add_zero] at hspl
    rw [hspl, sub_self, sub_zero]
    refine ⟨by omega, hlow', ?_⟩
    rw [← hspl]
    exact mod_modEq n _
  · rw [hbit] at hspl
    have heq : n % 2 ^ w - (n % 2 ^ (w + 1) - n % 2 ^ w) = n % 2 ^ (w + 1) - 2 ^ (w + 1) := by
      rw [hspl]
      ring
    refine ⟨by omega, by omega, ?_⟩
    rw [heq]
    exact (modEq_sub_modulus_iff.2 (mod_modEq n _).symm).symm

lemma toUnsigned_represents (hx : x.Canonical) (w : ℕ) :
    ∃ z, x.toUnsigned w = .ok z ∧ z.Represents (x.val % 2 ^ w) := by
  obtain ⟨mask, hmask, hrep⟩ := shiftLeft_represents one_represents.1 w
  rw [one_represents.2, one_mul] at hrep
  have hsub := sub_represents hrep.1 one_represents.1
  rw [hrep.2, one_represents.2] at hsub
  have h := and_represents hx hsub.1
  rw [hsub.2, land_mask] at h
  rw [toUnsigned, hmask]
  exact ⟨_, rfl, h⟩

lemma toSigned_represents (hx : x.Canonical) (w : ℕ) : ∃ z, x.toSigned (w + 1 : ℕ) = .ok z ∧
    z.Represents (x.val % 2 ^ w - (x.val % 2 ^ (w + 1) - x.val % 2 ^ w)) := by
  obtain ⟨mask, hmask, hrep⟩ := shiftLeft_represents one_represents.1 w
  rw [one_represents.2, one_mul] at hrep
  have hsub := sub_represents hrep.1 one_represents.1
  rw [hrep.2, one_represents.2] at hsub
  have hlow := and_represents hx hsub.1
  have hbit := and_represents hx hrep.1
  rw [hsub.2, land_mask] at hlow
  rw [hrep.2, land_bit] at hbit
  have h := sub_represents hlow.1 hbit.1
  rw [hlow.2, hbit.2] at h
  rw [toSigned, show ((w + 1 : ℕ) : ℤ) - 1 = w by omega, hmask]
  exact ⟨_, rfl, h⟩

end

lemma modEq_unique {a b m : ℤ} (hm : 0 < m) (ha : -m ≤ 2 * a ∧ 2 * a < m) (hb : -m ≤ 2 * b ∧ 2 * b < m)
    (h : a ≡ b [ZMOD m]) : a = b := by
  obtain ⟨c, hc⟩ := h.dvd
  have hzero : c = 0 := by
    rcases lt_trichotomy c 0 with hneg | hzero | hpos
    · nlinarith
    · exact hzero
    · nlinarith
  rw [hzero] at hc
  omega

theorem bigInt_twosComplement {x y : BigIntImpl} (hx : x.Canonical) (hy : y.Canonical) :
    (∀ i, (x.and y).val.testBit i = (x.val.testBit i && y.val.testBit i) ∧
      (x.or y).val.testBit i = (x.val.testBit i || y.val.testBit i) ∧
      (x.xor y).val.testBit i = (x.val.testBit i ^^ y.val.testBit i) ∧ x.not.val.testBit i = !x.val.testBit i) ∧
    (∀ n : ℕ, (∃ z, x.shiftLeft n = .ok z ∧ z.val = x.val * 2 ^ n) ∧
      ∃ z, x.shiftRight n = .ok z ∧ z.val = Int.fdiv x.val (2 ^ n)) ∧
    (∀ w : ℕ, 1 ≤ w → (∃ z, x.toUnsigned w = .ok z ∧ z.val = x.val % 2 ^ w) ∧ ∃ z, x.toSigned w = .ok z ∧
        ∀ r : ℤ, r = z.val ↔ (-2 ^ (w - 1) ≤ r ∧ r < 2 ^ (w - 1) ∧ r ≡ x.val [ZMOD 2 ^ w])) ∧
    IsLeast {w : ℕ | -2 ^ w ≤ x.val ∧ x.val < 2 ^ w} x.bitLength := by
  refine ⟨fun i => ⟨?_, ?_, ?_, ?_⟩, fun n => ⟨?_, ?_⟩, fun w hw => ⟨?_, ?_⟩, bitLength_isLeast hx⟩
  · rw [(and_represents hx hy).2, Int.testBit_land]
  · rw [(or_represents hx hy).2, Int.testBit_lor]
  · rw [(xor_represents hx hy).2, Int.testBit_lxor]
  · rw [(not_represents hx).2, Int.testBit_lnot]
  · obtain ⟨z, hz, -, hval⟩ := shiftLeft_represents hx n
    exact ⟨z, hz, hval⟩
  · obtain ⟨z, hz, -, hval⟩ := shiftRight_represents hx n
    refine ⟨z, hz, ?_⟩
    rw [hval, fdiv_eq_ediv_of_nonneg _ (by positivity)]
  · obtain ⟨z, hz, -, hval⟩ := toUnsigned_represents hx w
    exact ⟨z, hz, hval⟩
  · obtain ⟨w, rfl⟩ : ∃ v, w = v + 1 := ⟨w - 1, by omega⟩
    obtain ⟨z, hz, -, hval⟩ := toSigned_represents hx w
    obtain ⟨hlo, hhi, hmod⟩ := signExtend_spec x.val w
    rw [← hval] at hlo hhi hmod
    refine ⟨z, hz, fun r => ⟨?_, ?_⟩⟩
    · rintro rfl
      exact ⟨hlo, hhi, hmod⟩
    · rintro ⟨hlo', hhi', hmod'⟩
      rw [Nat.add_sub_cancel] at hlo' hhi'
      exact modEq_unique (by positivity) (by omega) (by omega) (hmod'.trans hmod.symm)

theorem bigInt_twosComplement_minusOne : (∃ z, minusOne.shiftRight 40 = .ok z ∧ z.val = Int.fdiv minusOne.val (2 ^ 40)) ∧
    ∃ z, minusOne.toUnsigned 8 = .ok z ∧ z.val = minusOne.val % 2 ^ 8 :=
  ⟨((bigInt_twosComplement minusOne_represents.1 one_represents.1).2.1 40).2,
    ((bigInt_twosComplement minusOne_represents.1 one_represents.1).2.2.1 8 (by decide)).1⟩

end BigIntImpl
end DartSdk.BigInt
