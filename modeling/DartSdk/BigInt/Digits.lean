import DartSdk.Library.Limbs

/-!
The static methods of `_BigIntImpl` on digits (`bigint_patch.dart`), one digit per step.  A
`Uint32List` is the list of its digits; where a method reads only the used digits of an array it is
given the list of these.  An `int` is an integer, and `wrap` stands where a sum or a product could
leave 64 bits; since wrapping commutes with `+`, `-` and `*`, one `wrap` for a whole expression is
enough.
-/

namespace DartSdk.BigInt
open List Limbs Nat

def digitBits : ℕ := 32

def digitBase : ℕ := 4294967296

inductive Error
  | rangeError
  | argumentError (message : String)
  | integerDivisionByZero
  | exception (message : String)
deriving DecidableEq

lemma ok_bind {α β : Type} (a : α) (f : α → Except Error β) : (Except.ok a >>= f) = f a := rfl

section

def wrap (x : ℤ) : ℤ := x.bmod (2 ^ 64)

def low (x : ℤ) : ℕ := (x % digitBase).toNat

def high (x : ℤ) : ℤ := x / digitBase

def newDigits (length : ℕ) : List ℕ := List.replicate (length + length % 2) 0

def filled (length : ℕ) (digits : List ℕ) : List ℕ :=
  digits ++ List.replicate (length + length % 2 - digits.length) 0

def normalize : ℕ → List ℕ → ℕ
  | 0, _ => 0
  | used + 1, digits => if digits.getD used 0 = 0 then normalize used digits else used + 1

def compareDigits (digits otherDigits : List ℕ) : ℤ :=
  if digits.length = otherDigits.length then difference digits otherDigits
  else digits.length - otherDigits.length

end

section

def absAdd : List ℕ → List ℕ → ℤ → List ℕ
  | [], _, carry => [low carry]
  | d :: ds, [], carry =>
    let carry := wrap (carry + d)
    low carry :: absAdd ds [] (high carry)
  | d :: ds, o :: os, carry =>
    let carry := wrap (carry + (d + o))
    low carry :: absAdd ds os (high carry)

def absSub : List ℕ → List ℕ → ℤ → List ℕ
  | [], _, _ => []
  | d :: ds, [], carry =>
    let carry := wrap (carry + d)
    low carry :: absSub ds [] (high carry)
  | d :: ds, o :: os, carry =>
    let carry := wrap (carry + (d - o))
    low carry :: absSub ds os (high carry)

end

section

def lowHalf (x : ℤ) : ℤ := x % 65536

def highHalf (x : ℤ) : ℤ := x / 65536

def mulAddStep (x m a : ℕ) (carry : ℤ) : ℕ × ℤ :=
  let xl := lowHalf x
  let xh := highHalf x
  let ml := lowHalf m
  let mh := highHalf m
  let ph := wrap (xh * ml + mh * xl)
  let pl := wrap (xl * ml + lowHalf ph * 65536 + a + carry)
  (low pl, wrap (high pl + highHalf ph + xh * mh))

def addCarry : List ℕ → ℤ → Except Error (List ℕ)
  | [], carry => if carry ≠ 0 then .error .rangeError else .ok []
  | a :: as, carry =>
    if carry ≠ 0 then do
      let l := wrap (a + carry)
      let as ← addCarry as (high l)
      .ok (low l :: as)
    else .ok (a :: as)

def mulAddLoop (x : ℕ) : List ℕ → List ℕ → ℤ → Except Error (List ℕ)
  | [], as, carry => addCarry as carry
  | _ :: _, [], _ => .error .rangeError
  | m :: ms, a :: as, carry => do
    let r := mulAddStep x m a carry
    let as ← mulAddLoop x ms as r.2
    .ok (r.1 :: as)

def mulAdd (x : ℕ) (multiplicandDigits accumulatorDigits : List ℕ) (j : ℕ) : Except Error (List ℕ) :=
  if x = 0 then .ok accumulatorDigits
  else do
    let as ← mulAddLoop x multiplicandDigits (accumulatorDigits.drop j) 0
    .ok (accumulatorDigits.take j ++ as)

def mulLoop (digits : List ℕ) : List ℕ → ℕ → List ℕ → Except Error (List ℕ)
  | [], _, resultDigits => .ok resultDigits
  | x :: xs, i, resultDigits => do
    let resultDigits ← mulAdd x digits resultDigits i
    mulLoop digits xs (i + 1) resultDigits

end

section

def value (ds : List ℕ) : ℕ := Limbs.value digitBase ds

abbrev Bounded (ds : List ℕ) : Prop := Limbs.Bounded digitBase ds

lemma one_lt_digitBase : 1 < digitBase := by decide

lemma digitBase_pos : 0 < digitBase := by decide

lemma value_lt {ds : List ℕ} (h : Bounded ds) : value ds < digitBase ^ ds.length := h.value_lt one_lt_digitBase

lemma value_cons (d : ℕ) (ds : List ℕ) : value (d :: ds) = d + digitBase * value ds := Limbs.value_cons d ds

lemma value_nil : value [] = 0 := rfl

lemma value_append (ds es : List ℕ) :
    value (ds ++ es) = value ds + digitBase ^ ds.length * value es := Limbs.value_append ds es

end

section Steps

lemma wrap_eq {x : ℤ} (hlo : -2 ^ 63 ≤ x) (hhi : x < 2 ^ 63) : wrap x = x := by
  apply Int.bmod_eq_of_le
  · omega
  · omega

lemma low_lt (x : ℤ) : low x < digitBase := by
  rw [low, digitBase]
  omega

lemma low_add_high (x : ℤ) : (low x : ℤ) + digitBase * high x = x := by
  rw [low, high, digitBase]
  omega

lemma propagate_cons (x : ℤ) (xs : List ℤ) (carry : ℤ) : propagate digitBase (x :: xs) carry =
    (low (carry + x) :: (propagate digitBase xs (high (carry + x))).1,
    (propagate digitBase xs (high (carry + x))).2) := rfl

variable {carry : ℤ} {ds os : List ℕ}

lemma absAdd_eq (hds : Bounded ds) (hos : Bounded os) (hcar : 0 ≤ carry ∧ carry ≤ 1) : absAdd ds os carry =
    (propagate digitBase (combine 1 ds os) carry).1 ++ [low (propagate digitBase (combine 1 ds os) carry).2] := by
  induction ds generalizing os carry with
  | nil => rfl
  | cons d ds ih =>
    obtain ⟨hd, hds⟩ := bounded_cons.1 hds
    rw [digitBase] at hd
    cases os with
    | nil =>
      rw [absAdd, wrap_eq (by omega) (by omega), combine, propagate_cons, cons_append, ih hds hos]
      rw [high, digitBase]
      omega
    | cons o os =>
      obtain ⟨ho, hos⟩ := bounded_cons.1 hos
      rw [digitBase] at ho
      rw [absAdd, wrap_eq (by omega) (by omega), combine, propagate_cons, one_mul, cons_append, ih hds hos]
      rw [high, digitBase]
      omega

lemma absSub_eq (hds : Bounded ds) (hos : Bounded os) (hcar : -1 ≤ carry ∧ carry ≤ 0) : absSub ds os carry =
    (propagate digitBase (combine (-1) ds os) carry).1 := by
  induction ds generalizing os carry with
  | nil => rfl
  | cons d ds ih =>
    obtain ⟨hd, hds⟩ := bounded_cons.1 hds
    rw [digitBase] at hd
    cases os with
    | nil =>
      rw [absSub, wrap_eq (by omega) (by omega), combine, propagate_cons, ih hds hos]
      rw [high, digitBase]
      omega
    | cons o os =>
      obtain ⟨ho, hos⟩ := bounded_cons.1 hos
      rw [digitBase] at ho
      rw [absSub, wrap_eq (by omega) (by omega), combine, propagate_cons, neg_one_mul, ← sub_eq_add_neg, ih hds hos]
      rw [high, digitBase]
      omega

lemma half_mul {p q : ℤ} (hp : 0 ≤ p ∧ p ≤ 131071) (hq : 0 ≤ q ∧ q ≤ 65535) : 0 ≤ p * q ∧ p * q ≤ 8589737985 := by
  constructor
  · exact mul_nonneg hp.1 hq.1
  · nlinarith

variable {x m a i : ℕ} {as ms : List ℕ}

lemma halves (hx : x < 2 * digitBase) : (0 ≤ lowHalf x ∧ lowHalf x ≤ 65535) ∧
    (0 ≤ highHalf x ∧ highHalf x ≤ 131071) ∧ (x : ℤ) = lowHalf x + 65536 * highHalf x := by
  rw [digitBase] at hx
  rw [lowHalf, highHalf]
  omega

lemma mulAddStep_wide (hx : x < 2 * digitBase) (hm : m < digitBase)
    (ha : a < digitBase) (hcar : 0 ≤ carry ∧ carry < 2 * digitBase) :
    mulAddStep x m a carry = (low (carry + (x * m + a)), high (carry + (x * m + a))) := by
  obtain ⟨hxl, hxh, hx'⟩ := halves hx
  obtain ⟨hml, hmh, hm'⟩ := halves (hm.trans_le (Nat.le_mul_of_pos_left _ two_pos))
  have hmh' : highHalf m ≤ 65535 := by
    rw [digitBase] at hm
    omega
  have hll := half_mul ⟨hxl.1, hxl.2.trans (by decide)⟩ hml
  have hhl := half_mul hxh hml
  have hlh := half_mul hmh hxl
  have hhh := half_mul hxh ⟨hmh.1, hmh'⟩
  have hprod : (x * m : ℤ) = lowHalf x * lowHalf m + 65536 * (highHalf x * lowHalf m + highHalf m * lowHalf x)
      + 4294967296 * (highHalf x * highHalf m) := by
    conv_lhs => rw [hx', hm']
    ring
  rw [digitBase] at ha hcar
  rw [mulAddStep, hprod]
  generalize lowHalf x * lowHalf m = p1 at *
  generalize highHalf x * lowHalf m = p2 at *
  generalize highHalf m * lowHalf x = p3 at *
  generalize highHalf x * highHalf m = p4 at *
  rw [wrap_eq (by omega : -2 ^ 63 ≤ p2 + p3) (by omega)]
  have hpl : 0 ≤ p1 + lowHalf (p2 + p3) * 65536 + a + carry ∧ p1 + lowHalf (p2 + p3) * 65536 + a + carry < 2 ^ 40 := by
    rw [lowHalf]
    omega
  rw [wrap_eq (by omega : -2 ^ 63 ≤ p1 + lowHalf (p2 + p3) * 65536 + a + carry) (by omega)]
  have hsum : (high (p1 + lowHalf (p2 + p3) * 65536 + a + carry) + highHalf (p2 + p3) + p4) =
      high (carry + (p1 + 65536 * (p2 + p3) + 4294967296 * p4 + a)) := by
    simp only [high, lowHalf, highHalf, digitBase]
    omega
  have hbound : 0 ≤ high (carry + (p1 + 65536 * (p2 + p3) + 4294967296 * p4 + a)) ∧
      high (carry + (p1 + 65536 * (p2 + p3) + 4294967296 * p4 + a)) < 2 ^ 40 := by
    simp only [high, digitBase]
    omega
  have hlow : low (p1 + lowHalf (p2 + p3) * 65536 + a + carry) =
      low (carry + (p1 + 65536 * (p2 + p3) + 4294967296 * p4 + a)) := by
    simp only [low, lowHalf, digitBase]
    omega
  rw [hsum, hlow, wrap_eq (by omega) (hbound.2.trans (by decide))]

lemma high_lt {c : ℕ} (hx : x < c * digitBase) (hm : m < digitBase)
    (ha : a < digitBase) (hcar : 0 ≤ carry ∧ carry < c * digitBase) :
    0 ≤ high (carry + (x * m + a)) ∧ high (carry + (x * m + a)) < c * digitBase := by
  have hpos : (0 : ℤ) < digitBase := by decide
  have hnon : (0 : ℤ) ≤ x * m := mul_nonneg (Int.natCast_nonneg x) (Int.natCast_nonneg m)
  rw [high]
  constructor
  · apply Int.ediv_nonneg
    · omega
    · exact hpos.le
  · rw [Int.ediv_lt_iff_lt_mul hpos]
    nlinarith

lemma mulAddStep_eq (hx : x < digitBase) (hm : m < digitBase)
    (ha : a < digitBase) (hcar : 0 ≤ carry ∧ carry < digitBase) :
    mulAddStep x m a carry = (low (carry + (x * m + a)), high (carry + (x * m + a))) ∧
    0 ≤ high (carry + (x * m + a)) ∧ high (carry + (x * m + a)) < digitBase := by
  have hhigh := high_lt (x := x) (by rwa [one_mul]) hm ha (by rwa [cast_one, one_mul])
  exact ⟨mulAddStep_wide (by omega) hm ha ⟨hcar.1, by omega⟩, hhigh⟩

lemma addCarry_eq (has : Bounded as) (hcar : 0 ≤ carry ∧ carry < digitBase)
    (hfits : value as + carry < digitBase ^ as.length) : ∃ rs, addCarry as carry = .ok rs ∧
    rs.length = as.length ∧ Bounded rs ∧ (value rs : ℤ) = value as + carry := by
  induction as generalizing carry with
  | nil =>
    rw [length_nil, pow_zero] at hfits
    have hzero : carry = 0 := by omega
    rw [addCarry, hzero]
    exact ⟨[], rfl, rfl, bounded_nil, rfl⟩
  | cons a as ih =>
    rw [addCarry]
    by_cases hzero : carry = 0
    · rw [hzero]
      exact ⟨_, rfl, rfl, has, (add_zero _).symm⟩
    · obtain ⟨ha, has⟩ := bounded_cons.1 has
      rw [value_cons, length_cons, pow_succ] at hfits
      push_cast at hfits
      rw [digitBase] at ha hcar
      have hlow := low_add_high (a + carry)
      have hhigh : 0 ≤ high (a + carry) ∧ high (a + carry) < digitBase := by
        simp only [high, digitBase]
        omega
      obtain ⟨rs, hrs, hlen, hbou, hval⟩ := ih has hhigh (by
        have hlow' : (0 : ℤ) ≤ low (a + carry) := Int.natCast_nonneg _
        nlinarith)
      rw [if_pos hzero, wrap_eq (by omega) (by omega)]
      dsimp only
      rw [hrs]
      refine ⟨_, rfl, by rw [length_cons, hlen, length_cons],
        bounded_cons.2 ⟨low_lt _, hbou⟩, ?_⟩
      rw [value_cons, value_cons]
      push_cast
      rw [hval]
      linear_combination hlow

section
variable (hx : x < digitBase) (hms : Bounded ms) (has : Bounded as)
include hx hms has

lemma mulAddLoop_eq (hlen : ms.length ≤ as.length) (hcar : 0 ≤ carry ∧ carry < digitBase)
    (hfits : value as + x * value ms + carry < digitBase ^ as.length) :
    ∃ rs, mulAddLoop x ms as carry = .ok rs ∧ rs.length = as.length ∧ Bounded rs ∧
    (value rs : ℤ) = value as + x * value ms + carry := by
  induction ms generalizing as carry with
  | nil => exact addCarry_eq has hcar hfits
  | cons m ms ih =>
    cases as with
    | nil => cases hlen
    | cons a as =>
      obtain ⟨hm, hms⟩ := bounded_cons.1 hms
      obtain ⟨ha, has⟩ := bounded_cons.1 has
      obtain ⟨hstep, hhigh⟩ := mulAddStep_eq hx hm ha hcar
      rw [value_cons, value_cons, length_cons, pow_succ] at hfits
      push_cast at hfits
      have hlow := low_add_high (carry + (x * m + a))
      obtain ⟨rs, hrs, hlen', hbou, hval⟩ := ih hms has (le_of_succ_le_succ hlen) hhigh (by
        nlinarith)
      rw [mulAddLoop, hstep]
      rw [hrs]
      refine ⟨_, rfl, by rw [length_cons, hlen', length_cons],
        bounded_cons.2 ⟨low_lt _, hbou⟩, ?_⟩
      rw [value_cons, value_cons, value_cons]
      push_cast
      rw [hval]
      linear_combination hlow

lemma mulAdd_eq {j : ℕ}
    (hlen : j + ms.length ≤ as.length) (hfits : value as + digitBase ^ j * (x * value ms) < digitBase ^ as.length) :
    ∃ rs, mulAdd x ms as j = .ok rs ∧ rs.length = as.length ∧ Bounded rs ∧
    value rs = value as + digitBase ^ j * (x * value ms) := by
  rw [mulAdd]
  by_cases hzero : x = 0
  · rw [hzero]
    exact ⟨as, rfl, rfl, has, by rw [zero_mul, mul_zero, add_zero]⟩
  have hspl : value as = value (as.take j) + digitBase ^ j * value (as.drop j) := value_take_drop as j (by omega)
  have hfits' : value (as.drop j) + x * value ms < digitBase ^ (as.drop j).length := by
    rw [length_drop]
    apply lt_of_mul_lt_mul_left _ (zero_le (digitBase ^ j))
    rw [← pow_add, show j + (as.length - j) = as.length by omega, mul_add]
    omega
  obtain ⟨rs, hrs, hlen', hbou, hval⟩ := mulAddLoop_eq hx hms (has.drop j)
    (by rw [length_drop]; omega) ⟨le_rfl, by decide⟩ (by rw [add_zero]; exact_mod_cast hfits')
  rw [if_neg hzero, hrs]
  refine ⟨_, rfl, ?_, bounded_append.2 ⟨has.take j, hbou⟩, ?_⟩
  · rw [length_append, hlen', length_take, length_drop]
    omega
  · have hval' : value rs = value (as.drop j) + x * value ms := by exact_mod_cast hval
    rw [value_append, hval', hspl, length_take, min_eq_left (by omega)]
    ring

end

section
variable (hds : Bounded ds)
include hds

lemma mulStep_lt {v : ℕ} (hx : x < digitBase)
    (hlt : v < digitBase ^ (i + ds.length)) : v + digitBase ^ i * (x * value ds) < digitBase ^ (i + 1 + ds.length) := by
  have hds' := value_lt hds
  rw [pow_add] at hlt
  rw [show i + 1 + ds.length = i + (ds.length + 1) by omega, pow_add, pow_succ]
  have hsum : v + digitBase ^ i * (x * value ds) <
      digitBase ^ i * (digitBase ^ ds.length + x * digitBase ^ ds.length) := by
    rw [mul_add]
    apply add_lt_add_of_lt_of_le hlt
    exact mul_le_mul_left _ (mul_le_mul_left _ hds'.le)
  refine hsum.trans_le (mul_le_mul_left _ ?_)
  nlinarith

lemma mulLoop_eq {xs : List ℕ} (hxs : Bounded xs)
    (has : Bounded as) (hlen : i + ds.length + xs.length ≤ as.length) (hlt : value as < digitBase ^ (i + ds.length)) :
    ∃ rs, mulLoop ds xs i as = .ok rs ∧ rs.length = as.length ∧ Bounded rs ∧
    value rs = value as + digitBase ^ i * (value ds * value xs) := by
  induction xs generalizing i as with
  | nil => exact ⟨as, rfl, rfl, has, by rw [value_nil, mul_zero, mul_zero, add_zero]⟩
  | cons x xs ih =>
    obtain ⟨hx, hxs⟩ := bounded_cons.1 hxs
    rw [length_cons] at hlen
    have hstep := mulStep_lt hds hx hlt
    obtain ⟨rs, hrs, hlen', hbou, hval⟩ := mulAdd_eq hx hds has (by omega) (hstep.trans_le
      (Nat.pow_le_pow_right digitBase_pos (by omega)))
    obtain ⟨rs', hrs', hlen'', hbou', hval'⟩ := ih (i := i + 1) hxs hbou (by omega) (by rw [hval]; exact hstep)
    rw [mulLoop, hrs]
    refine ⟨rs', hrs', hlen''.trans hlen', hbou', ?_⟩
    rw [hval', hval, value_cons]
    ring

lemma absAdd_spec (hos : Bounded os) (hle : os.length ≤ ds.length) :
    (absAdd ds os 0).length = ds.length + 1 ∧ Bounded (absAdd ds os 0) ∧
    value (absAdd ds os 0) = value ds + value os := by
  have hval := propagate_value digitBase_pos (Limbs.combine 1 ds os) 0
  have hbou := propagate_bounded digitBase_pos (Limbs.combine 1 ds os) 0
  have hleng := propagate_length (b := digitBase) (Limbs.combine 1 ds os) 0
  rw [weigh_combine 1 hle, combine_length, one_mul] at hval
  rw [combine_length] at hleng
  rw [absAdd_eq hds hos ⟨le_rfl, by decide⟩]
  generalize Limbs.propagate digitBase (Limbs.combine 1 ds os) 0 = r at *
  refine ⟨by rw [length_append, hleng]; rfl, ?_, ?_⟩
  · exact bounded_append.2 ⟨hbou, bounded_cons.2 ⟨low_lt _, bounded_nil⟩⟩
  -- The last carry is a digit: it is at most one.
  · have hds' : (value ds : ℤ) < digitBase ^ ds.length := by exact_mod_cast value_lt hds
    have hos' : (value os : ℤ) < digitBase ^ ds.length := by
      exact_mod_cast (value_lt hos).trans_le (Nat.pow_le_pow_right digitBase_pos hle)
    have hr : (value r.1 : ℤ) < digitBase ^ ds.length := by
      have := value_lt hbou
      rw [hleng] at this
      exact_mod_cast this
    have hr' : (0 : ℤ) ≤ value r.1 := Int.natCast_nonneg _
    change (value r.1 : ℤ) + (digitBase : ℤ) ^ ds.length * r.2 = value ds + value os at hval
    have hlo : -1 < r.2 := by
      by_contra hcon
      nlinarith [Int.natCast_nonneg (value ds), Int.natCast_nonneg (value os)]
    have hhi : r.2 < 2 := by
      by_contra hcon
      nlinarith
    have hlow : (low r.2 : ℤ) = r.2 := by
      rw [low, digitBase]
      omega
    have hsum : (value (r.1 ++ [low r.2]) : ℤ) = value ds + value os := by
      rw [value_append, value_cons, value_nil, hleng]
      push_cast
      rw [hlow, ← hval]
      ring
    exact_mod_cast hsum

lemma absSub_spec (hos : Bounded os) (hlen : os.length ≤ ds.length) (hle : value os ≤ value ds) :
    (absSub ds os 0).length = ds.length ∧ Bounded (absSub ds os 0) ∧ value (absSub ds os 0) = value ds - value os := by
  have hwei := weigh_combine (b := digitBase) (-1) hlen
  have hlt : (value ds : ℤ) < digitBase ^ ds.length := by exact_mod_cast value_lt hds
  change Limbs.weigh digitBase (Limbs.combine (-1) ds os) = value ds + -1 * value os at hwei
  rw [absSub_eq hds hos ⟨by decide, le_rfl⟩]
  refine ⟨by rw [propagate_length, combine_length], propagate_bounded digitBase_pos _ _, ?_⟩
  have hnon : 0 ≤ Limbs.weigh digitBase (Limbs.combine (-1) ds os) + 0 := by omega
  have hexa := (propagate_exact one_lt_digitBase hnon (by rw [hwei, combine_length]; omega)).2
  rw [value]
  omega

end
end Steps
end DartSdk.BigInt
