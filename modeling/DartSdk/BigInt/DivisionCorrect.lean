import DartSdk.BigInt.Division
import DartSdk.Library.Schoolbook

namespace DartSdk.BigInt
open Schoolbook List Nat BigIntImpl Limbs

section
variable {ds : List ℕ}

lemma value_div_pow (h : Bounded ds) (i : ℕ) : value ds / digitBase ^ i = value (ds.drop i) :=
  ofDigits_div_pow_eq_ofDigits_drop i digitBase_pos ds h

lemma value_mod_pow (h : Bounded ds) (i : ℕ) : value ds % digitBase ^ i = value (ds.take i) :=
  ofDigits_mod_pow_eq_ofDigits_take i digitBase_pos ds h

lemma value_take_lt (h : Bounded ds) (u : ℕ) : value (ds.take u) < digitBase ^ u := by
  rw [← value_mod_pow h]
  exact Nat.mod_lt _ (Nat.pow_pos digitBase_pos)

variable {i u : ℕ}

lemma getD_eq_digit (h : Bounded ds) (hi : i < u) : ds.getD i 0 = value (ds.take u) / digitBase ^ i % digitBase := by
  rw [value_div_pow (h.take u)]
  have hget : (ds.take u)[i]? = ds[i]? := List.getElem?_take_of_lt hi
  rw [getD_eq_getElem?_getD]
  cases hd : ds[i]? with
  | none =>
    rw [hd] at hget
    rw [drop_eq_nil_iff.2 (List.getElem?_eq_none_iff.1 hget)]
    rfl
  | some d =>
    rw [hd] at hget
    obtain ⟨hlt, hget⟩ := List.getElem?_eq_some_iff.1 hget
    rw [drop_eq_getElem_cons hlt, value_cons, hget, add_mul_mod_self_left, mod_eq_of_lt (h d (mem_of_getElem? hd))]
    rfl

lemma getD_pair (h : Bounded ds) :
    ds.getD (i + 1) 0 * digitBase + ds.getD i 0 = value (ds.take (i + 2)) / digitBase ^ i := by
  have hlt := value_take_lt h (i + 2)
  have hdiv : value (ds.take (i + 2)) / digitBase ^ i < digitBase ^ 2 := by
    rw [Nat.div_lt_iff_lt_mul (Nat.pow_pos digitBase_pos), ← pow_add, Nat.add_comm 2 i]
    exact hlt
  rw [getD_eq_digit h (show i < i + 2 by omega), getD_eq_digit h (show i + 1 < i + 2 by omega), pow_succ,
    ← Nat.div_div_eq_div_mul]
  generalize value (ds.take (i + 2)) / digitBase ^ i = w at hdiv
  have hmod := Nat.mod_add_div w digitBase
  have hhigh : w / digitBase < digitBase := by
    rw [Nat.div_lt_iff_lt_mul digitBase_pos]
    exact hdiv
  rw [Nat.mod_eq_of_lt hhigh, Nat.mul_comm]
  omega

lemma value_split (hu : u ≤ ds.length) :
    value ds = value (ds.take u) + digitBase ^ u * value (ds.drop u) := value_take_drop ds u hu

lemma mulAdd_low {x j : ℕ} {ms as : List ℕ} (hx : x < digitBase) (hms : Bounded ms) (has : Bounded as)
    (hu : u ≤ as.length) (hlen : j + ms.length ≤ u)
    (hfits : value (as.take u) + digitBase ^ j * (x * value ms) < digitBase ^ u) :
    ∃ rs, mulAdd x ms as j = .ok rs ∧ rs.length = as.length ∧ Bounded rs ∧
    value (rs.take u) = value (as.take u) + digitBase ^ j * (x * value ms) := by
  have hspl := value_split hu
  have hhigh : value (as.drop u) + 1 ≤ digitBase ^ (as.length - u) := by
    have := value_lt (has.drop u)
    rwa [length_drop] at this
  have hpow : digitBase ^ as.length = digitBase ^ u * digitBase ^ (as.length - u) := by
    rw [← pow_add, Nat.add_sub_cancel' hu]
  have htot : value as + digitBase ^ j * (x * value ms) < digitBase ^ as.length := by
    have := mul_le_mul_left (digitBase ^ u) hhigh
    rw [mul_add] at this
    omega
  obtain ⟨rs, hrs, hleng, hbou, hval⟩ := mulAdd_eq hx hms has (by omega) htot
  refine ⟨rs, hrs, hleng, hbou, ?_⟩
  rw [← value_mod_pow hbou, hval, hspl,
    show value (as.take u) + digitBase ^ u * value (as.drop u) + digitBase ^ j * (x * value ms) =
      value (as.take u) + digitBase ^ j * (x * value ms) + digitBase ^ u * value (as.drop u) by ring,
    add_mul_mod_self_left, mod_eq_of_lt hfits]

lemma subInPlace_low {ds os : List ℕ} (hds : Bounded ds) (hos : Bounded os) (hu : u ≤ ds.length)
    (hlen : os.length ≤ u) (hle : value os ≤ value (ds.take u)) :
    (subInPlace ds u os).length = ds.length ∧ Bounded (subInPlace ds u os) ∧
    value ((subInPlace ds u os).take u) = value (ds.take u) - value os := by
  have htake : (ds.take u).length = u := by rw [length_take, min_eq_left hu]
  obtain ⟨hleng, hbou, hval⟩ := absSub_spec (hds.take u) hos (by rw [htake]; exact hlen) hle
  rw [htake] at hleng
  rw [subInPlace]
  refine ⟨?_, bounded_append.2 ⟨hbou, hds.drop u⟩, ?_⟩
  · rw [length_append, length_drop]
    omega
  · rw [take_left' hleng, hval]

end

section
variable {n u Y : ℕ} {ny : List ℕ}

structure Holds (n u Y : ℕ) (j r high t : ℕ) (ds : List ℕ) : Prop where
  bounded : Bounded ds
  le : u ≤ ds.length
  low : value (ds.take u) = accumulated digitBase n j r Y t + digitBase ^ (n + j + 1) * high

variable {ds : List ℕ}
variable {j r high t top X : ℕ}

lemma Holds.digit (h : Holds n u Y j r high t ds) (hu : n + j < u)
    (hY : Y ≤ digitBase ^ n) (hpos : 0 < Y) (hle : r / (Y * digitBase ^ j) ≤ t) (ht : t < digitBase) :
    ds.getD (n + j) 0 = accumulated digitBase n j r Y t / digitBase ^ (n + j) := by
  have hlt := accumulated_lt digitBase_pos hY hpos hle
  have hpow : 0 < digitBase ^ (n + j) := Nat.pow_pos digitBase_pos
  have hdigit : accumulated digitBase n j r Y t / digitBase ^ (n + j) < digitBase := by
    rw [Nat.div_lt_iff_lt_mul hpow, Nat.mul_comm digitBase]
    exact hlt.trans_le (Nat.mul_le_mul_left _ ht)
  rw [getD_eq_digit h.bounded hu, h.low, pow_succ, Nat.mul_assoc, Nat.add_mul_div_left _ _ hpow,
    Nat.add_mul_mod_self_left, Nat.mod_eq_of_lt hdigit]

lemma correct_holds (hny : Bounded ny) (hnyLen : ny.length = n)
    (hnyValue : value ny = digitBase ^ n - Y) (hY : Y ≤ digitBase ^ n) (hpos : 0 < Y) (hu : n + j < u)
    (ht : t < digitBase) (hle : r / (Y * digitBase ^ j) ≤ t) (h : Holds n u Y j r high t ds) :
    Holds n u Y j r high (r / (Y * digitBase ^ j)) (correct (replicate j 0 ++ ny) u (n + j) t ds) ∧
    (correct (replicate j 0 ++ ny) u (n + j) t ds).length = ds.length := by
  induction t generalizing ds with
  | zero =>
    rw [le_zero.1 hle]
    exact ⟨h, rfl⟩
  | succ t ih =>
    have hiff := digit_lt_iff (r := r) (j := j) digitBase_pos hY hpos (t + 1)
    rw [← h.digit hu hY hpos hle ht] at hiff
    rw [correct]
    by_cases hlt : ds.getD (n + j) 0 < t + 1
    · have htmp : value (replicate j 0 ++ ny) = digitBase ^ j * (digitBase ^ n - Y) := by
        rw [value_zeros_append, hnyValue]
      have hsucc := accumulated_succ (b := digitBase) (n := n) (j := j) (r := r) (y := Y) t
      have hlow := h.low
      obtain ⟨hleng, hbou, hval⟩ := subInPlace_low h.bounded (zeros_append_bounded j hny) h.le
        (by rw [length_append, length_replicate, hnyLen]; omega) (by rw [htmp, hlow]; omega)
      rw [if_pos hlt]
      have hsub : Holds n u Y j r high t (subInPlace ds u (replicate j 0 ++ ny)) :=
        ⟨hbou, by rw [hleng]; exact h.le, by rw [hval, htmp, hlow]; omega⟩
      obtain ⟨hhol, hleng'⟩ := ih (by omega) (Nat.lt_succ_iff.1 (hiff.1 hlt)) hsub
      exact ⟨hhol, hleng'.trans hleng⟩
    · have heq : r / (Y * digitBase ^ j) = t + 1 := by omega
      rw [if_neg hlt, heq]
      exact ⟨h, rfl⟩

lemma estimate_spec (hds : Bounded ds) (htop : 2 ≤ top) {i q : ℕ} (hi : 0 < i)
    (hq : q < digitBase) (h : q * top ≤ value (ds.take (i + 1)) / digitBase ^ (i - 1)) :
    q ≤ estimateQuotientDigit top ds i ∧ estimateQuotientDigit top ds i < digitBase := by
  obtain ⟨i, rfl⟩ : ∃ k, i = k + 1 := ⟨i - 1, by omega⟩
  rw [Nat.add_sub_cancel] at h
  have hpair := getD_pair hds (i := i)
  rw [← hpair] at h
  have hchop : (ds.getD (i + 1) 0 <<< (digitBits - 1)) ||| (ds.getD (i + 1 - 1) 0 >>> 1) =
      (ds.getD (i + 1) 0 * digitBase + ds.getD i 0) / 2 := by
    have hlow : ds.getD i 0 / 2 < 2 ^ 31 := by
      have := hds.getD digitBase_pos i
      rw [digitBase] at this
      omega
    rw [Nat.add_sub_cancel, shiftRight_eq_div_pow, shiftLeft_eq, digitBits, Nat.mul_comm,
      ← two_pow_add_eq_or_of_lt hlow, digitBase]
    omega
  have hest := quotient_le_estimate htop h
  rw [estimateQuotientDigit]
  dsimp only
  rw [hchop, shiftRight_eq_div_pow, pow_one]
  split_ifs
  · omega
  · omega
  · omega

structure Dividing (n u Y X j : ℕ) (ds : List ℕ) : Prop where
  bounded : Bounded ds
  le : u ≤ ds.length
  digits : n + j ≤ u
  parts : ∃ r q, value (ds.take u) = r + digitBase ^ (n + j) * q ∧ r < Y * digitBase ^ j ∧
    X = q * (Y * digitBase ^ j) + r

section
variable (hny : Bounded ny) (hnyLen : ny.length = n) (hnyValue : value ny = digitBase ^ n - Y) (hY : Y ≤ digitBase ^ n)
  (hn : 0 < n) (htop : 2 ≤ top) (htopY : top * digitBase ^ (n - 1) ≤ Y)
include hny hnyLen hnyValue hY hn htop htopY

lemma Dividing.step (h : Dividing n u Y X (j + 1) ds) :
    ∃ rs, mulAdd (estimateQuotientDigit top ds (n + j)) ny ds j = .ok rs ∧
    (correct (replicate j 0 ++ ny) u (n + j) (estimateQuotientDigit top ds (n + j)) rs).length = ds.length ∧
    Dividing n u Y X j (correct (replicate j 0 ++ ny) u (n + j) (estimateQuotientDigit top ds (n + j)) rs) := by
  obtain ⟨hbou, hu, hdig, r, Q, hlow, hr, hX⟩ := h
  have hbase := digitBase_pos
  have hpos : 0 < Y := by
    have := Nat.mul_pos (show 0 < top by omega) (Nat.pow_pos (n := n - 1) hbase)
    omega
  have hYpow : Y * digitBase ^ (j + 1) = digitBase * (Y * digitBase ^ j) := by rw [pow_succ]; ring
  have hdivisor : 0 < Y * digitBase ^ j := Nat.mul_pos hpos (Nat.pow_pos hbase)
  set q := r / (Y * digitBase ^ j) with hq
  have hqlt : q < digitBase := by
    rw [Nat.div_lt_iff_lt_mul hdivisor, ← hYpow]
    exact hr
  -- The remainder has `n + j + 1` digits.
  have hrlt : r < digitBase ^ (n + j + 1) := by
    apply hr.trans_le
    rw [add_assoc, pow_add digitBase n (j + 1)]
    exact Nat.mul_le_mul_right _ hY
  have hspl : digitBase ^ u = digitBase ^ (n + j + 1) * digitBase ^ (u - (n + j + 1)) := by
    rw [← pow_add, Nat.add_sub_cancel' (by omega)]
  have htake : value (ds.take (n + j + 1)) = r := by
    rw [← value_mod_pow hbou, value_split hu, hlow]
    rw [hspl, Nat.mul_assoc, Nat.add_mul_mod_self_left]
    exact (Nat.add_mul_mod_self_left _ _ _).trans (Nat.mod_eq_of_lt hrlt)
  have hest := estimate_spec (i := n + j) hbou htop (by omega) hqlt (by
    rw [htake, Nat.le_div_iff_mul_le (Nat.pow_pos hbase), show n + j - 1 = n - 1 + j by omega, pow_add]
    calc q * top * (digitBase ^ (n - 1) * digitBase ^ j) = q * (top * digitBase ^ (n - 1)) * digitBase ^ j := by ring
      _ ≤ q * Y * digitBase ^ j := Nat.mul_le_mul_right _ (Nat.mul_le_mul_left _ htopY)
      _ = Y * digitBase ^ j * q := by ring
      _ ≤ r := mul_div_le r _)
  set qh := estimateQuotientDigit top ds (n + j)
  have hacc := accumulated_lt hbase hY hpos hest.1
  have hsum : value (ds.take u) + digitBase ^ j * (qh * value ny) =
      accumulated digitBase n j r Y qh + digitBase ^ (n + j + 1) * Q := by
    rw [hlow, hnyValue, accumulated]
    ring
  have hfits : value (ds.take u) + digitBase ^ j * (qh * value ny) < digitBase ^ u := by
    rw [hsum]
    have hhigh : Q < digitBase ^ (u - (n + j + 1)) := by
      have hlt := value_take_lt hbou u
      rw [hlow, hspl] at hlt
      exact lt_of_mul_lt_mul_left ((Nat.le_add_left _ r).trans_lt hlt) (zero_le _)
    calc accumulated digitBase n j r Y qh + digitBase ^ (n + j + 1) * Q
        < digitBase ^ (n + j) * (qh + 1) + digitBase ^ (n + j + 1) * Q := by omega
      _ ≤ digitBase ^ (n + j) * digitBase + digitBase ^ (n + j + 1) * Q :=
        Nat.add_le_add_right (Nat.mul_le_mul_left _ hest.2) _
      _ = digitBase ^ (n + j + 1) * (Q + 1) := by ring
      _ ≤ digitBase ^ (n + j + 1) * digitBase ^ (u - (n + j + 1)) := Nat.mul_le_mul_left _ hhigh
      _ = digitBase ^ u := hspl.symm
  obtain ⟨rs, hrs, hleng, hbou', hval⟩ := mulAdd_low hest.2 hny hbou hu (by rw [hnyLen]; omega) hfits
  have hhol : Holds n u Y j r Q qh rs := ⟨hbou', by rw [hleng]; exact hu, by rw [hval, hsum]⟩
  obtain ⟨⟨hb, hle, hend⟩, hleng'⟩ := correct_holds hny hnyLen hnyValue hY hpos (by omega) hest.2 hest.1 hhol
  refine ⟨rs, hrs, hleng'.trans hleng, hb, hle, by omega, r % (Y * digitBase ^ j), q + digitBase * Q, ?_,
    Nat.mod_lt _ hdivisor, ?_⟩
  · rw [hend, accumulated_exact hY]
    ring
  · have hmod := Nat.mod_add_div r (Y * digitBase ^ j)
    rw [hX, hYpow]
    calc Q * (digitBase * (Y * digitBase ^ j)) + r
        = Q * (digitBase * (Y * digitBase ^ j)) + (r % (Y * digitBase ^ j) + Y * digitBase ^ j * q) := by rw [hmod]
      _ = (q + digitBase * Q) * (Y * digitBase ^ j) + r % (Y * digitBase ^ j) := by ring

lemma divLoop_spec (h : Dividing n u Y X j ds) :
    ∃ rs, divLoop top ny u j (n + j - 1) ds = .ok rs ∧ rs.length = ds.length ∧ Dividing n u Y X 0 rs := by
  induction j generalizing ds with
  | zero => exact ⟨ds, rfl, rfl, h⟩
  | succ j ih =>
    obtain ⟨rs, hrs, hleng, hnext⟩ := h.step hny hnyLen hnyValue hY hn htop htopY
    obtain ⟨rs', hrs', hleng', hend⟩ := ih hnext
    refine ⟨rs', ?_, hleng'.trans hleng, hend⟩
    rw [divLoop, show n + (j + 1) - 1 = n + j by omega, hrs]
    exact hrs'

end

lemma Dividing.result (hY : Y ≤ digitBase ^ n) (h : Dividing n u Y X 0 ds) :
    value ((ds.take u).drop n) = X / Y ∧ value (ds.take n) = X % Y := by
  obtain ⟨hbou, hu, hdig, r, q, hlow, hr, hX⟩ := h
  rw [pow_zero, Nat.mul_one] at hr hX
  rw [Nat.add_zero] at hlow hdig
  have hpos : 0 < Y := by omega
  have hdiv : X / Y = q := by rw [hX, Nat.mul_comm, mul_add_div hpos, Nat.div_eq_of_lt hr, Nat.add_zero]
  have hmod : X % Y = r := by rw [hX, Nat.mul_comm, mul_add_mod, Nat.mod_eq_of_lt hr]
  have hrlt : r < digitBase ^ n := hr.trans_le hY
  constructor
  · rw [← value_div_pow (hbou.take u), hlow, Nat.add_mul_div_left _ _ (Nat.pow_pos digitBase_pos),
      Nat.div_eq_of_lt hrlt, Nat.zero_add, hdiv]
  · rw [show ds.take n = (ds.take u).take n by rw [take_take, Nat.min_eq_left hdig],
      ← value_mod_pow (hbou.take u), hlow, Nat.add_mul_mod_self_left, Nat.mod_eq_of_lt hrlt, hmod]

end

section
variable {ds : List ℕ} {u n : ℕ}

lemma set_bounded (h : Bounded ds) {d : ℕ} (hd : d < digitBase) (i : ℕ) : Bounded (ds.set i d) := by
  intro e he
  rcases mem_or_eq_of_mem_set he with he | rfl
  · exact h e he
  · exact hd

lemma value_take_set (hu : u < ds.length) (d : ℕ) :
    value ((ds.set u d).take (u + 1)) = value (ds.take u) + digitBase ^ u * d := by
  rw [value_take_succ (by rw [length_set]; exact hu), take_set_of_le (le_refl u),
    getD_eq_getElem _ _ (by rw [length_set]; exact hu), getElem_set_self]

lemma clearOdd_spec (h : Bounded ds) (heven : ds.length % 2 = 0) (hu : u ≤ ds.length) :
    ∃ rs, clearOdd ds u = .ok rs ∧ rs.length = ds.length ∧ Bounded rs ∧ rs.take u = ds.take u ∧
    (u % 2 = 1 → rs.getD u 0 = 0) := by
  rw [clearOdd]
  split_ifs with hodd
  · have hlt : u < ds.length := by omega
    refine ⟨ds.set u 0, if_pos hlt, length_set, set_bounded h digitBase_pos u, take_set_of_le (le_refl u), fun _ => ?_⟩
    rw [getD_eq_getElem _ _ (by rw [length_set]; exact hlt), getElem_set_self]
  · exact ⟨ds, rfl, rfl, h, rfl, fun h => absurd h hodd⟩

variable {xs ds : List ℕ}

lemma writeDigits_spec (hxs : Bounded xs) (hds : Bounded ds) (hle : xs.length ≤ ds.length) :
    ∃ rs, writeDigits xs ds = .ok rs ∧ rs.length = ds.length ∧ Bounded rs ∧ rs.take xs.length = xs := by
  refine ⟨xs ++ ds.drop xs.length, if_pos hle, ?_, bounded_append.2 ⟨hxs, hds.drop _⟩, take_left⟩
  rw [length_append, length_drop]
  omega

structure Shifted (xs : List ℕ) (n : ℕ) (ds rs : List ℕ) (u : ℕ) : Prop where
  length : rs.length = ds.length
  bounded : Bounded rs
  low : value (rs.take u) = 2 ^ n * value xs
  ge : xs.length + n / digitBits ≤ u
  le : u ≤ xs.length + (n + digitBits - 1) / digitBits
  top : xs.length + n / digitBits < u → digitBase ^ (xs.length + n / digitBits) ≤ 2 ^ n * value xs
  pad : u % 2 = 1 → rs.getD u 0 = 0

lemma dlShiftDigits_spec (hxs : Bounded xs) (hne : xs.length ≠ 0)
    (hds : Bounded ds) (heven : ds.length % 2 = 0) (hle : xs.length + n ≤ ds.length) :
    ∃ rs, dlShiftDigits xs n ds = .ok (rs, xs.length + n) ∧ rs.length = ds.length ∧ Bounded rs ∧
    value (rs.take (xs.length + n)) = digitBase ^ n * value xs ∧
    ((xs.length + n) % 2 = 1 → rs.getD (xs.length + n) 0 = 0) := by
  have hlen : (replicate n 0 ++ xs).length = xs.length + n := by rw [length_append, length_replicate, add_comm]
  obtain ⟨rs, hrs, hleng, hbou, htake⟩ := writeDigits_spec (zeros_append_bounded n hxs) hds (by rw [hlen]; exact hle)
  obtain ⟨rs', hrs', hleng', hbou', htake', hpad⟩ := clearOdd_spec (u := xs.length + n) hbou
    (by rw [hleng]; exact heven) (by rw [hleng]; exact hle)
  refine ⟨rs', ?_, hleng'.trans hleng, hbou', ?_, hpad⟩
  · rw [dlShiftDigits, if_neg hne]
    rw [hrs]
    change (do
      let rs ← clearOdd rs (xs.length + n)
      .ok (rs, xs.length + n)) = _
    rw [hrs']
    rfl
  · rw [hlen] at htake
    rw [htake', htake, value_zeros_append]

lemma lsh_digits {xs : List ℕ} (hxs : Bounded xs) (n : ℕ) :
    (lsh xs n).length = xs.length + n / digitBits + 1 ∧ Bounded (lsh xs n) ∧ value (lsh xs n) = 2 ^ n * value xs := by
  obtain ⟨hleng, hbou, hcar, -, hval⟩ := lshLoop_spec (k := n % digitBits) (mod_lt n (by decide)).le hxs
  rw [lsh]
  refine ⟨?_, zeros_append_bounded _ (bounded_cons.2 ⟨hcar, hbou⟩), ?_⟩
  · rw [length_append, length_replicate, length_cons]
    omega
  · rw [value_zeros_append, hval, two_pow_split n, mul_assoc]

lemma lShiftDigits_spec (hxs : Bounded xs) (hne : xs.length ≠ 0)
    (hds : Bounded ds) (heven : ds.length % 2 = 0) (hle : xs.length + (n + digitBits - 1) / digitBits ≤ ds.length) :
    ∃ rs u, lShiftDigits xs n ds = .ok (rs, u) ∧ Shifted xs n ds rs u := by
  rw [lShiftDigits]
  rw [digitBits] at hle ⊢
  by_cases hbits : n % 32 = 0
  · obtain ⟨rs, hrs, hleng, hbou, hval, hpad⟩ := dlShiftDigits_spec (n := n / 32) hxs hne hds heven (by omega)
    refine ⟨rs, _, by rw [if_pos hbits, hrs], hleng, hbou, ?_, ?_, ?_, ?_, hpad⟩
    · have hpow := two_pow_split n
      rw [digitBits, hbits, pow_zero, Nat.mul_one] at hpow
      rw [hval, hpow]
    · rw [digitBits]
    · rw [digitBits]
      omega
    · rw [digitBits]
      intro hlt
      omega
  · obtain ⟨hlen, hbou, hval⟩ := lsh_digits hxs n
    rw [digitBits] at hlen
    obtain ⟨rs, hrs, hleng, hbou', htake⟩ := writeDigits_spec hbou hds (by rw [hlen]; omega)
    rw [hlen] at htake
    rw [if_neg hbits]
    rw [hrs]
    have hsucc := value_take_succ (show xs.length + n / 32 < rs.length by omega)
    rw [htake, hval] at hsucc
    by_cases hzero : rs.getD (xs.length + n / 32 + 1 - 1) 0 = 0
    · rw [Nat.add_sub_cancel] at hzero
      refine ⟨rs, xs.length + n / 32, ?_, hleng, hbou', ?_, ?_, ?_, ?_, fun _ => hzero⟩
      · change (if rs.getD (xs.length + n / 32 + 1 - 1) 0 = 0 then _ else _) = _
        rw [Nat.add_sub_cancel, if_pos hzero]
      · rw [hsucc, hzero, Nat.mul_zero, Nat.add_zero]
      · rw [digitBits]
      · rw [digitBits]
        omega
      · rw [digitBits]
        intro hlt
        omega
    · obtain ⟨rs', hrs', hleng', hbou'', htake', hpad⟩ := clearOdd_spec (u := xs.length + n / 32 + 1)
        hbou' (by rw [hleng]; exact heven) (by rw [hleng]; omega)
      refine ⟨rs', xs.length + n / 32 + 1, ?_, hleng'.trans hleng, hbou'', ?_, ?_, ?_, ?_, hpad⟩
      · change (if rs.getD (xs.length + n / 32 + 1 - 1) 0 = 0 then _ else _) = _
        rw [if_neg hzero]
        rw [hrs']
        rfl
      · rw [htake', htake, hval]
      · rw [digitBits]
        omega
      · rw [digitBits]
        omega
      · rw [digitBits, hsucc]
        intro _
        rw [Nat.add_sub_cancel] at hzero
        exact (Nat.le_mul_of_pos_right _ (Nat.pos_of_ne_zero hzero)).trans (Nat.le_add_left _ _)

end

section

structure Normalized (ys ny : List ℕ) : Prop where
  bounded : Bounded ys
  even : ys.length % 2 = 0
  pos : 0 < ys.length
  top : 2 ^ 31 ≤ ys.getD (ys.length - 1) 0
  negBounded : Bounded ny
  negLength : ny.length = ys.length
  negValue : value ny = digitBase ^ ys.length - value ys

variable {ys ny : List ℕ}

section
variable (h : Normalized ys ny)
include h

lemma Normalized.top_le : ys.getD (ys.length - 1) 0 * digitBase ^ (ys.length - 1) ≤ value ys := by
  have hpos := h.pos
  have hsucc := value_take_succ (show ys.length - 1 < ys.length by omega)
  rw [Nat.sub_add_cancel hpos, take_length] at hsucc
  rw [Nat.mul_comm]
  omega

lemma Normalized.double : digitBase ^ ys.length ≤ 2 * value ys := by
  have htop := h.top_le
  have hpow : digitBase ^ ys.length = digitBase ^ (ys.length - 1) * digitBase := by
    rw [← pow_succ, Nat.sub_add_cancel h.pos]
  have hmul := Nat.mul_le_mul_right (digitBase ^ (ys.length - 1)) h.top
  rw [hpow, digitBase_eq]
  rw [digitBase_eq] at htop hmul
  omega

lemma Normalized.lt : value ys < digitBase ^ ys.length := value_lt h.bounded

section
variable {ds : List ℕ} {u : ℕ} (hds : Bounded ds) (heven : ds.length % 2 = 0) (hu : u < ds.length) (hle : ys.length ≤ u)
include hds heven hu hle

omit heven in
lemma Normalized.firstStep : ∃ rs, (if 0 ≤ compareDigits (ds.take u) (replicate (u + u % 2 - ys.length) 0 ++ ys) then do
        let rs ← setDigit ds u 1
        .ok (subInPlace rs (u + 1) (replicate (u + u % 2 - ys.length) 0 ++ ys), u + 1)
      else do
        let rs ← setDigit ds u 0
        .ok (rs, u + 1)) = (.ok (rs, u + 1) : Except Error (List ℕ × ℕ)) ∧ rs.length = ds.length ∧
      Dividing ys.length (u + 1) (value ys) (value (ds.take u)) (u + u % 2 - ys.length) rs := by
  set j := u + u % 2 - ys.length with hj
  have htmpLen : (replicate j 0 ++ ys).length = ys.length + j := by rw [length_append, length_replicate, add_comm]
  have htmp : value (replicate j 0 ++ ys) = value ys * digitBase ^ j := by rw [value_zeros_append, mul_comm]
  have htmpBounded := zeros_append_bounded j h.bounded
  have htakeLen : (ds.take u).length = u := by rw [length_take, min_eq_left hu.le]
  have hX := value_take_lt hds u
  have hdou := mul_le_mul_right (digitBase ^ j) h.double
  rw [← pow_add, mul_assoc] at hdou
  -- Without a subtraction the first digit of the quotient is zero.
  have hkept (hlt : value (ds.take u) < value ys * digitBase ^ j) :
      Dividing ys.length (u + 1) (value ys) (value (ds.take u)) j (ds.set u 0) := by
    refine ⟨set_bounded hds digitBase_pos u, ?_, ?_, _, 0, ?_, hlt, ?_⟩
    · rw [length_set]
      exact hu
    · omega
    · rw [value_take_set hu, mul_zero, mul_zero]
    · rw [zero_mul, zero_add]
  rw [compareDigits, htakeLen, htmpLen]
  by_cases hodd : u % 2 = 1
  -- An odd number of digits is fewer than the shifted divisor has.
  · have hlt : value (ds.take u) < value ys * digitBase ^ j := by
      have htop := mul_le_mul_right (digitBase ^ j) h.top_le
      have h31 : 1 ≤ ys.getD (ys.length - 1) 0 := by have := h.top; omega
      apply hX.trans_le
      calc digitBase ^ u = digitBase ^ (ys.length - 1) * digitBase ^ j := by
            rw [← pow_add]; congr 1; have := h.pos; omega
        _ ≤ ys.getD (ys.length - 1) 0 * digitBase ^ (ys.length - 1) * digitBase ^ j :=
          mul_le_mul_right _ (Nat.le_mul_of_pos_left _ h31)
        _ ≤ _ := htop
    refine ⟨ds.set u 0, ?_, length_set, hkept hlt⟩
    rw [if_neg (by rw [if_neg (by omega)]; omega), setDigit, if_pos hu]
    rfl
  · have hnj : u = ys.length + j := by omega
    have hsign := sign_difference
      (show (ds.take u).length = (replicate j 0 ++ ys).length by rw [htakeLen, htmpLen, ← hnj])
      (hds.take u) htmpBounded
    change _ = ((value (ds.take u) : ℤ) - value (replicate j 0 ++ ys)).sign at hsign
    have hiff : 0 ≤ difference (ds.take u) (replicate j 0 ++ ys) ↔ value ys * digitBase ^ j ≤ value (ds.take u) := by
      rw [← Int.sign_nonneg_iff, hsign, Int.sign_nonneg_iff, htmp]
      omega
    rw [if_pos hnj]
    by_cases hge : value ys * digitBase ^ j ≤ value (ds.take u)
    · have hset := value_take_set hu 1
      obtain ⟨hleng, hbou, hval⟩ := subInPlace_low (u := u + 1)
        (set_bounded hds one_lt_digitBase u) htmpBounded (by rw [length_set]; exact hu)
        (by rw [htmpLen]; omega) (by rw [htmp, hset]; omega)
      refine ⟨_, ?_, hleng.trans length_set, hbou, ?_, ?_, value (ds.take u) - value ys * digitBase ^ j, 1, ?_, ?_, ?_⟩
      · rw [if_pos (hiff.2 hge), setDigit, if_pos hu]
        rfl
      · rw [hleng, length_set]
        exact hu
      · omega
      · rw [hval, hset, htmp, ← hnj]
        omega
      · rw [← hnj] at hdou
        omega
      · omega
    · refine ⟨ds.set u 0, ?_, length_set, hkept (not_le.1 hge)⟩
      rw [if_neg (mt hiff.1 hge), setDigit, if_pos hu]
      rfl

lemma Normalized.divide : ∃ rs, divideNormalized ys ny ds u = .ok (rs, u + 1) ∧ rs.length = ds.length ∧
    Dividing ys.length (u + 1) (value ys) (value (ds.take u)) 0 rs := by
  obtain ⟨rs, hrs, hleng, hdivi⟩ := h.firstStep hds hu hle
  obtain ⟨rs', hrs', hleng', hbou', htake, -⟩ := clearOdd_spec (u := u + 1) hdivi.bounded
    (by rw [hleng]; exact heven) (by rw [hleng]; exact hu)
  have hdivi' : Dividing ys.length (u + 1) (value ys) (value (ds.take u)) (u + u % 2 - ys.length) rs' := by
    obtain ⟨-, hle', hdig, r, q, hlow, hr, hX⟩ := hdivi
    exact ⟨hbou', by rw [hleng']; exact hle', hdig, r, q, by rw [htake]; exact hlow, hr, hX⟩
  obtain ⟨rs'', hrs'', hleng'', hend⟩ := divLoop_spec h.negBounded h.negLength h.negValue h.lt.le h.pos
    (by have := h.top; omega) h.top_le hdivi'
  refine ⟨rs'', ?_, ?_, hend⟩
  · rw [divideNormalized]
    rw [hrs]
    change (do
      let rs ← clearOdd rs (u + 1)
      let rs ← divLoop _ ny (u + 1) _ _ rs
      .ok (rs, u + 1)) = _
    rw [hrs']
    have hind : u + u % 2 - 1 = ys.length + (u + u % 2 - ys.length) - 1 := by omega
    change (do
      let rs ← divLoop _ ny (u + 1) _ (u + u % 2 - 1) rs'
      .ok (rs, u + 1)) = _
    rw [hind, hrs'']
    rfl
  · rw [hleng'', hleng', hleng]

end
end

lemma negateDigits_spec (hys : Bounded ys) (hpos : 0 < value ys) :
    Bounded (negateDigits ys) ∧ (negateDigits ys).length = ys.length ∧
    value (negateDigits ys) = digitBase ^ ys.length - value ys := by
  have hone : value (replicate ys.length 0 ++ [1]) = digitBase ^ ys.length := by
    rw [value_zeros_append, value_cons, value_nil]
    ring
  have hpower : Bounded (replicate ys.length 0 ++ [1]) :=
    zeros_append_bounded _ (bounded_cons.2 ⟨one_lt_digitBase, bounded_nil⟩)
  obtain ⟨hleng, hbou, hval⟩ := absSub_spec hpower hys
    (by rw [length_append, length_replicate]; omega) (by rw [hone]; exact (value_lt hys).le)
  rw [length_append, length_replicate] at hleng
  rw [hone] at hval
  have hlt := value_lt hys
  rw [negateDigits]
  refine ⟨hbou.take _, ?_, ?_⟩
  · rw [length_take]
    omega
  · rw [(value_take_of_lt (by omega) (by rw [hval]; omega)).1, hval]

lemma normalized_of {ys : List ℕ} (hys : Bounded ys) (heven : ys.length % 2 = 0) (hpos : 0 < ys.length)
    (hhalf : 2 ^ 31 * digitBase ^ (ys.length - 1) ≤ value ys) : Normalized ys (negateDigits ys) := by
  have hpow : 0 < digitBase ^ (ys.length - 1) := Nat.pow_pos digitBase_pos
  obtain ⟨hbou, hleng, hval⟩ := negateDigits_spec hys (by omega)
  refine ⟨hys, heven, hpos, ?_, hbou, hleng, hval⟩
  have hdigit := getD_eq_digit hys (show ys.length - 1 < ys.length by omega)
  have hlt := value_lt hys
  rw [take_length] at hdigit
  rw [hdigit, Nat.mod_eq_of_lt, Nat.le_div_iff_mul_le hpow]
  · exact hhalf
  · rw [Nat.div_lt_iff_lt_mul hpow, Nat.mul_comm, ← pow_succ, Nat.sub_add_cancel hpos]
    exact hlt

end

section

structure QuoRem.Correct (c : QuoRem) (X Y : ℕ) : Prop where
  bounded : Bounded c.digits
  used : c.used ≤ c.digits.length
  remUsed : c.remUsed ≤ c.used
  quotient : value ((c.digits.take c.used).drop c.remUsed) = X / Y
  remainder : value (c.digits.take c.remUsed) = 2 ^ c.remNsh * (X % Y)

variable {xs ys : List ℕ}

structure Leading (ys : List ℕ) : Prop where
  bounded : Bounded ys
  pos : 0 < ys.length
  top : ys.getD (ys.length - 1) 0 ≠ 0

section
variable (h : Leading ys)
include h

lemma Leading.value_eq : value ys = value (ys.take (ys.length - 1)) +
    2 ^ (32 * (ys.length - 1)) * ys.getD (ys.length - 1) 0 := by
  have hpos : 1 ≤ ys.length := h.pos
  have hsucc := value_take_succ (show ys.length - 1 < ys.length by omega)
  rwa [Nat.sub_add_cancel hpos, take_length, digitBase_eq, ← pow_mul] at hsucc

lemma Leading.size_eq : (value ys).size = 32 * (ys.length - 1) + (ys.getD (ys.length - 1) 0).size := by
  have hlt := value_take_lt h.bounded (ys.length - 1)
  rw [digitBase_eq, ← pow_mul] at hlt
  rw [h.value_eq, size_add_mul hlt h.top]

lemma Leading.normalized : 2 ^ 31 * digitBase ^ (ys.length + ys.length % 2 - 1) ≤ 2 ^ normalizationShift ys * value ys ∧
    2 ^ normalizationShift ys * value ys < digitBase ^ (ys.length + ys.length % 2) ∧
    normalizationShift ys / digitBits = ys.length % 2 := by
  have hpos := h.pos
  have htop : (ys.getD (ys.length - 1) 0).size ≤ 32 := by
    rw [size_le]
    exact h.bounded.getD digitBase_pos _
  have htop' : 0 < (ys.getD (ys.length - 1) 0).size := size_pos.2 (pos_of_ne_zero h.top)
  have hsize := h.size_eq
  have hlt := lt_size_self (value ys)
  have hle : 2 ^ ((value ys).size - 1) ≤ value ys := lt_size.1 (by omega)
  have hshift : normalizationShift ys = 32 - (ys.getD (ys.length - 1) 0).size + 32 * (ys.length % 2) := by
    rw [normalizationShift, digitBits]
    split_ifs <;> omega
  refine ⟨?_, ?_, ?_⟩
  · calc 2 ^ 31 * digitBase ^ (ys.length + ys.length % 2 - 1) = 2 ^ (normalizationShift ys + ((value ys).size - 1)) := by
          rw [digitBase_eq, ← pow_mul, ← pow_add]
          congr 1
          omega
      _ = 2 ^ normalizationShift ys * 2 ^ ((value ys).size - 1) := pow_add _ _ _
      _ ≤ _ := mul_le_mul_left _ hle
  · calc 2 ^ normalizationShift ys * value ys < 2 ^ normalizationShift ys * 2 ^ (value ys).size :=
          mul_lt_mul_of_pos_left hlt (Nat.two_pow_pos _)
      _ = 2 ^ (normalizationShift ys + (value ys).size) := (pow_add _ _ _).symm
      _ = digitBase ^ (ys.length + ys.length % 2) := by
          rw [digitBase_eq, ← pow_mul]
          congr 1
          omega
  · rw [digitBits]
    omega

lemma normalizedDivisor : ∃ ds, (if normalizationShift ys > 0 then lShiftDigits ys (normalizationShift ys)
        (newDigits (ys.length + ((normalizationShift ys + digitBits - 1) / digitBits + 1)))
      else .ok (ys, ys.length)) = .ok (ds, ys.length + ys.length % 2) ∧
      (ds.take (ys.length + ys.length % 2)).length = ys.length + ys.length % 2 ∧
      value (ds.take (ys.length + ys.length % 2)) = 2 ^ normalizationShift ys * value ys ∧ Bounded ds := by
  obtain ⟨-, hlt, hshift⟩ := h.normalized
  have hpos := h.pos
  by_cases hnsh : normalizationShift ys > 0
  · have hlen := newDigits_length (ys.length + ((normalizationShift ys + digitBits - 1) / digitBits + 1))
    obtain ⟨rs, u, hrs, hshi⟩ := lShiftDigits_spec (n := normalizationShift ys) h.bounded (by omega)
      (newDigits_bounded _) (by rw [hlen]; omega) (by rw [hlen]; omega)
    have hu : u = ys.length + ys.length % 2 := by
      have hge := hshi.ge
      have htop := hshi.top
      rw [hshift] at hge htop
      by_contra hne
      exact absurd (htop (by omega)) hlt.not_ge
    have hle := hshi.le
    subst hu
    refine ⟨rs, by rw [if_pos hnsh, hrs], ?_, hshi.low, hshi.bounded⟩
    rw [length_take, hshi.length]
    omega
  · have hzero : normalizationShift ys = 0 := by omega
    rw [hzero, Nat.zero_div] at hshift
    rw [if_neg hnsh, ← hshift, Nat.add_zero]
    exact ⟨ys, rfl, by rw [take_length], by rw [take_length, hzero, pow_zero, Nat.one_mul], h.bounded⟩

end

lemma normalizedDividend (hxs : Bounded xs) (hpos : 0 < xs.length) (nsh : ℕ) :
    ∃ ds u, (if nsh > 0 then lShiftDigits xs nsh (newDigits (xs.length + ((nsh + digitBits - 1) / digitBits + 1)))
      else .ok (filled (xs.length + 1) xs, xs.length)) = .ok (ds, u) ∧ Bounded ds ∧ ds.length % 2 = 0 ∧
      u < ds.length ∧ xs.length + nsh / digitBits ≤ u ∧ value (ds.take u) = 2 ^ nsh * value xs := by
  by_cases hnsh : nsh > 0
  · have hlen := newDigits_length (xs.length + ((nsh + digitBits - 1) / digitBits + 1))
    obtain ⟨rs, u, hrs, hshi⟩ := lShiftDigits_spec (n := nsh) hxs (by omega)
      (newDigits_bounded _) (by rw [hlen]; omega) (by rw [hlen]; omega)
    have hle := hshi.le
    refine ⟨rs, u, by rw [if_pos hnsh, hrs], hshi.bounded, ?_, ?_, hshi.ge, hshi.low⟩
    · rw [hshi.length]
      omega
    · rw [hshi.length]
      omega
  · have hlen := filled_length (n := xs.length + 1) (l := xs) (by omega)
    have hzero : nsh = 0 := by omega
    refine ⟨_, _, if_neg hnsh, filled_bounded hxs, by rw [hlen]; omega, by rw [hlen]; omega, ?_, ?_⟩
    · rw [hzero, Nat.zero_div, Nat.add_zero]
    · rw [filled, take_left, hzero, pow_zero, Nat.one_mul]

lemma divRem_correct (hxs : Bounded xs) (h : Leading ys) (hle : ys.length ≤ xs.length) :
    ∃ c, divRem xs ys = .ok c ∧ c.Correct (value xs) (value ys) := by
  obtain ⟨hhalf, hlt, hshift⟩ := h.normalized
  have hpos := h.pos
  obtain ⟨yDigits, hy, hyLength, hyValue, hyBounded⟩ := normalizedDivisor h
  obtain ⟨ds, u, hds, hbou, heven, hu, hge, hval⟩ := normalizedDividend hxs (by omega) (normalizationShift ys)
  have hnor := normalized_of (hyBounded.take (ys.length + ys.length % 2)) (by rw [hyLength]; omega)
    (by rw [hyLength]; omega) (by rw [hyLength, hyValue]; exact hhalf)
  obtain ⟨rs, hrs, hleng, hdivi⟩ := hnor.divide hbou heven hu (by rw [hyLength]; omega)
  rw [hyLength] at hdivi
  have hres := hdivi.result (by rw [hyValue]; exact hlt.le)
  rw [hyValue, hval, Nat.mul_div_mul_left _ _ (Nat.two_pow_pos _), Nat.mul_mod_mul_left] at hres
  refine ⟨⟨rs, u + 1, ys.length + ys.length % 2, normalizationShift ys⟩, ?_, hdivi.bounded, hdivi.le,
    by have := hdivi.digits; omega, hres.1, hres.2⟩
  rw [divRem]
  dsimp only
  rw [hy, ok_bind]
  rw [hds, ok_bind]
  rw [hrs, ok_bind]

end
end DartSdk.BigInt
