import Mathlib.Algebra.Order.Ring.Int

namespace DartSdk.Heap
open List Nat Function BitVec

section
variable {n : ℕ}

def countTrailingZerosWord (x : BitVec n) : ℕ := (range n).findIdx x.getLsbD

def countLeadingZerosWord (x : BitVec n) : ℕ := (range n).findIdx x.getMsbD

lemma findIdx_range {p : ℕ → Bool} (h : ∃ i < n, p i = true) :
    (range n).findIdx p < n ∧ p ((range n).findIdx p) = true ∧ ∀ j < (range n).findIdx p, p j = false := by
  have hlt : (range n).findIdx p < n := by
    obtain ⟨i, hi, hp⟩ := h
    have hlt := findIdx_lt_length_of_exists ⟨i, mem_range.2 hi, hp⟩
    rwa [length_range] at hlt
  refine ⟨hlt, ?_, fun j hj => ?_⟩
  · have hget := @findIdx_getElem _ p (range n) (by rwa [length_range])
    rwa [getElem_range] at hget
  · have hget := not_of_lt_findIdx hj
    rwa [getElem_range] at hget

variable {x : BitVec n}

lemma exists_getLsbD (h : x ≠ 0) : ∃ i < n, x.getLsbD i = true := by
  by_contra hnone
  apply h
  apply eq_of_getLsbD_eq
  intro i hi
  rw [ofNat_eq_ofNat, getLsbD_zero]
  exact Bool.eq_false_iff.2 fun hbit => hnone ⟨i, hi, hbit⟩

lemma getLsbD_countTrailingZerosWord (h : x ≠ 0) :
    countTrailingZerosWord x < n ∧ x.getLsbD (countTrailingZerosWord x) = true := by
  obtain ⟨hlt, hbit, -⟩ := findIdx_range (exists_getLsbD h)
  exact ⟨hlt, hbit⟩

lemma getLsbD_countLeadingZerosWord (h : x ≠ 0) :
    countLeadingZerosWord x < n ∧ x.getLsbD (n - 1 - countLeadingZerosWord x) = true ∧
    ∀ j, n - 1 - countLeadingZerosWord x < j → x.getLsbD j = false := by
  have hmsb : ∃ i < n, x.getMsbD i = true := by
    obtain ⟨i, hi, hbit⟩ := exists_getLsbD h
    refine ⟨n - 1 - i, by omega, ?_⟩
    rw [getMsbD, show n - 1 - (n - 1 - i) = i by omega, hbit, Bool.and_true]
    exact decide_eq_true (by omega)
  obtain ⟨hlt, hbit, hnone⟩ := findIdx_range hmsb
  rw [getMsbD, Bool.and_eq_true] at hbit
  refine ⟨hlt, hbit.2, fun j hj => ?_⟩
  by_cases hjn : j < n
  · have hj' : n - 1 - j < (range n).findIdx x.getMsbD := by
      rw [countLeadingZerosWord] at hj
      omega
    have hfalse := hnone _ hj'
    rw [getMsbD, show n - 1 - (n - 1 - j) = j by omega, decide_eq_true (by omega)] at hfalse
    exact hfalse
  · exact getLsbD_of_ge x j (by omega)

end

structure BitSet (k : ℕ) where
  data : ℕ → BitVec (2 ^ k) := fun _ => 0

namespace BitSet
variable {k : ℕ}

def mask (k i : ℕ) : BitVec (2 ^ k) := (1 : BitVec (2 ^ k)) <<< (i % 2 ^ k)

def set (b : BitSet k) (i : ℕ) (value : Bool) : BitSet k :=
  let w := i >>> k
  ⟨update b.data w (if value then b.data w ||| mask k i else b.data w &&& ~~~mask k i)⟩

def test (b : BitSet k) (i : ℕ) : Bool := decide (b.data (i >>> k) &&& mask k i ≠ 0)

def nextWord (b : BitSet k) : ℕ → ℕ → ℤ
  | 0, _ => -1
  | words + 1, w =>
    if b.data w ≠ 0 then ((w <<< k + countTrailingZerosWord (b.data w) : ℕ) : ℤ) else b.nextWord words (w + 1)

def next (N : ℕ) (b : BitSet k) (i : ℕ) : ℤ :=
  let w := i >>> k
  let upper : BitVec (2 ^ k) := BitVec.allOnes (2 ^ k) <<< (i % 2 ^ k)
  if b.data w &&& upper ≠ 0 then ((w <<< k + countTrailingZerosWord (b.data w &&& upper) : ℕ) : ℤ)
  else b.nextWord (1 + (N - 1) / 2 ^ k - (w + 1)) (w + 1)

def previousWord (b : BitSet k) : ℕ → ℤ
  | 0 => if b.data 0 = 0 then -1 else ((2 ^ k : ℕ) : ℤ) - countLeadingZerosWord (b.data 0) - 1
  | w + 1 =>
    if b.data (w + 1) = 0 then b.previousWord w
    else (((w + 2) <<< k : ℕ) : ℤ) - countLeadingZerosWord (b.data (w + 1)) - 1

def clearLastAndFindPrevious (b : BitSet k) (currentLast : ℕ) : BitSet k × ℤ :=
  let w := currentLast >>> k
  let b : BitSet k := ⟨update b.data w (b.data w ^^^ mask k currentLast)⟩
  (b, b.previousWord w)

lemma getLsbD_mask (i j : ℕ) : (mask k i).getLsbD j = decide (j = i % 2 ^ k) := by
  have hlt := Nat.mod_lt i (Nat.two_pow_pos k)
  rw [mask, getLsbD_shiftLeft, ofNat_eq_ofNat]
  by_cases hj : j = i % 2 ^ k
  · simp [hj, hlt, Nat.two_pow_pos k]
  · simp [hj]
    omega

lemma test_eq (b : BitSet k) (i : ℕ) : b.test i = (b.data (i >>> k)).getLsbD (i % 2 ^ k) := by
  cases hbit : (b.data (i >>> k)).getLsbD (i % 2 ^ k) with
  | true =>
    refine decide_eq_true fun hzero => ?_
    have := congrArg (getLsbD · (i % 2 ^ k)) hzero
    simp [getLsbD_mask, hbit] at this
  | false =>
    refine decide_eq_false (not_not.2 ?_)
    apply eq_of_getLsbD_eq
    intro j _
    rw [getLsbD_and, getLsbD_mask, ofNat_eq_ofNat, getLsbD_zero]
    by_cases hj : j = i % 2 ^ k
    · rw [hj, hbit, Bool.false_and]
    · rw [decide_eq_false hj, Bool.and_false]

lemma div_mod_eq (w r : ℕ) (hr : r < 2 ^ k) : (w <<< k + r) >>> k = w ∧ (w <<< k + r) % 2 ^ k = r := by
  rw [Nat.shiftLeft_eq, Nat.shiftRight_eq_div_pow, Nat.add_comm]
  exact ⟨by rw [Nat.add_mul_div_right _ _ (Nat.two_pow_pos k), Nat.div_eq_of_lt hr, Nat.zero_add],
    by rw [Nat.add_mul_mod_self_right, Nat.mod_eq_of_lt hr]⟩

lemma eq_iff_parts (i j : ℕ) : i = j ↔ i >>> k = j >>> k ∧ i % 2 ^ k = j % 2 ^ k := by
  rw [Nat.shiftRight_eq_div_pow, Nat.shiftRight_eq_div_pow]
  refine ⟨fun h => ⟨by rw [h], by rw [h]⟩, fun ⟨hdiv, hmod⟩ => ?_⟩
  rw [← div_add_mod i (2 ^ k), hdiv, hmod, div_add_mod]

variable {word : BitVec (2 ^ k)} {i : ℕ} {b : BitSet k}

lemma test_update {value : Bool}
    (h : ∀ j < 2 ^ k, word.getLsbD j = if j = i % 2 ^ k then value else (b.data (i >>> k)).getLsbD j) (j : ℕ) :
    test ⟨update b.data (i >>> k) word⟩ j = if j = i then value else b.test j := by
  rw [test_eq, test_eq]
  dsimp only
  by_cases hword : j >>> k = i >>> k
  · simp only [hword, update_self, h _ (Nat.mod_lt j (Nat.two_pow_pos k)), eq_iff_parts (k := k) j i, true_and]
  · rw [update_of_ne hword, if_neg fun hj => hword (by rw [hj])]

lemma test_set (b : BitSet k) (i : ℕ) (value : Bool) (j : ℕ) :
    (b.set i value).test j = if j = i then value else b.test j := by
  apply test_update
  intro j hj
  cases value with
  | true =>
    rw [if_pos rfl, getLsbD_or, getLsbD_mask]
    by_cases h : j = i % 2 ^ k <;> simp [h]
  | false =>
    rw [if_neg (by decide), getLsbD_and, getLsbD_not, getLsbD_mask, decide_eq_true hj]
    by_cases h : j = i % 2 ^ k <;> simp [h]

lemma test_of_word {w : ℕ} (hword : word ≠ 0) (hsub : ∀ j, word.getLsbD j = true → (b.data w).getLsbD j = true) :
    b.test (w <<< k + countTrailingZerosWord word) = true := by
  obtain ⟨hlt, hbit⟩ := getLsbD_countTrailingZerosWord hword
  obtain ⟨hdiv, hmod⟩ := div_mod_eq w _ hlt
  rw [test_eq, hdiv, hmod]
  exact hsub _ hbit

lemma nextWord_spec (b : BitSet k) (words w : ℕ) : b.nextWord words w = -1 ∨
    ∃ j : ℕ, b.nextWord words w = j ∧ w <<< k ≤ j ∧ b.test j = true := by
  induction words generalizing w with
  | zero => exact .inl rfl
  | succ words ih =>
    rw [nextWord]
    split_ifs with hword
    · exact .inr ⟨_, rfl, le_add_right _ _, test_of_word hword fun _ => id⟩
    · rcases ih (w + 1) with hnone | ⟨j, hj, hle, htest⟩
      · exact .inl hnone
      · refine .inr ⟨j, hj, le_trans ?_ hle, htest⟩
        rw [Nat.shiftLeft_eq, Nat.shiftLeft_eq]
        exact mul_le_mul_right _ (le_succ w)

lemma next_spec (N : ℕ) (b : BitSet k) (i : ℕ) : b.next N i = -1 ∨
    ∃ j : ℕ, b.next N i = j ∧ i ≤ j ∧ b.test j = true := by
  have hi : (i >>> k) <<< k + i % 2 ^ k = i := by rw [Nat.shiftLeft_eq, Nat.shiftRight_eq_div_pow, Nat.div_add_mod']
  rw [next]
  split_ifs with hword
  · refine .inr ⟨_, rfl, ?_, test_of_word hword fun j hj => ?_⟩
    · obtain ⟨-, hbit⟩ := getLsbD_countTrailingZerosWord hword
      rw [getLsbD_and, getLsbD_shiftLeft] at hbit
      simp only [Bool.and_eq_true, Bool.not_eq_true', decide_eq_false_iff_not] at hbit
      omega
    · rw [getLsbD_and, Bool.and_eq_true] at hj
      exact hj.1
  · rcases b.nextWord_spec (1 + (N - 1) / 2 ^ k - (i >>> k + 1)) (i >>> k + 1) with hnone | ⟨j, hj, hle, htest⟩
    · exact .inl hnone
    · refine .inr ⟨j, hj, le_trans ?_ hle, htest⟩
      rw [Nat.shiftLeft_eq, Nat.add_mul]
      omega

lemma previousWord_spec (b : BitSet k) (w : ℕ) : (b.previousWord w = -1 ∧ ∀ j, j >>> k ≤ w → b.test j = false) ∨
    ∃ i : ℕ, b.previousWord w = i ∧ b.test i = true ∧ ∀ j, i < j → j >>> k ≤ w → b.test j = false := by
  -- the highest bit of a word that is not zero, the words above it being zero
  have hfound {w v : ℕ} (hword : b.data v ≠ 0) (hv : v ≤ w) (hzero : ∀ u, v < u → u ≤ w → b.data u = 0) :
      ∃ i : ℕ, (((v + 1) <<< k : ℕ) : ℤ) - countLeadingZerosWord (b.data v) - 1 = i ∧ b.test i = true ∧
        ∀ j, i < j → j >>> k ≤ w → b.test j = false := by
    obtain ⟨hlt, hbit, hhigh⟩ := getLsbD_countLeadingZerosWord hword
    obtain ⟨hdiv, hmod⟩ := div_mod_eq (k := k) v (2 ^ k - 1 - countLeadingZerosWord (b.data v)) (by omega)
    refine ⟨v <<< k + (2 ^ k - 1 - countLeadingZerosWord (b.data v)), ?_, ?_, fun j hj hjw => ?_⟩
    · rw [Nat.shiftLeft_eq, Nat.add_mul]
      omega
    · rw [test_eq, hdiv, hmod]
      exact hbit
    · rw [test_eq]
      have hle : v ≤ j >>> k := by
        rw [← hdiv, Nat.shiftRight_eq_div_pow, Nat.shiftRight_eq_div_pow]
        exact Nat.div_le_div_right hj.le
      rcases Nat.lt_or_eq_of_le hle with hlt' | heq
      · rw [hzero _ hlt' hjw]
        exact getLsbD_zero
      · rw [← heq]
        apply hhigh
        have hparts : j = v <<< k + j % 2 ^ k := by
          rw [heq, Nat.shiftLeft_eq, Nat.shiftRight_eq_div_pow, Nat.div_add_mod']
        omega
  induction w with
  | zero =>
    rw [previousWord]
    split_ifs with hzero
    · refine .inl ⟨rfl, fun j hj => ?_⟩
      rw [test_eq, le_zero.1 hj, hzero]
      exact getLsbD_zero
    · refine .inr ?_
      have := hfound hzero le_rfl fun u hu hu' => by omega
      rwa [Nat.zero_add, one_shiftLeft] at this
  | succ w ih =>
    rw [previousWord]
    split_ifs with hzero
    · have hnone (j : ℕ) (hj : j >>> k = w + 1) : b.test j = false := by
        rw [test_eq, hj, hzero]
        exact getLsbD_zero
      rcases ih with ⟨heq, hall⟩ | ⟨i, heq, htest, hall⟩
      · refine .inl ⟨heq, fun j hj => ?_⟩
        rcases le_or_eq_of_le_succ hj with hj | hj
        · exact hall j hj
        · exact hnone j hj
      · refine .inr ⟨i, heq, htest, fun j hij hj => ?_⟩
        rcases le_or_eq_of_le_succ hj with hj | hj
        · exact hall j hij hj
        · exact hnone j hj
    · exact .inr (hfound hzero le_rfl fun u hu hu' => by omega)

lemma clearLastAndFindPrevious_spec (htest : b.test i = true) (hlast : ∀ j, i < j → b.test j = false) :
    (∀ j, (b.clearLastAndFindPrevious i).1.test j = if j = i then false else b.test j) ∧
      (((b.clearLastAndFindPrevious i).2 = -1 ∧ ∀ j, (b.clearLastAndFindPrevious i).1.test j = false) ∨
        ∃ i' : ℕ, (b.clearLastAndFindPrevious i).2 = i' ∧ (b.clearLastAndFindPrevious i).1.test i' = true ∧
          ∀ j, i' < j → (b.clearLastAndFindPrevious i).1.test j = false) := by
  have hclear : ∀ j, (b.clearLastAndFindPrevious i).1.test j = if j = i then false else b.test j := by
    apply test_update
    intro j _
    rw [test_eq] at htest
    by_cases h : j = i % 2 ^ k
    · rw [getLsbD_xor, getLsbD_mask, if_pos h, h, htest, decide_eq_true rfl, Bool.xor_self]
    · rw [getLsbD_xor, getLsbD_mask, if_neg h, decide_eq_false h, Bool.xor_false]
  have hnone (j : ℕ) (hj : ¬j >>> k ≤ i >>> k) : (b.clearLastAndFindPrevious i).1.test j = false := by
    have hij : i < j := by
      by_contra hle
      rw [Nat.shiftRight_eq_div_pow, Nat.shiftRight_eq_div_pow] at hj
      exact hj (Nat.div_le_div_right (not_lt.1 hle))
    rw [hclear, hlast j hij, ite_self]
  refine ⟨hclear, ?_⟩
  rcases (b.clearLastAndFindPrevious i).1.previousWord_spec (i >>> k) with ⟨heq, hall⟩ | ⟨i', heq, htest', hall⟩
  · exact .inl ⟨heq, fun j => (em (j >>> k ≤ i >>> k)).elim (hall j) (hnone j)⟩
  · exact .inr ⟨i', heq, htest', fun j hj => (em (j >>> k ≤ i >>> k)).elim (hall j hj) (hnone j)⟩

end BitSet
end DartSdk.Heap
