import DartSdk.CompactHash.HashBase
import DartSdk.Library.InsertionOrder
import Mathlib.Tactic.Linarith
import Mathlib.Tactic.Positivity

namespace DartSdk.CompactHash
open InsertionOrder List Nat Option

section
variable {a c c' e e' : ℕ}

section
variable (he : e < 2 ^ a)
include he

lemma or_word : c * 2 ^ a ||| e = c * 2 ^ a + e := by rw [mul_comm, ← two_pow_add_eq_or_of_lt he]

lemma and_word : e &&& c * 2 ^ a = 0 := by
  apply eq_of_testBit_eq
  intro i
  rw [Nat.testBit_and, Nat.testBit_mul_two_pow, Nat.zero_testBit]
  by_cases hi : a ≤ i
  · rw [Nat.testBit_lt_two_pow (lt_of_lt_of_le he (Nat.pow_le_pow_right (by norm_num) hi))]
    rfl
  · simp [hi]

lemma word_div : (c * 2 ^ a ||| e) / 2 ^ a = c := by
  rw [or_word he, add_comm, add_mul_div_right _ _ (by positivity), Nat.div_eq_of_lt he, zero_add]

lemma word_mod : (c * 2 ^ a ||| e) % 2 ^ a = e := by
  rw [or_word he, add_comm, add_mul_mod_self_right, Nat.mod_eq_of_lt he]

lemma xor_word (h : c * 2 ^ a ^^^ (c' * 2 ^ a ||| e) < 2 ^ a) : c = c' ∧ c * 2 ^ a ^^^ (c' * 2 ^ a ||| e) = e := by
  have hdiv := Nat.div_eq_of_lt h
  have hmod := Nat.mod_eq_of_lt h
  rw [Nat.xor_div_two_pow, word_div he, Nat.mul_div_cancel _ (by positivity)] at hdiv
  rw [Nat.xor_mod_two_pow, word_mod he, Nat.mul_mod_left, Nat.zero_xor] at hmod
  exact ⟨Nat.xor_eq_zero_iff.1 hdiv, hmod.symm⟩

lemma xor_word_self : c * 2 ^ a ^^^ (c * 2 ^ a ||| e) = e := by
  have hdiv : (c * 2 ^ a ^^^ (c * 2 ^ a ||| e)) / 2 ^ a = 0 := by
    rw [Nat.xor_div_two_pow, word_div he, Nat.mul_div_cancel _ (by positivity), Nat.xor_self]
  have hlt : c * 2 ^ a ^^^ (c * 2 ^ a ||| e) < 2 ^ a := (Nat.div_eq_zero_iff.1 hdiv).resolve_left (by positivity)
  exact (xor_word he hlt).2

lemma word_inj (he' : e' < 2 ^ a) (h : (c * 2 ^ a ||| e) = (c' * 2 ^ a ||| e')) : e = e' := by
  rw [← word_mod he, h, word_mod he']

end

def coefficient (fullHash hashMask : ℕ) : ℕ :=
  if fullHash &&& hashMask = 0 then 1 else fullHash &&& hashMask

lemma hashPattern_eq (fullHash hashMask b : ℕ) :
    hashPattern fullHash hashMask (2 ^ (b + 1)) = coefficient fullHash hashMask * 2 ^ b := by
  have h : 2 ^ (b + 1) >>> 1 = 2 ^ b := by rw [Nat.shiftRight_eq_div_pow, pow_succ, Nat.mul_div_cancel _ (by norm_num)]
  unfold hashPattern coefficient
  rw [h]
  by_cases hm : fullHash &&& hashMask = 0
  · simp [hm]
  · simp [hm]

lemma one_le_coefficient (fullHash hashMask : ℕ) : 1 ≤ coefficient fullHash hashMask := by
  unfold coefficient
  split_ifs <;> omega

lemma coefficient_le (fullHash hashMask : ℕ) : coefficient fullHash hashMask ≤ max 1 hashMask := by
  have h : fullHash &&& hashMask ≤ hashMask := and_le_right
  unfold coefficient
  split_ifs <;> omega

end

section

def probeSlot (b fullHash n : ℕ) : ℕ := (firstProbe fullHash (2 ^ b - 1) + n) % 2 ^ b

lemma probeSlot_zero (b fullHash : ℕ) : probeSlot b fullHash 0 = firstProbe fullHash (2 ^ b - 1) := by
  unfold probeSlot firstProbe
  rw [add_zero, and_two_pow_sub_one_eq_mod, mod_mod]

lemma nextProbe_probeSlot (b fullHash n : ℕ) :
    nextProbe (probeSlot b fullHash n) (2 ^ b - 1) = probeSlot b fullHash (n + 1) := by
  unfold nextProbe probeSlot
  rw [and_two_pow_sub_one_eq_mod, mod_add_mod, add_assoc]

lemma probeSlot_lt (b fullHash n : ℕ) : probeSlot b fullHash n < 2 ^ b := mod_lt _ (by positivity)

lemma exists_probeSlot {b i : ℕ} (fullHash : ℕ) (hi : i < 2 ^ b) : ∃ n < 2 ^ b, probeSlot b fullHash n = i := by
  have hf : firstProbe fullHash (2 ^ b - 1) < 2 ^ b := by
    rw [← probeSlot_zero]
    exact probeSlot_lt b fullHash 0
  unfold probeSlot
  generalize firstProbe fullHash (2 ^ b - 1) = f at *
  by_cases h : f ≤ i
  · exact ⟨i - f, by omega, by rw [Nat.add_sub_cancel' h, Nat.mod_eq_of_lt hi]⟩
  · refine ⟨2 ^ b + i - f, by omega, ?_⟩
    rw [show f + (2 ^ b + i - f) = i + 2 ^ b by omega, Nat.add_mod_right, Nat.mod_eq_of_lt hi]

end

section
variable {index : List ℕ} {b pattern fullHash : ℕ} {isKey : ℕ → Bool}

def Hit (b pattern : ℕ) (isKey : ℕ → Bool) (pair : ℕ) : Prop :=
  pair ≠ unusedPair ∧ pair ≠ deletedPair ∧ pattern ^^^ pair < 2 ^ b >>> 1 ∧ isKey (pattern ^^^ pair) = true

structure Passed (index : List ℕ) (b pattern fullHash : ℕ) (isKey : ℕ → Bool) (n : ℕ) (firstDeleted : ℤ) : Prop where
  used : ∀ {m}, m < n → index[probeSlot b fullHash m]? ≠ some unusedPair
  miss : ∀ {m pair}, m < n → index[probeSlot b fullHash m]? = some pair → ¬ Hit b pattern isKey pair
  deleted : firstDeleted = -1 ∨ ∃ m < n, firstDeleted = probeSlot b fullHash m ∧
    index[probeSlot b fullHash m]? = some deletedPair

structure Stops (index : List ℕ) (b pattern fullHash : ℕ) (isKey : ℕ → Bool) (n : ℕ) (p : Probe) : Prop where
  slot : p.slot = probeSlot b fullHash n
  passed : Passed index b pattern fullHash isKey n p.firstDeleted
  stop : (p.entry = none ∧ index[p.slot]? = some unusedPair) ∨
    ∃ pair, index[p.slot]? = some pair ∧ Hit b pattern isKey pair ∧ p.entry = some (pattern ^^^ pair)

lemma Passed.next {n : ℕ} {fd fd' : ℤ} {pair : ℕ} (h : Passed index b pattern fullHash isKey n fd)
    (hpair : index[probeSlot b fullHash n]? = some pair) (hu : pair ≠ unusedPair) (hm : ¬ Hit b pattern isKey pair)
    (hd : fd' = fd ∨ (fd' = probeSlot b fullHash n ∧ pair = deletedPair)) :
    Passed index b pattern fullHash isKey (n + 1) fd' where
  used {m} hlt := by
    rcases Nat.lt_succ_iff_lt_or_eq.1 hlt with hlt | rfl
    · exact h.used hlt
    · simpa [hpair] using hu
  miss {m pair'} hlt hpair' := by
    rcases Nat.lt_succ_iff_lt_or_eq.1 hlt with hlt | rfl
    · exact h.miss hlt hpair'
    · rw [hpair, some.injEq] at hpair'
      exact hpair' ▸ hm
  deleted := by
    rcases hd with rfl | ⟨rfl, rfl⟩
    · exact h.deleted.imp id fun ⟨m, hlt, hm⟩ => ⟨m, by omega, hm⟩
    · exact .inr ⟨n, by omega, rfl, hpair⟩

lemma probe_stops (hlen : index.length = 2 ^ b) {last : ℕ}
    (hlast : index[probeSlot b fullHash last]? = some unusedPair) (fuel : ℕ) :
    ∀ (n : ℕ) (fd : ℤ), Passed index b pattern fullHash isKey n fd → last < n + fuel →
    ∃ n' p, probe index pattern isKey fuel (probeSlot b fullHash n) fd = some p ∧
    Stops index b pattern fullHash isKey n' p := by
  induction fuel with
  | zero =>
    intro n fd h hlt
    exact absurd hlast (h.used hlt)
  | succ fuel ih =>
    intro n fd h hlt
    have hget : ∃ pair, index[probeSlot b fullHash n]? = some pair :=
      ⟨_, getElem?_eq_getElem (hlen ▸ probeSlot_lt b fullHash n)⟩
    obtain ⟨pair, hpair⟩ := hget
    rw [probe, hpair]
    dsimp only
    rw [hlen, nextProbe_probeSlot]
    by_cases hu : pair = unusedPair
    · rw [if_pos hu]
      exact ⟨n, _, rfl, rfl, h, .inl ⟨rfl, hu ▸ hpair⟩⟩
    rw [if_neg hu]
    by_cases hd : pair = deletedPair
    · rw [if_pos hd]
      refine ih (n + 1) _ (h.next hpair hu (fun hit => hit.2.1 hd) ?_) (by omega)
      split_ifs
      · exact .inr ⟨rfl, hd⟩
      · exact .inl rfl
    rw [if_neg hd]
    by_cases hit : pattern ^^^ pair < 2 ^ b >>> 1 ∧ isKey (pattern ^^^ pair) = true
    · rw [if_pos (by simpa using hit)]
      exact ⟨n, _, rfl, rfl, h, .inr ⟨pair, hpair, ⟨hu, hd, hit⟩, rfl⟩⟩
    · rw [if_neg (by simpa using hit)]
      exact ih (n + 1) fd (h.next hpair hu (fun hit' => hit hit'.2.2) (.inl rfl)) (by omega)

lemma search_stops (pattern fullHash : ℕ) (isKey : ℕ → Bool) (hlen : index.length = 2 ^ b) (hz : unusedPair ∈ index) :
    ∃ n p, search index pattern fullHash isKey = some p ∧ Stops index b pattern fullHash isKey n p := by
  obtain ⟨i, hi⟩ := mem_iff_getElem?.1 hz
  have hlt : i < 2 ^ b := hlen ▸ (List.getElem?_eq_some_iff.1 hi).1
  obtain ⟨last, hlast, rfl⟩ := exists_probeSlot fullHash hlt
  have hstart : Passed index b pattern fullHash isKey 0 (-1) :=
    ⟨fun h => absurd h (not_lt_zero _), fun h => absurd h (not_lt_zero _), .inl rfl⟩
  unfold search
  rw [hlen, ← probeSlot_zero]
  exact probe_stops hlen hi (2 ^ b) 0 (-1) hstart (by omega)

structure FreeSlot (index : List ℕ) (b fullHash i : ℕ) : Prop where
  free : index[i]? = some unusedPair ∨ index[i]? = some deletedPair
  path : ∃ m, i = probeSlot b fullHash m ∧ ∀ m' < m, index[probeSlot b fullHash m']? ≠ some unusedPair

lemma Stops.insertionPoint {n : ℕ} {p : Probe} (h : Stops index b pattern fullHash isKey n p)
    (hnone : p.entry = none) : FreeSlot index b fullHash p.insertionPoint := by
  unfold Probe.insertionPoint
  rcases h.passed.deleted with hd | ⟨m, hm, hd, hget⟩
  · rw [if_neg (by omega)]
    refine ⟨.inl ?_, n, h.slot, fun m' hm' => h.passed.used hm'⟩
    rcases h.stop with ⟨-, hu⟩ | ⟨pair, -, -, he⟩
    · exact hu
    · simp [hnone] at he
  · rw [hd]
    exact ⟨.inr hget, m, rfl, fun m' hm' => h.passed.used (by omega)⟩

end

section Indexed
variable {K : Type} (H : EqualsAndHashCode K)

def patternOf (hashMask b : ℕ) (k : K) : ℕ := hashPattern (H.hashCode k) hashMask (2 ^ b)

structure Indexed (index : List ℕ) (hashMask b : ℕ) (keys : List (Option K)) : Prop where
  bits : b = 0 ∨ 3 ≤ b
  length : index.length = 2 ^ b
  fits : keys.length ≤ 2 ^ b / 2
  distinct : Distinct H.equals id keys
  word : ∀ {i pair : ℕ}, index[i]? = some pair → pair = unusedPair ∨ pair = deletedPair ∨
    ∃ (e : ℕ) (k : K), keys[e]? = some (some k) ∧ pair = (patternOf H hashMask b k ||| e)
  unique : ∀ {i j e : ℕ} {k : K}, keys[e]? = some (some k) → index[i]? = some (patternOf H hashMask b k ||| e) →
    index[j]? = some (patternOf H hashMask b k ||| e) → i = j
  reach : ∀ {e : ℕ} {k : K}, keys[e]? = some (some k) → ∃ n,
    index[probeSlot b (H.hashCode k) n]? = some (patternOf H hashMask b k ||| e) ∧
      ∀ m < n, index[probeSlot b (H.hashCode k) m]? ≠ some unusedPair
  load : index.countP (· ≠ unusedPair) ≤ keys.length

namespace Indexed
variable {H} {index : List ℕ} {hashMask b : ℕ} {keys : List (Option K)} {e : ℕ} {k : K}

lemma empty (hashMask : ℕ) {b : ℕ} (hb : b = 0 ∨ 3 ≤ b) :
    Indexed H (List.replicate (2 ^ b) unusedPair) hashMask b [] where
  bits := hb
  length := length_replicate
  fits := zero_le _
  distinct h := by simp at h
  word h := .inl (eq_of_mem_replicate (mem_of_getElem? h))
  unique h := by simp at h
  reach h := by simp at h
  load := by simp [countP_replicate]

variable (h : Indexed H index hashMask b keys)
include h

lemma unused_mem : unusedPair ∈ index := by
  by_contra hn
  have hcount : index.countP (· ≠ unusedPair) = index.length := by
    refine countP_eq_length.2 fun pair hp => ?_
    simpa using ne_of_mem_of_not_mem hp hn
  have hpos : 0 < 2 ^ b := by positivity
  have hload := h.load
  have hfits := h.fits
  have hlen := h.length
  omega

section
variable (he : keys[e]? = some (some k))
include he

lemma entry_lt : ∃ a, b = a + 1 ∧ 2 ≤ a ∧ e < 2 ^ a := by
  have hlt : e < keys.length := (List.getElem?_eq_some_iff.1 he).1
  have hfits := h.fits
  rcases h.bits with rfl | hb
  · omega
  · obtain ⟨a, rfl⟩ := Nat.exists_eq_add_of_le' (show 1 ≤ b by omega)
    exact ⟨a, rfl, by omega, by omega⟩

lemma word_ne : (patternOf H hashMask b k ||| e) ≠ unusedPair ∧ (patternOf H hashMask b k ||| e) ≠ deletedPair := by
  obtain ⟨a, rfl, ha, hlt⟩ := h.entry_lt he
  have h4 : 2 ^ 2 ≤ 2 ^ a := Nat.pow_le_pow_right (by norm_num) ha
  have hc := Nat.mul_le_mul_right (2 ^ a) (one_le_coefficient (H.hashCode k) hashMask)
  rw [patternOf, hashPattern_eq, or_word hlt]
  unfold unusedPair deletedPair
  omega

lemma word_entry {e' : ℕ} {k' : K} (he' : keys[e']? = some (some k'))
    (hw : (patternOf H hashMask b k ||| e) = (patternOf H hashMask b k' ||| e')) : e = e' ∧ k = k' := by
  obtain ⟨a, rfl, -, hlt⟩ := h.entry_lt he
  obtain ⟨a', ha', -, hlt'⟩ := h.entry_lt he'
  obtain rfl : a = a' := by omega
  rw [patternOf, patternOf, hashPattern_eq, hashPattern_eq] at hw
  obtain rfl := word_inj hlt hlt' hw
  rw [he] at he'
  exact ⟨rfl, by simpa using he'⟩

end

section
variable {k₀ : K} {isKey : ℕ → Bool}
  (hkey : ∀ (e : ℕ) (k : K), keys[e]? = some (some k) → isKey e = H.equals k₀ k)

include hkey

lemma hit_entry {i pair : ℕ} (hi : index[i]? = some pair) (hit : Hit b (patternOf H hashMask b k₀) isKey pair) :
    ∃ (e : ℕ) (k : K), keys[e]? = some (some k) ∧ pair = (patternOf H hashMask b k ||| e) ∧
    H.equals k₀ k = true ∧ patternOf H hashMask b k₀ ^^^ pair = e := by
  obtain ⟨hu, hd, hlt, hk⟩ := hit
  rcases h.word hi with hw | hw | ⟨e, k, he, hw⟩
  · exact absurd hw hu
  · exact absurd hw hd
  · obtain ⟨a, rfl, -, helt⟩ := h.entry_lt he
    have hhalf : 2 ^ (a + 1) >>> 1 = 2 ^ a := by
      rw [Nat.shiftRight_eq_div_pow, pow_succ, Nat.mul_div_cancel _ (by norm_num)]
    rw [hhalf, hw, patternOf, patternOf, hashPattern_eq, hashPattern_eq] at hlt
    have hx := (xor_word helt hlt).2
    rw [hw, patternOf, patternOf, hashPattern_eq, hashPattern_eq, hx, hkey e k he] at hk
    refine ⟨e, k, he, hw, hk, ?_⟩
    rw [hw, patternOf, patternOf, hashPattern_eq, hashPattern_eq, hx]

section
variable (he : keys[e]? = some (some k)) (heq : H.equals k₀ k = true)
include he heq

lemma hit_of_equals : Hit b (patternOf H hashMask b k₀) isKey (patternOf H hashMask b k ||| e) := by
  obtain ⟨hu, hd⟩ := h.word_ne he
  obtain ⟨a, rfl, -, hlt⟩ := h.entry_lt he
  have hhalf : 2 ^ (a + 1) >>> 1 = 2 ^ a := by
    rw [Nat.shiftRight_eq_div_pow, pow_succ, Nat.mul_div_cancel _ (by norm_num)]
  have hpat : patternOf H hashMask (a + 1) k₀ = patternOf H hashMask (a + 1) k := by
    rw [patternOf, patternOf, H.consistent heq]
  have hx : patternOf H hashMask (a + 1) k ^^^ (patternOf H hashMask (a + 1) k ||| e) = e := by
    rw [patternOf, hashPattern_eq, xor_word_self hlt]
  refine ⟨hu, hd, ?_, ?_⟩
  · rw [hpat, hx, hhalf]
    exact hlt
  · rw [hpat, hx, hkey e k he, heq]

lemma search_present : ∃ p, search index (patternOf H hashMask b k₀) (H.hashCode k₀) isKey = some p ∧
    p.entry = some e ∧ index[p.slot]? = some (patternOf H hashMask b k ||| e) := by
  obtain ⟨n, p, hp, hstop⟩ := search_stops (patternOf H hashMask b k₀) (H.hashCode k₀) isKey h.length h.unused_mem
  refine ⟨p, hp, ?_⟩
  rcases hstop.stop with ⟨-, hu⟩ | ⟨pair, hpair, hit, hentry⟩
  · -- An unused slot before the entry's own would contradict `reach`, a later one the loop.
    obtain ⟨m, hm, hpath⟩ := h.reach he
    rw [← H.consistent heq] at hm hpath
    rw [hstop.slot] at hu
    rcases lt_trichotomy n m with hlt | rfl | hlt
    · exact absurd hu (hpath n hlt)
    · rw [hm, some.injEq] at hu
      exact absurd hu (h.word_ne he).1
    · exact absurd (h.hit_of_equals hkey he heq) (hstop.passed.miss hlt hm)
  · obtain ⟨e', k', he', hw, heq', hx⟩ := h.hit_entry hkey hpair hit
    obtain rfl := h.distinct he he' (H.trans (H.symm heq) heq')
    rw [he] at he'
    obtain rfl : k = k' := by simpa using he'
    exact ⟨by rw [hentry, hx], by rw [hpair, hw]⟩

end

lemma search_absent (habsent : ∀ (e : ℕ) (k : K), keys[e]? = some (some k) → H.equals k₀ k = false) :
    ∃ p, search index (patternOf H hashMask b k₀) (H.hashCode k₀) isKey = some p ∧
    p.entry = none ∧ FreeSlot index b (H.hashCode k₀) p.insertionPoint := by
  obtain ⟨n, p, hp, hstop⟩ := search_stops (patternOf H hashMask b k₀) (H.hashCode k₀) isKey h.length h.unused_mem
  have hnone : p.entry = none := by
    rcases hstop.stop with ⟨hn, -⟩ | ⟨pair, hpair, hit, -⟩
    · exact hn
    · obtain ⟨e, k, he, -, heq, -⟩ := h.hit_entry hkey hpair hit
      simp [habsent e k he] at heq
  exact ⟨p, hp, hnone, hstop.insertionPoint hnone⟩

end

section
variable {k₀ : K} {i : ℕ} (hroom : keys.length < 2 ^ b / 2)
  (habsent : ∀ (e : ℕ) (k : K), keys[e]? = some (some k) → H.equals k₀ k = false)
  (hfree : FreeSlot index b (H.hashCode k₀) i)

omit h in
lemma getElem?_concat {e : ℕ} {k : K} (he : (keys ++ [some k₀])[e]? = some (some k)) :
    keys[e]? = some (some k) ∨ e = keys.length ∧ k = k₀ := by
  rw [getElem?_append] at he
  split_ifs at he with hlt
  · exact .inl he
  · right
    have hzero : e - keys.length = 0 := by
      by_contra hne
      obtain ⟨j, hj⟩ := exists_eq_succ_of_ne_zero hne
      simp [hj] at he
    rw [hzero] at he
    simp only [getElem?_cons_zero, some.injEq] at he
    exact ⟨by omega, he.symm⟩

omit h in
lemma getElem?_concat_of {e : ℕ} {k : K} (he : keys[e]? = some (some k)) : (keys ++ [some k₀])[e]? = some (some k) := by
  rw [List.getElem?_append_left (List.getElem?_eq_some_iff.1 he).1, he]

include hroom

lemma new_entry_lt : ∃ a, b = a + 1 ∧ 2 ≤ a ∧ keys.length < 2 ^ a := by
  rcases h.bits with rfl | hb
  · omega
  · obtain ⟨a, rfl⟩ := Nat.exists_eq_add_of_le' (show 1 ≤ b by omega)
    rw [pow_succ, Nat.mul_div_cancel _ (by norm_num)] at hroom
    exact ⟨a, rfl, by omega, hroom⟩

lemma new_word_ne (k₀ : K) : (patternOf H hashMask b k₀ ||| keys.length) ≠ unusedPair ∧
    (patternOf H hashMask b k₀ ||| keys.length) ≠ deletedPair ∧ ∀ (e : ℕ) (k : K), keys[e]? = some (some k) →
    (patternOf H hashMask b k₀ ||| keys.length) ≠ (patternOf H hashMask b k ||| e) := by
  obtain ⟨a, rfl, ha, hlt⟩ := h.new_entry_lt hroom
  rw [patternOf, hashPattern_eq]
  have h4 : 2 ^ 2 ≤ 2 ^ a := Nat.pow_le_pow_right (by norm_num) ha
  have hc := Nat.mul_le_mul_right (2 ^ a) (one_le_coefficient (H.hashCode k₀) hashMask)
  refine ⟨?_, ?_, fun e k he hw => ?_⟩
  · rw [or_word hlt]
    unfold unusedPair
    omega
  · rw [or_word hlt]
    unfold deletedPair
    omega
  · obtain ⟨a', ha', -, hlt'⟩ := h.entry_lt he
    obtain rfl : a = a' := by omega
    rw [patternOf, hashPattern_eq] at hw
    have hlen := (List.getElem?_eq_some_iff.1 he).1
    rw [word_inj hlt hlt' hw] at hlen
    omega

include habsent hfree

lemma insert : Indexed H (index.set i (patternOf H hashMask b k₀ ||| keys.length)) hashMask b (keys ++ [some k₀]) := by
  obtain ⟨hfree, m, hi, hpath⟩ := hfree
  obtain ⟨hne, hdel, hother⟩ := h.new_word_ne hroom k₀
  have hlt : i < index.length := by
    rw [h.length, hi]
    exact probeSlot_lt _ _ _
  -- Slots that were not free keep their words, and no slot becomes unused.
  have hold : ∀ {j e : ℕ} {k : K}, keys[e]? = some (some k) →
      index[j]? = some (patternOf H hashMask b k ||| e) → i ≠ j := by
    rintro j e k he hj rfl
    obtain ⟨hu, hd⟩ := h.word_ne he
    rcases hfree with hf | hf <;> rw [hf, some.injEq] at hj
    · exact hu hj.symm
    · exact hd hj.symm
  have hused : ∀ {j : ℕ}, index[j]? ≠ some unusedPair →
      (index.set i (patternOf H hashMask b k₀ ||| keys.length))[j]? ≠ some unusedPair := by
    intro j hj
    by_cases hij : i = j
    · rw [← hij, List.getElem?_set_self hlt]
      simpa using hne
    · rwa [getElem?_set_ne hij]
  have hnew : (index.set i (patternOf H hashMask b k₀ ||| keys.length))[i]? =
    some (patternOf H hashMask b k₀ ||| keys.length) := List.getElem?_set_self hlt
  refine ⟨h.bits, by rw [length_set, h.length], ?_, ?_, ?_, ?_, ?_, ?_⟩
  · rw [length_append, length_singleton]
    omega
  · intro e e' k k' he he' heq
    rcases getElem?_concat he with hk | ⟨rfl, rfl⟩ <;>
      rcases getElem?_concat he' with hk' | ⟨rfl, rfl⟩
    · exact h.distinct hk hk' heq
    · have := H.symm heq
      simp [habsent e k hk] at this
    · simp [habsent e' k' hk'] at heq
    · rfl
  · intro j pair hj
    by_cases hij : i = j
    · rw [← hij, hnew, some.injEq] at hj
      exact .inr (.inr ⟨keys.length, k₀, getElem?_concat_length, hj.symm⟩)
    · rw [getElem?_set_ne hij] at hj
      exact (h.word hj).imp id (.imp id fun ⟨e, k, he, hw⟩ => ⟨e, k, getElem?_concat_of he, hw⟩)
  · intro j j' e k he hj hj'
    rcases getElem?_concat he with hk | ⟨rfl, rfl⟩
    · -- The word of an old entry is not in the slot that was written.
      have hword : ∀ {l : ℕ}, (index.set i (patternOf H hashMask b k₀ ||| keys.length))[l]? =
          some (patternOf H hashMask b k ||| e) →
          index[l]? = some (patternOf H hashMask b k ||| e) := by
        intro l hl
        by_cases hil : i = l
        · rw [← hil, hnew, some.injEq] at hl
          exact absurd hl (hother e k hk)
        · rwa [getElem?_set_ne hil] at hl
      exact h.unique hk (hword hj) (hword hj')
    · have hslot : ∀ {l : ℕ}, (index.set i (patternOf H hashMask b k ||| keys.length))[l]? =
          some (patternOf H hashMask b k ||| keys.length) → i = l := by
        intro l hl
        by_contra hil
        rw [getElem?_set_ne hil] at hl
        rcases h.word hl with hw | hw | ⟨e, k', he', hw⟩
        · exact hne hw
        · exact hdel hw
        · exact hother e k' he' hw
      rw [← hslot hj, ← hslot hj']
  · intro e k he
    rcases getElem?_concat he with hk | ⟨rfl, rfl⟩
    · obtain ⟨n, hn, hpath'⟩ := h.reach hk
      refine ⟨n, ?_, fun m' hm' => hused (hpath' m' hm')⟩
      rw [getElem?_set_ne (hold hk hn), hn]
    · exact ⟨m, hi ▸ hnew, fun m' hm' => hused (hpath m' hm')⟩
  · rw [countP_set hlt, length_append, length_singleton]
    have hload := h.load
    split_ifs <;> omega

end

lemma remove {i : ℕ} (he : keys[e]? = some (some k)) (hi : index[i]? = some (patternOf H hashMask b k ||| e)) :
    Indexed H (index.set i deletedPair) hashMask b (keys.set e none) := by
  obtain ⟨hlt, hget⟩ := List.getElem?_eq_some_iff.1 hi
  have hnew : (index.set i deletedPair)[i]? = some deletedPair := List.getElem?_set_self hlt
  have hkeys : ∀ {e' : ℕ} {k' : K}, (keys.set e none)[e']? = some (some k') → e ≠ e' ∧ keys[e']? = some (some k') := by
    intro e' k' h'
    by_cases hee : e = e'
    · subst hee
      rw [List.getElem?_set_self (List.getElem?_eq_some_iff.1 he).1] at h'
      simp at h'
    · rw [getElem?_set_ne hee] at h'
      exact ⟨hee, h'⟩
  -- The slot of another entry is another slot.
  have hslot : ∀ {e' j : ℕ} {k' : K}, e ≠ e' → keys[e']? = some (some k') →
      index[j]? = some (patternOf H hashMask b k' ||| e') → i ≠ j := by
    rintro e' j k' hee he' hj rfl
    rw [hi, some.injEq] at hj
    exact hee (h.word_entry he he' hj).1
  have hused : ∀ {j : ℕ}, index[j]? ≠ some unusedPair → (index.set i deletedPair)[j]? ≠ some unusedPair := by
    intro j hj
    by_cases hij : i = j
    · rw [← hij, hnew]
      simp [deletedPair, unusedPair]
    · rwa [getElem?_set_ne hij]
  refine ⟨h.bits, by rw [length_set, h.length], ?_, ?_, ?_, ?_, ?_, ?_⟩
  · rw [length_set]
    exact h.fits
  · intro e1 e2 k1 k2 h1 h2 heq
    exact h.distinct (hkeys h1).2 (hkeys h2).2 heq
  · intro j pair hj
    by_cases hij : i = j
    · rw [← hij, hnew, some.injEq] at hj
      exact .inr (.inl hj.symm)
    · rw [getElem?_set_ne hij] at hj
      refine (h.word hj).imp id (.imp id fun ⟨e', k', he', hw⟩ => ⟨e', k', ?_, hw⟩)
      have hee : e ≠ e' := by
        rintro rfl
        rw [he] at he'
        obtain rfl : k = k' := by simpa using he'
        exact hij (h.unique he hi (hw ▸ hj))
      rw [getElem?_set_ne hee, he']
  · intro j j' e' k' he' hj hj'
    obtain ⟨hee, hk'⟩ := hkeys he'
    have hword : ∀ {l : ℕ}, (index.set i deletedPair)[l]? = some (patternOf H hashMask b k' ||| e') →
        index[l]? = some (patternOf H hashMask b k' ||| e') := by
      intro l hl
      by_cases hil : i = l
      · rw [← hil, hnew, some.injEq] at hl
        exact absurd hl.symm (h.word_ne hk').2
      · rwa [getElem?_set_ne hil] at hl
    exact h.unique hk' (hword hj) (hword hj')
  · intro e' k' he'
    obtain ⟨hee, hk'⟩ := hkeys he'
    obtain ⟨n, hn, hpath⟩ := h.reach hk'
    refine ⟨n, ?_, fun m hm => hused (hpath m hm)⟩
    rw [getElem?_set_ne (hslot hee hk' hn), hn]
  · have hnz : index[i] ≠ unusedPair := hget ▸ (h.word_ne he).1
    have hload := h.load
    have hpos : 0 < index.countP (· ≠ unusedPair) := countP_pos_iff.2 ⟨index[i], getElem_mem hlt, by simpa using hnz⟩
    rw [countP_set hlt, length_set, if_pos (by simpa using hnz)]
    split_ifs <;> omega

end Indexed
end Indexed
end DartSdk.CompactHash
