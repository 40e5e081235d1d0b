import DartSdk.Library.Simulation
import DartSdk.CompactHash.Index

namespace DartSdk.CompactHash
open InsertionOrder List Nat HashFieldBase

section

def maskFor (smi63 : Bool) (b : ℕ) : ℕ :=
  if b = 0 then 0 else 2 ^ ((if smi63 then 33 else 31) - b) - 1

variable (smi63 : Bool)

lemma indexSizeToHashMask_initial : indexSizeToHashMask smi63 initialIndexSize = maskFor smi63 3 := by
  cases smi63 <;> decide

variable {b : ℕ}

lemma maskFor_shiftRight (hb : 3 ≤ b) : maskFor smi63 b >>> 1 = maskFor smi63 (b + 1) := by
  have hhalf : ∀ n : ℕ, (2 ^ n - 1) >>> 1 = 2 ^ (n - 1) - 1 := by
    intro n
    rw [shiftRight_eq_div_pow]
    cases n with
    | zero => rfl
    | succ n =>
      rw [Nat.add_sub_cancel]
      omega
  rw [maskFor, maskFor, if_neg (show b ≠ 0 by omega), if_neg (show b + 1 ≠ 0 by omega), hhalf, Nat.sub_sub]

def grown (b : ℕ) : ℕ := if b = 0 then 3 else b + 1

lemma initSize_same (hb : 3 ≤ b) : initSize smi63 (2 ^ b) (maskFor smi63 b) = (2 ^ b, maskFor smi63 b) := by
  have h8 : 2 ^ 3 ≤ 2 ^ b := Nat.pow_le_pow_right (by norm_num) hb
  exact if_neg (Nat.not_lt.2 h8)

lemma initSize_grown (hb : b = 0 ∨ 3 ≤ b) : initSize smi63 (2 ^ b <<< 1) (maskFor smi63 b >>> 1) =
    (2 ^ grown b, maskFor smi63 (grown b)) := by
  rcases hb with rfl | hb
  · rw [show grown 0 = 3 from rfl, ← indexSizeToHashMask_initial]
    rfl
  · rw [grown, if_neg (show b ≠ 0 by omega), maskFor_shiftRight _ hb, shiftLeft_eq, ← pow_add]
    exact initSize_same smi63 (by omega)

lemma maskFor_le (hb : b ≠ 0) : maskFor smi63 b ≤ 2 ^ (33 - b) - 1 := by
  rw [maskFor, if_neg hb]
  refine Nat.sub_le_sub_right (Nat.pow_le_pow_right (by norm_num) ?_) 1
  split_ifs <;> omega

variable {K : Type} {H : EqualsAndHashCode K} {smi63 : Bool} {b e i : ℕ} {index : List ℕ}
  {k : K}

variable (H smi63 k) in
lemma patternOf_lt (hb : 3 ≤ b) (hb' : b ≤ 32) : patternOf H (maskFor smi63 b) b k ≤ 2 ^ 32 - 2 ^ (b - 1) := by
  obtain ⟨a, rfl⟩ := Nat.exists_eq_add_of_le' (show 1 ≤ b by omega)
  have hone : 2 ^ 1 ≤ 2 ^ (32 - a) := Nat.pow_le_pow_right (by norm_num) (by omega)
  have hmask := maskFor_le smi63 (b := a + 1) (by omega)
  have hc := coefficient_le (H.hashCode k) (maskFor smi63 (a + 1))
  rw [show 33 - (a + 1) = 32 - a by omega] at hmask
  have hc' : coefficient (H.hashCode k) (maskFor smi63 (a + 1)) ≤ 2 ^ (32 - a) - 1 := by omega
  rw [patternOf, hashPattern_eq]
  calc coefficient (H.hashCode k) (maskFor smi63 (a + 1)) * 2 ^ a
      ≤ (2 ^ (32 - a) - 1) * 2 ^ a := Nat.mul_le_mul_right _ hc'
    _ = 2 ^ 32 - 2 ^ (a + 1 - 1) := by
      rw [Nat.sub_mul, one_mul, ← pow_add, Nat.add_sub_cancel, Nat.sub_add_cancel (by omega)]

lemma pattern_asserts (hb : 3 ≤ b) (hb' : b ≤ 32) (he : e < 2 ^ b / 2) : 1 ≤ patternOf H (maskFor smi63 b) b k ∧
    patternOf H (maskFor smi63 b) b k < 1 <<< 32 ∧
    e &&& patternOf H (maskFor smi63 b) b k = 0 ∧
    (patternOf H (maskFor smi63 b) b k ||| e) < 2 ^ 32 := by
  have hle := patternOf_lt H smi63 k hb hb'
  obtain ⟨a, rfl⟩ := Nat.exists_eq_add_of_le' (show 1 ≤ b by omega)
  rw [pow_succ, Nat.mul_div_cancel _ (by norm_num)] at he
  have hc := Nat.mul_le_mul_right (2 ^ a) (one_le_coefficient (H.hashCode k) (maskFor smi63 (a + 1)))
  rw [Nat.add_sub_cancel] at hle
  rw [patternOf, hashPattern_eq] at hle ⊢
  rw [and_word he, or_word he]
  refine ⟨?_, ?_, rfl, ?_⟩ <;> omega

lemma storePair_eq (hb : 3 ≤ b) (hb' : b ≤ 32) (he : e < 2 ^ b / 2) :
    storePair index i (patternOf H (maskFor smi63 b) b k) e =
    some (index.set i (patternOf H (maskFor smi63 b) b k ||| e)) := by
  obtain ⟨hone, hlt, hand, hor⟩ := pattern_asserts hb hb' he
  rw [storePair, mod_eq_of_lt hor]
  simp only [guard]
  rw [if_pos ⟨hone, hlt⟩, if_pos hand]
  rfl

lemma storePair_none (hashMask : ℕ) : storePair index i (patternOf H hashMask 33 k) e = none := by
  rw [patternOf, hashPattern_eq, storePair]
  simp only [guard]
  rw [if_neg (by omega)]
  rfl

lemma search_replicate {hashMask : ℕ} (hb : 3 ≤ b)
    (hindex : index = replicate (2 ^ b) unusedPair) (k : K) (isKey : ℕ → Bool) :
    ∃ p, search index (hashPattern (H.hashCode k) hashMask index.length) (H.hashCode k) isKey =
    some p ∧ p.entry = none := by
  have hempty : Indexed H index hashMask b [] := hindex ▸ Indexed.empty hashMask (.inr hb)
  have hkey : ∀ (e : ℕ) (k' : K), ([] : List (Option K))[e]? = some (some k') → isKey e = H.equals k k' := by simp
  obtain ⟨p, hp, hnone, -⟩ := hempty.search_absent hkey (by simp)
  rw [hempty.length]
  exact ⟨p, hp, hnone⟩

end

section Table

structure Evolves {S : Type} (s s' : HashFieldBase S) : Prop where
  allocated : s.allocated ≤ s'.allocated
  used : s'.dataId = s.dataId → s.usedData ≤ s'.usedData
  old : s'.dataId ≤ s.allocated → s'.dataId = s.dataId ∨ s'.dataId = 0

variable {s s' : HashFieldBase S} {S : Type}

lemma Evolves.of_same (hid : s'.dataId = s.dataId)
    (hal : s'.allocated = s.allocated) (hused : s.usedData ≤ s'.usedData) : Evolves s s' :=
  ⟨hal.ge, fun _ => hused, fun _ => .inl hid⟩

lemma Evolves.refl (s : HashFieldBase S) : Evolves s s := .of_same rfl rfl (Nat.le_refl _)

lemma Evolves.of_new (hid : s'.dataId = s.allocated + 1)
    (hal : s'.allocated = s.allocated + 1) (hle : s.dataId ≤ s.allocated) : Evolves s s' :=
  ⟨by omega, fun _ => by omega, fun _ => by omega⟩

def HashFieldBase.Fits {S : Type} (shift : ℕ) (s : HashFieldBase S) : Prop :=
  s.usedData < s.data.length ∨ s.usedData < s.deletedKeys <<< shift ∨ s.index.length < 2 ^ 32

instance {S : Type} (shift : ℕ) (s : HashFieldBase S) : Decidable (s.Fits shift) :=
  inferInstanceAs (Decidable (_ ∨ _ ∨ _))

structure Layout (K E S : Type) where
  step : ℕ
  step_pos : 0 < step
  key : E → K
  slot : Option E → ℕ → S

variable {K E S : Type} (H : EqualsAndHashCode K) (smi63 : Bool) (L : Layout K E S)

structure Table (s : HashFieldBase S) (log : List (Option E)) (b : ℕ) : Prop where
  bits : b = 0 ∨ 3 ≤ b ∧ b ≤ 32
  mask : s.hashMask = maskFor smi63 b
  indexed : Indexed H s.index s.hashMask b (log.map (Option.map L.key))
  used : s.usedData = L.step * log.length
  capacity : s.data.length = L.step * (2 ^ b / 2)
  slots : ∀ {e j : ℕ} {x : Option E}, log[e]? = some x → j < L.step → s.data[L.step * e + j]? = some (L.slot x j)
  deleted : s.deletedKeys + log.reduceOption.length = log.length
  identity : s.dataId = 0 ↔ b = 0
  allocated : s.dataId ≤ s.allocated

variable {H smi63 L} {s : HashFieldBase S} {log : List (Option E)} {b : ℕ}

namespace Table

lemma uninitialized (n : ℕ) : Table H smi63 L (uninitialized n) [] 0 where
  bits := .inl rfl
  mask := rfl
  indexed := Indexed.empty _ (.inl rfl)
  used := rfl
  capacity := rfl
  slots h := by simp at h
  deleted := rfl
  identity := Iff.rfl
  allocated := zero_le n

lemma fresh (hb : 3 ≤ b) (hb' : b ≤ 32) {index : List ℕ} {data : List S} {n : ℕ}
    (hindex : index = replicate (2 ^ b) unusedPair)
    (hdata : data.length = L.step * (2 ^ b / 2)) :
    Table H smi63 L {
    index := index, hashMask := maskFor smi63 b, data := data, dataId := n + 1,
      usedData := 0, deletedKeys := 0, allocated := n + 1 } [] b where
  bits := .inr ⟨hb, hb'⟩
  mask := rfl
  indexed := hindex ▸ Indexed.empty _ (.inr hb)
  used := rfl
  capacity := hdata
  slots h := by simp at h
  deleted := rfl
  identity := by
    dsimp only
    omega
  allocated := Nat.le_refl _

variable (h : Table H smi63 L s log b)
include h

lemma size : s.index.length = 2 ^ b := h.indexed.length

lemma full_iff : s.usedData = s.data.length ↔ log.length = 2 ^ b / 2 := by
  rw [h.used, h.capacity]
  exact Nat.mul_left_cancel_iff L.step_pos

lemma fits_iff (shift : ℕ) : s.Fits shift ↔ log.length < 2 ^ b / 2 ∨ s.usedData < s.deletedKeys <<< shift ∨ b < 32 := by
  rw [HashFieldBase.Fits, h.capacity, h.used, h.size, Nat.mul_lt_mul_left L.step_pos,
    Nat.pow_lt_pow_iff_right (by norm_num)]

lemma nil_of_bits_zero (hb : b = 0) : log = [] := by
  have hlen := h.indexed.fits
  rw [hb, length_map] at hlen
  exact eq_nil_of_length_eq_zero (by omega)

lemma index_eq_uninitialized_iff : s.index = uninitializedIndex ↔ b = 0 := by
  have hlen := h.size
  constructor
  · intro hi
    rw [hi] at hlen
    exact Nat.pow_right_injective (Nat.le_refl 2) (hlen.symm.trans (pow_zero 2).symm)
  · intro hb
    rw [hb] at hlen
    obtain ⟨w, hw⟩ := length_eq_one_iff.1 hlen
    have hmem := h.indexed.unused_mem
    rw [hw, mem_singleton] at hmem
    rw [hw, ← hmem]
    rfl

lemma length_le : log.length ≤ 2 ^ b / 2 := by
  have := h.indexed.fits
  rwa [length_map] at this

omit h in
lemma keys_getElem? {e : ℕ} {k : K} (he : (log.map (Option.map L.key))[e]? = some (some k)) :
    ∃ x, log[e]? = some (some x) ∧ L.key x = k := by
  rw [getElem?_map, Option.map_eq_some_iff] at he
  obtain ⟨y, hy, hk⟩ := he
  obtain ⟨x, rfl, hx⟩ := Option.map_eq_some_iff.1 hk
  exact ⟨x, hy, hx⟩

omit h in
lemma getElem?_keys {e : ℕ} {x : E} (he : log[e]? = some (some x)) :
    (log.map (Option.map L.key))[e]? = some (some (L.key x)) := by
  rw [getElem?_map, he]
  rfl

lemma distinct : Distinct H.equals L.key log := by
  intro e e' x x' he he' heq
  exact h.indexed.distinct (getElem?_keys he) (getElem?_keys he') heq

section
variable {k₀ : K} {isKey : ℕ → Bool}
  (hkey : ∀ (e : ℕ) (x : E), log[e]? = some (some x) → isKey e = H.equals k₀ (L.key x))

include hkey

omit h in
lemma isKey_eq (e : ℕ) (k : K) (he : (log.map (Option.map L.key))[e]? = some (some k)) : isKey e = H.equals k₀ k := by
  obtain ⟨x, hx, rfl⟩ := keys_getElem? he
  exact hkey e x hx

lemma search_present {e : ℕ} {x : E} (he : log[e]? = some (some x)) (heq : H.equals k₀ (L.key x) = true) :
    ∃ p, search s.index (hashPattern (H.hashCode k₀) s.hashMask s.index.length) (H.hashCode k₀)
    isKey = some p ∧ p.entry = some e ∧
    s.index[p.slot]? = some (patternOf H s.hashMask b (L.key x) ||| e) := by
  rw [h.size]
  exact h.indexed.search_present (isKey_eq hkey) (getElem?_keys he) heq

lemma search_found {x : E} (hf : find H.equals L.key log.reduceOption k₀ = some x) :
    ∃ e p, log[e]? = some (some x) ∧ H.equals k₀ (L.key x) = true ∧
    search s.index (hashPattern (H.hashCode k₀) s.hashMask s.index.length) (H.hashCode k₀)
    isKey = some p ∧ p.entry = some e ∧ s.index[p.slot]? = some (patternOf H s.hashMask b (L.key x) ||| e) := by
  obtain ⟨e, he, heq⟩ := getElem?_of_find hf
  obtain ⟨p, hp, hentry, hword⟩ := h.search_present hkey he heq
  exact ⟨e, p, he, heq, hp, hentry, hword⟩

lemma search_absent (habsent : ∀ (e : ℕ) x, log[e]? = some (some x) → H.equals k₀ (L.key x) = false) :
    ∃ p, search s.index (hashPattern (H.hashCode k₀) s.hashMask s.index.length) (H.hashCode k₀)
    isKey = some p ∧ p.entry = none ∧ FreeSlot s.index b (H.hashCode k₀) p.insertionPoint := by
  rw [h.size]
  refine h.indexed.search_absent (isKey_eq hkey) fun e k he => ?_
  obtain ⟨x, hx, rfl⟩ := keys_getElem? he
  exact habsent e x hx

end

lemma storePair_used (hroom : log.length < 2 ^ b / 2) (i : ℕ) (k : K) :
    storePair s.index i (hashPattern (H.hashCode k) s.hashMask s.index.length) log.length =
    some (s.index.set i (patternOf H s.hashMask b k ||| log.length)) := by
  have hb : 3 ≤ b ∧ b ≤ 32 := h.bits.resolve_left fun h0 => by simp [h0] at hroom
  rw [h.size, h.mask]
  exact storePair_eq hb.1 hb.2 hroom

lemma length_eq_of_full (hroom : ¬ log.length < 2 ^ b / 2) : log.length = 2 ^ b / 2 :=
  Nat.le_antisymm h.length_le (Nat.le_of_not_lt hroom)

lemma live_lt (hc : log.length < 2 * s.deletedKeys) : 3 ≤ b ∧ log.reduceOption.length < 2 ^ b / 2 := by
  have hd := h.deleted
  have hl := h.length_le
  rcases h.bits with rfl | hb
  · omega
  · exact ⟨hb.1, by omega⟩

lemma live_lt_grown : log.reduceOption.length < 2 ^ grown b / 2 := by
  have hd := h.deleted
  have hl := h.length_le
  rcases h.bits with rfl | hb
  · change _ < 2 ^ 3 / 2
    omega
  · have hpos : 2 ^ 3 ≤ 2 ^ b := Nat.pow_le_pow_right (by norm_num) hb.1
    rw [grown, if_neg (show b ≠ 0 by omega)]
    omega

lemma rehash_bits {compact : Prop} [Decidable compact]
    (hc : compact → log.length < 2 * s.deletedKeys) (hfits : compact ∨ b < 32) :
    3 ≤ (if compact then b else grown b) ∧ (if compact then b else grown b) ≤ 32 ∧
      log.reduceOption.length < 2 ^ (if compact then b else grown b) / 2 := by
  have hbits := h.bits
  split_ifs with hcompact
  · obtain ⟨hb, hlt⟩ := h.live_lt (hc hcompact)
    exact ⟨hb, by omega, hlt⟩
  · have hb : b < 32 := hfits.resolve_left hcompact
    refine ⟨?_, ?_, h.live_lt_grown⟩
    all_goals
      rw [grown]
      split_ifs <;> omega

lemma live_ne_nil (hfull : log.length = 2 ^ b / 2) (hb : b = 32)
    (hc : ¬ log.length < 2 * s.deletedKeys) : log.reduceOption ≠ [] := by
  have hd := h.deleted
  rw [hb] at hfull
  intro hnil
  rw [hnil, length_nil] at hd
  omega

omit h in
lemma absent_reduced {k₀ : K} (habsent : ∀ (e : ℕ) x, log[e]? = some (some x) → H.equals k₀ (L.key x) = false)
    (e : ℕ) (x : E) (hx : (log.reduceOption.map some)[e]? = some (some x)) :
    H.equals k₀ (L.key x) = false := by
  have hmem : x ∈ log.reduceOption := by simpa using mem_of_getElem? hx
  obtain ⟨e', he'⟩ := mem_reduceOption_iff_getElem?.1 hmem
  exact habsent e' x he'

structure Writes (L : Layout K E S) (data data' : List S) (e : ℕ) (x : Option E) : Prop where
  length : data'.length = data.length
  slots : ∀ {j}, j < L.step → data'[L.step * e + j]? = some (L.slot x j)
  other : ∀ {q : ℕ}, q / L.step ≠ e → data'[q]? = data[q]?

variable {data' : List S}
variable {e i : ℕ} {x : E}

lemma slots_of_writes {log' : List (Option E)} {x : Option E} (hw : Writes L s.data data' e x)
    (hlog : ∀ {e' : ℕ} {y}, log'[e']? = some y → e' = e ∧ y = x ∨ e' ≠ e ∧ log[e']? = some y)
    {e' j : ℕ} {y : Option E} (he : log'[e']? = some y) (hj : j < L.step) :
    data'[L.step * e' + j]? = some (L.slot y j) := by
  rcases hlog he with ⟨rfl, rfl⟩ | ⟨hne, hy⟩
  · exact hw.slots hj
  · have hdiv : (L.step * e' + j) / L.step = e' := by rw [mul_add_div L.step_pos, div_eq_of_lt hj, add_zero]
    rw [hw.other (by rwa [hdiv])]
    exact h.slots hy hj

lemma append (hroom : log.length < 2 ^ b / 2)
    (habsent : ∀ (e : ℕ) y, log[e]? = some (some y) → H.equals (L.key x) (L.key y) = false)
    (hfree : FreeSlot s.index b (H.hashCode (L.key x)) i)
    (hw : Writes L s.data data' log.length (some x)) :
    Table H smi63 L { s with
      index := s.index.set i (patternOf H s.hashMask b (L.key x) ||| log.length)
      data := data'
      usedData := s.usedData + L.step } (log ++ [some x]) b where
  bits := h.bits
  mask := h.mask
  indexed := by
    have hlen : (log.map (Option.map L.key)).length = log.length := length_map _
    have hi := h.indexed.insert (by rwa [hlen]) (fun e k he => by
        obtain ⟨y, hy, rfl⟩ := keys_getElem? he
        exact habsent e y hy) hfree
    simpa using hi
  used := by rw [length_append, length_singleton, mul_succ, ← h.used]
  capacity := hw.length.trans h.capacity
  slots := by
    refine h.slots_of_writes hw fun {e' y} he => ?_
    rw [getElem?_append] at he
    split_ifs at he with hlt
    · exact .inr ⟨hlt.ne, he⟩
    · have hzero : e' - log.length = 0 := by
        by_contra hne
        obtain ⟨j, hj⟩ := exists_eq_succ_of_ne_zero hne
        simp [hj] at he
      rw [hzero, getElem?_cons_zero, Option.some.injEq] at he
      exact .inl ⟨by omega, he.symm⟩
  deleted := by
    have := h.deleted
    simp only [reduceOption_append, length_append, reduceOption_cons_of_some, reduceOption_nil, length_cons]
    omega
  identity := h.identity
  allocated := h.allocated

omit h in
lemma getElem?_set_cases {e e' : ℕ} {x : E} {y z : Option E} (he : log[e]? = some (some x))
    (h' : (log.set e z)[e']? = some y) : e' = e ∧ y = z ∨ e' ≠ e ∧ log[e']? = some y := by
  by_cases hee : e = e'
  · subst hee
    rw [List.getElem?_set_self (List.getElem?_eq_some_iff.1 he).1, Option.some.injEq] at h'
    exact .inl ⟨rfl, h'.symm⟩
  · rw [List.getElem?_set_ne hee] at h'
    exact .inr ⟨Ne.symm hee, h'⟩

lemma overwrite {x' : E} (he : log[e]? = some (some x))
    (hk : L.key x' = L.key x) (hw : Writes L s.data data' e (some x')) :
    Table H smi63 L { s with data := data' } (log.set e (some x')) b where
  bits := h.bits
  mask := h.mask
  indexed := by
    have hkeys : (log.set e (some x')).map (Option.map L.key) = log.map (Option.map L.key) := by
      rw [List.map_set, Option.map_some, hk]
      obtain ⟨hlt, hx⟩ := List.getElem?_eq_some_iff.1 (getElem?_keys he)
      rw [← hx, List.set_getElem_self]
    rw [hkeys]
    exact h.indexed
  used := by
    rw [length_set]
    exact h.used
  capacity := hw.length.trans h.capacity
  slots := h.slots_of_writes hw fun h' => getElem?_set_cases he h'
  deleted := by
    obtain ⟨pre, post, hlog, hlen⟩ := split_at he
    have := h.deleted
    rw [set_split hlog hlen]
    simp only [hlog, reduceOption_append, List.length_append] at this ⊢
    exact this
  identity := h.identity
  allocated := h.allocated

lemma erase (he : log[e]? = some (some x)) (hi : s.index[i]? = some (patternOf H s.hashMask b (L.key x) ||| e))
    (hw : Writes L s.data data' e none) :
    Table H smi63 L { s with
      index := s.index.set i deletedPair
      data := data'
      deletedKeys := s.deletedKeys + 1 } (log.set e none) b where
  bits := h.bits
  mask := h.mask
  indexed := by
    have := h.indexed.remove (getElem?_keys he) hi
    rwa [map_set]
  used := by
    rw [length_set]
    exact h.used
  capacity := hw.length.trans h.capacity
  slots := h.slots_of_writes hw fun h' => getElem?_set_cases he h'
  deleted := by
    have hd := h.deleted
    have hr := length_reduceOption_set_none he
    rw [length_set]
    dsimp only
    omega
  identity := h.identity
  allocated := h.allocated

end Table

section

lemma Table.index_words (h : Table H smi63 L s log b) {w : ℕ} (hw : w ∈ s.index) :
    w = unusedPair ∨ w = deletedPair ∨ ∃ (e : ℕ) (x : E), s.data[L.step * e]? = some (L.slot (some x) 0) ∧
    1 ≤ hashPattern (H.hashCode (L.key x)) s.hashMask s.index.length ∧
    hashPattern (H.hashCode (L.key x)) s.hashMask s.index.length < 1 <<< 32 ∧
    e &&& hashPattern (H.hashCode (L.key x)) s.hashMask s.index.length = 0 ∧
    w = (hashPattern (H.hashCode (L.key x)) s.hashMask s.index.length ||| e) := by
  obtain ⟨i, hi⟩ := List.mem_iff_getElem?.1 hw
  refine (h.indexed.word hi).imp id (.imp id ?_)
  rintro ⟨e, k, he, rfl⟩
  obtain ⟨x, hx, rfl⟩ := keys_getElem? he
  have hlt := (List.getElem?_eq_some_iff.1 hx).1
  have hle := h.length_le
  have hb : 3 ≤ b ∧ b ≤ 32 := by
    apply h.bits.resolve_left
    intro h0
    rw [h0] at hle
    omega
  obtain ⟨hone, hsmall, hand, -⟩ := pattern_asserts hb.1 hb.2 (hlt.trans_le hle)
  rw [h.size, h.mask]
  exact ⟨e, x, h.slots hx L.step_pos, hone, hsmall, hand, rfl⟩

def Represents (H : EqualsAndHashCode K) (smi63 : Bool) (L : Layout K E S)
    (s : HashFieldBase S) (a : List E) : Prop :=
  ∃ log b, Table H smi63 L s log b ∧ log.reduceOption = a

lemma Table.represents (h : Table H smi63 L s log b) : Represents H smi63 L s log.reduceOption := ⟨log, b, h, rfl⟩

variable {a : List E}

section
variable (h : Represents H smi63 L s a)
include h

lemma Represents.evolves_trans {s' s'' : HashFieldBase S} (h₁ : Evolves s s') (h₂ : Evolves s' s'') :
    Evolves s s'' := by
  obtain ⟨log, b, h, -⟩ := h
  have hal := h.allocated
  have hal₁ := h₁.allocated
  refine ⟨hal₁.trans h₂.allocated, fun hid => ?_, fun hold => ?_⟩
  · by_cases h0 : s.dataId = 0
    · -- The uninitialized list has no entries.
      rw [h.used, h.nil_of_bits_zero (h.identity.1 h0), length_nil]
      exact zero_le _
    · have hid₂ : s''.dataId = s'.dataId := (h₂.old (by omega)).resolve_right (by omega)
      have hid₁ : s'.dataId = s.dataId := by omega
      exact (h₁.used hid₁).trans (h₂.used hid₂)
  · rcases h₂.old (hold.trans hal₁) with hid | hid
    · exact hid ▸ h₁.old (hid ▸ hold)
    · exact .inr hid

lemma Represents.distinct : Distinct H.equals L.key (a.map some) := by
  obtain ⟨log, b, h, rfl⟩ := h
  exact distinct_reduceOption H.symm h.distinct

lemma Represents.clear : Represents H smi63 L (uninitialized s.allocated) [] ∧
    Evolves s (uninitialized s.allocated) := by
  obtain ⟨log, b, h, rfl⟩ := h
  refine ⟨⟨[], 0, Table.uninitialized _, rfl⟩, Nat.le_refl _, fun hid => ?_, fun _ => .inr rfl⟩
  rw [h.used, h.nil_of_bits_zero (h.identity.1 hid.symm), length_nil]
  exact zero_le _

lemma Represents.quickCopy {t : HashFieldBase S} {c : List E} (ht : Represents H smi63 L t c) :
    s.quickCopy t = some (s, false) ∨ a = [] ∧ ∃ s', s.quickCopy t = some (s', true) ∧
    Represents H smi63 L s' c ∧ Evolves s s' := by
  obtain ⟨log, b, h, rfl⟩ := h
  obtain ⟨log', b', ht, rfl⟩ := ht
  unfold quickCopy
  by_cases hi : s.index = uninitializedIndex
  · have hlog := h.nil_of_bits_zero (h.index_eq_uninitialized_iff.1 hi)
    rw [if_neg (not_not.2 hi)]
    split_ifs with hu hd
    · have hused := ht.used
      have hlen : log'.length = 0 := by
        rw [hu] at hused
        exact (Nat.mul_eq_zero.1 hused.symm).resolve_left L.step_pos.ne'
      rw [eq_nil_of_length_eq_zero hlen]
      subst hlog
      exact .inr ⟨rfl, s, rfl, ⟨[], b, h, rfl⟩, .refl s⟩
    · exact .inl rfl
    · have hb' : b' ≠ 0 := by
        intro hb'
        rw [ht.used, ht.nil_of_bits_zero hb', length_nil] at hu
        exact hu rfl
      simp only [guard]
      rw [if_pos (mt ht.index_eq_uninitialized_iff.1 hb'), if_pos (mt ht.identity.1 hb')]
      refine .inr ⟨by rw [hlog]; rfl, _, rfl, ⟨log', b', ?_, rfl⟩, .of_new rfl rfl h.allocated⟩
      exact {
        bits := ht.bits
        mask := ht.mask
        indexed := ht.indexed
        used := ht.used
        capacity := ht.capacity
        slots := ht.slots
        deleted := ht.deleted
        identity := ⟨fun hid => absurd hid (succ_ne_zero _), fun hb => absurd hb hb'⟩
        allocated := Nat.le_refl _ }
  · rw [if_pos hi]
    exact .inl rfl

end
end

section

def InsertsInPlace (H : EqualsAndHashCode K) (smi63 : Bool) (L : Layout K E S)
    (insertEntry : HashFieldBase S → E → Option (HashFieldBase S)) (b : ℕ) : Prop :=
  ∀ {s log x}, Table H smi63 L s log b → log.length < 2 ^ b / 2 →
    (∀ (e : ℕ) y, log[e]? = some (some y) → H.equals (L.key x) (L.key y) = false) →
    ∃ s', insertEntry s x = some s' ∧ Table H smi63 L s' (log ++ [some x]) b ∧
      s'.dataId = s.dataId ∧ s'.allocated = s.allocated

variable {insertEntry : HashFieldBase S → E → Option (HashFieldBase S)}

lemma foldlM_insert (hins : InsertsInPlace H smi63 L insertEntry b) (xs : List E) :
    ∀ {s log}, Table H smi63 L s log b → log.length + xs.length ≤ 2 ^ b / 2 →
    Distinct H.equals L.key (log ++ xs.map some) →
    ∃ s', xs.foldlM insertEntry s = some s' ∧ Table H smi63 L s' (log ++ xs.map some) b ∧
    s'.dataId = s.dataId ∧ s'.allocated = s.allocated := by
  induction xs with
  | nil =>
    intro s log h _ _
    exact ⟨s, rfl, by simpa using h, rfl, rfl⟩
  | cons x xs ih =>
    intro s log h hroom hd
    have hx : (log ++ (x :: xs).map some)[log.length]? = some (some x) := by simp
    obtain ⟨s₁, hs₁, h₁, hid₁, hal₁⟩ := hins h (by rw [List.length_cons] at hroom; omega) (fun e y he => by
        by_contra hne
        rw [Bool.not_eq_false] at hne
        have hlt := (List.getElem?_eq_some_iff.1 he).1
        have hy : (log ++ (x :: xs).map some)[e]? = some (some y) := by rw [List.getElem?_append_left hlt, he]
        have := hd hx hy hne
        omega)
    obtain ⟨s₂, hs₂, h₂, hid₂, hal₂⟩ := ih h₁
      (by rw [List.length_append, List.length_singleton]; rw [List.length_cons] at hroom; omega)
      (by rw [append_assoc]; exact hd)
    refine ⟨s₂, ?_, by simpa using h₂, hid₂.trans hid₁, hal₂.trans hal₁⟩
    rw [List.foldlM_cons, hs₁]
    exact hs₂

lemma Table.copied {b' : ℕ} {t : HashFieldBase S} (h : Table H smi63 L s log b)
    (hins : InsertsInPlace H smi63 L insertEntry b')
    (ht : Table H smi63 L t [] b') (hroom : log.reduceOption.length < 2 ^ b' / 2) :
    ∃ s', log.reduceOption.foldlM insertEntry t = some s' ∧ Table H smi63 L s' (log.reduceOption.map some) b' ∧
    s'.dataId = t.dataId ∧ s'.allocated = t.allocated :=
  foldlM_insert hins log.reduceOption ht (by rw [length_nil]; omega) (distinct_reduceOption H.symm h.distinct)

variable {α β : Type}

lemma foldlM_range (l : List α) (f : β → ℕ → Option β) (g : β → α → Option β)
    (hfg : ∀ (s : β) (j : ℕ) (x : α), l[j]? = some x → f s j = g s x) (s : β) :
    (List.range l.length).foldlM f s = l.foldlM g s := by
  induction l using List.reverseRecOn generalizing s with
  | nil => rfl
  | append_singleton l x ih =>
    rw [List.length_append, List.length_singleton, List.range_succ, List.foldlM_append,
      List.foldlM_append, ih fun s j y hy => hfg s j y (by
        rw [List.getElem?_append_left (List.getElem?_eq_some_iff.1 hy).1, hy])]
    congr 1
    funext s'
    rw [List.foldlM_cons, hfg s' l.length x List.getElem?_concat_length]
    rfl

lemma foldlM_reduceOption (l : List (Option α)) (g : β → Option α → Option β)
    (g' : β → α → Option β) (hnone : ∀ s, g s none = some s) (hsome : ∀ s x, g s (some x) = g' s x)
    (s : β) : l.foldlM g s = l.reduceOption.foldlM g' s := by
  induction l generalizing s with
  | nil => rfl
  | cons x l ih =>
    cases x with
    | none =>
      rw [foldlM_cons, hnone]
      exact ih s
    | some x =>
      rw [foldlM_cons, hsome, reduceOption_cons_of_some]
      congr 1
      funext s'
      exact ih s'

end
end Table
end DartSdk.CompactHash
