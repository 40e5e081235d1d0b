import DartSdk.CompactHash.LinkedHashMap
import DartSdk.CompactHash.Table

namespace DartSdk.CompactHash.LinkedHashMap
open InsertionOrder List
variable {K V : Type}

def mapSlot : Option (K × V) → ℕ → Slot K V
  | none, _ => .deleted
  | some (k, _), 0 => .key k
  | some (_, v), _ + 1 => .value v

def layout : Layout K (K × V) (Slot K V) where
  step := 2
  step_pos := by norm_num
  key := Prod.fst
  slot := mapSlot

variable {H : EqualsAndHashCode K} {smi63 : Bool} {s : LinkedHashMap K V}
  {log : List (Option (K × V))} {b e : ℕ} {k k₀ : K} {v : V} (v₀ : V)
  (h : Table H smi63 layout s log b)
  (habs : ∀ (e : ℕ) x, log[e]? = some (some x) → H.equals k₀ x.1 = false)

lemma shiftLeft_one (e : ℕ) : e <<< 1 = 2 * e := by rw [Nat.shiftLeft_eq, mul_comm]

section

include h

lemma data_entry {x : Option (K × V)} (he : log[e]? = some x) :
    s.data[2 * e]? = some (mapSlot x 0) ∧ s.data[2 * e + 1]? = some (mapSlot x 1) :=
  ⟨h.slots he Nat.two_pos, h.slots he Nat.one_lt_two⟩

lemma isKey_entry (k₀ : K) (e : ℕ) (x : K × V) (he : log[e]? = some (some x)) : isKey H s k₀ e = H.equals k₀ x.1 := by
  rw [isKey, shiftLeft_one, (data_entry h he).1]
  rfl

lemma find_present (he : log[e]? = some (some (k, v))) (heq : H.equals k₀ k = true) :
    findValueOrInsertPoint H k₀ (H.hashCode k₀)
    (hashPattern (H.hashCode k₀) s.hashMask s.index.length) s = some ((2 * e + 1 : ℕ) : ℤ) := by
  obtain ⟨p, hp, hent, -⟩ := h.search_present (isKey_entry h k₀) he heq
  rw [findValueOrInsertPoint, hp, some_bind, hent]
  rfl

include habs in
lemma find_absent : ∃ i : ℕ, findValueOrInsertPoint H k₀ (H.hashCode k₀)
    (hashPattern (H.hashCode k₀) s.hashMask s.index.length) s = some (-(i : ℤ)) ∧
    FreeSlot s.index b (H.hashCode k₀) i := by
  obtain ⟨p, hp, hent, hfree⟩ := h.search_absent (isKey_entry h k₀) habs
  refine ⟨p.insertionPoint, ?_, hfree⟩
  rw [findValueOrInsertPoint, hp, some_bind, hent]

end

section
variable {data : List (Slot K V)}

lemma writes_pair (hlt : 2 * e + 1 < data.length) (x : Option (K × V)) : Table.Writes layout data
    ((data.set (2 * e) (layout.slot x 0)).set (2 * e + 1) (layout.slot x 1)) e x where
  length := by simp
  slots {j} hj := by
    rcases Nat.lt_succ_iff_lt_or_eq.1 hj with hj | rfl
    · obtain rfl : j = 0 := by omega
      rw [getElem?_set_ne (by change 2 * e + 1 ≠ 2 * e + 0; omega)]
      exact getElem?_set_self (by omega)
    · exact getElem?_set_self (by simpa using hlt)
  other {q} hq := by
    change q / 2 ≠ e at hq
    rw [getElem?_set_ne (by omega), getElem?_set_ne (by omega)]

lemma writes_value (hk : data[2 * e]? = some (.key k)) (hlt : 2 * e + 1 < data.length) :
    Table.Writes layout data (data.set (2 * e + 1) (.value v)) e (some (k, v)) := by
  have h := writes_pair hlt (some (k, v))
  obtain ⟨_, hk⟩ := List.getElem?_eq_some_iff.1 hk
  have hslot : layout.slot (some (k, v)) 0 = data[2 * e] := hk.symm
  rw [hslot, List.set_getElem_self] at h
  exact h

end

section

include h

section
variable (hroom : log.length < 2 ^ b / 2)
include habs hroom

lemma insert_room {i : ℕ} {setEntry : LinkedHashMap K V → K → V → ℕ → Option (LinkedHashMap K V)}
    (hfree : FreeSlot s.index b (H.hashCode k₀) i) : ∃ s', insert H smi63 setEntry k₀ v₀ (H.hashCode k₀)
    (hashPattern (H.hashCode k₀) s.hashMask s.index.length) i s = some s' ∧
    Table H smi63 layout s' (log ++ [some (k₀, v₀)]) b ∧
    s'.dataId = s.dataId ∧ s'.allocated = s.allocated := by
  have hused : s.usedData = 2 * log.length := h.used
  have hcap : s.data.length = 2 * (2 ^ b / 2) := h.capacity
  have hind : s.usedData >>> 1 = log.length := by omega
  have happ := h.append (x := (k₀, v₀)) hroom habs hfree (writes_pair (by omega) (some (k₀, v₀)))
  rw [hused] at happ
  rw [insert, if_neg (by omega), hind, h.storePair_used hroom, hused]
  exact ⟨_, rfl, happ, rfl, rfl⟩

lemma setWithHash_room (fuel : ℕ) : ∃ s', setWithHash H smi63 (fuel + 1) s k₀ v₀ (H.hashCode k₀) = some s' ∧
    Table H smi63 layout s' (log ++ [some (k₀, v₀)]) b ∧
    s'.dataId = s.dataId ∧ s'.allocated = s.allocated := by
  obtain ⟨i, hfind, hfree⟩ := find_absent h habs
  rw [setWithHash, hfind, some_bind, if_neg (by omega), neg_neg]
  exact insert_room v₀ h habs hroom hfree

end
end

section

lemma insertsInPlace (fuel : ℕ) : InsertsInPlace H smi63 layout
    (fun s (x : K × V) => setWithHash H smi63 (fuel + 1) s x.1 x.2 (H.hashCode x.1)) b :=
  fun h hroom habs => setWithHash_room _ h habs hroom fuel

def fresh (smi63 : Bool) (b allocated : ℕ) : LinkedHashMap K V where
  index := replicate (2 ^ b) unusedPair
  hashMask := maskFor smi63 b
  data := replicate (2 ^ b) .null
  dataId := allocated + 1
  usedData := 0
  deletedKeys := 0
  allocated := allocated + 1

lemma setWithHash_too_large {t : LinkedHashMap K V} (fuel : ℕ)
    (hind : t.index = replicate (2 ^ 33) unusedPair) (hdata : t.usedData ≠ t.data.length) :
    setWithHash H smi63 (fuel + 1) t k v (H.hashCode k) = none := by
  obtain ⟨p, hp, hent⟩ := search_replicate (by norm_num) hind k (isKey H t k)
  have hsto : ∀ i e, storePair t.index i (hashPattern (H.hashCode k) t.hashMask t.index.length) e = none := by
    intro i e
    rw [show t.index.length = 2 ^ 33 by rw [hind, length_replicate]]
    exact storePair_none t.hashMask
  rw [setWithHash, findValueOrInsertPoint, hp]
  simp only [some_bind, hent]
  rw [if_neg (by omega), insert, if_neg hdata, hsto]
  rfl

variable (setEntry : LinkedHashMap K V → K → V → ℕ → Option (LinkedHashMap K V))
include h

lemma copyEntries_eq (t : LinkedHashMap K V) : copyEntries H setEntry s.data s.usedData t =
    log.reduceOption.foldlM (fun t x => setEntry t x.1 x.2 (H.hashCode x.1)) t := by
  have hlen : s.usedData / 2 = log.length := by
    have hused : s.usedData = 2 * log.length := h.used
    omega
  rw [copyEntries, hlen, foldlM_range log _ (fun t x => x.elim (some t) fun x => setEntry t x.1 x.2 (H.hashCode x.1))]
  · exact foldlM_reduceOption log _ _ (fun _ => rfl) (fun _ _ => rfl) t
  · intro t j x hx
    obtain ⟨hkey, hval⟩ := data_entry h hx
    rw [hkey, hval]
    cases x <;> rfl

lemma compact_iff : s.usedData < s.deletedKeys <<< 2 ↔ log.length < 2 * s.deletedKeys := by
  have hused : s.usedData = 2 * log.length := h.used
  omega

lemma rehash_eq : rehash H smi63 setEntry s = log.reduceOption.foldlM (fun t x => setEntry t x.1 x.2 (H.hashCode x.1))
    (fresh smi63 (if s.usedData < s.deletedKeys <<< 2 then b else grown b) s.allocated) := by
  have hinit : ∀ {size hashMask b' : ℕ}, initSize smi63 size hashMask = (2 ^ b', maskFor smi63 b') →
      init H smi63 setEntry size hashMask s =
        log.reduceOption.foldlM (fun t x => setEntry t x.1 x.2 (H.hashCode x.1)) (fresh smi63 b' s.allocated) := by
    intro size hashMask b' hsize
    have hpow : 2 ^ b' &&& (2 ^ b' - 1) = 0 := by rw [Nat.and_two_pow_sub_one_eq_mod, Nat.mod_self]
    rw [init, hsize]
    simp only [guard, if_pos hpow]
    exact copyEntries_eq h setEntry _
  rw [rehash, h.size, h.mask]
  split_ifs with hc
  · exact hinit (initSize_same _ (h.live_lt ((compact_iff h).1 hc)).1)
  · exact hinit (initSize_grown _ (h.bits.imp id And.left))

variable (fuel : ℕ)

lemma rehash_spec (hfits : s.usedData < s.deletedKeys <<< 2 ∨ b < 32) :
    ∃ s' b', (if s.usedData < s.deletedKeys <<< 2 then b else grown b) = b' ∧
      rehash H smi63 (setWithHash H smi63 (fuel + 1)) s = some s' ∧
      Table H smi63 layout s' (log.reduceOption.map some) b' ∧ log.reduceOption.length < 2 ^ b' / 2 ∧
      s'.dataId = s.allocated + 1 ∧ s'.allocated = s.allocated + 1 := by
  obtain ⟨hb, hb', hroom⟩ := h.rehash_bits (compact_iff h).1 hfits
  rw [rehash_eq h]
  generalize (if s.usedData < s.deletedKeys <<< 2 then b else grown b) = b' at hb hb' hroom ⊢
  have hfre : Table H smi63 layout (fresh (V := V) smi63 b' s.allocated) [] b' := by
    refine Table.fresh hb hb' rfl ?_
    obtain ⟨a, rfl⟩ := Nat.exists_eq_add_of_le' (show 1 ≤ b' by omega)
    rw [length_replicate, pow_succ, Nat.mul_div_cancel _ (by norm_num), mul_comm]
    rfl
  obtain ⟨s', hs', h', hid, hal⟩ := h.copied (insertsInPlace fuel) hfre hroom
  exact ⟨s', b', rfl, hs', h', hroom, hid, hal⟩

lemma rehash_none (hfull : log.length = 2 ^ b / 2) (hc : ¬ s.usedData < s.deletedKeys <<< 2)
    (hb : ¬ b < 32) : rehash H smi63 (setWithHash H smi63 (fuel + 1)) s = none := by
  have hb' : b = 32 := by
    have := h.bits
    omega
  obtain ⟨x, xs, hxs⟩ := exists_cons_of_ne_nil (h.live_ne_nil hfull hb' (mt (compact_iff h).2 hc))
  have hnone : setWithHash H smi63 (fuel + 1) (fresh smi63 (grown 32) s.allocated) x.1 x.2 (H.hashCode x.1) = none :=
    setWithHash_too_large fuel rfl (by rw [fresh, length_replicate]; exact (Nat.two_pow_pos _).ne)
  rw [rehash_eq h, if_neg hc, hb', hxs, foldlM_cons, hnone]
  rfl

end

section
variable (fuel : ℕ) {i pattern : ℕ}
include h

section
variable (hfull : log.length = 2 ^ b / 2) (hfits : s.usedData < s.deletedKeys <<< 2 ∨ b < 32)
include habs hfull hfits

lemma insert_full : ∃ s' b', (if s.usedData < s.deletedKeys <<< 2 then b else grown b) = b' ∧
    insert H smi63 (setWithHash H smi63 (fuel + 1)) k₀ v₀ (H.hashCode k₀) pattern i s = some s' ∧
    Table H smi63 layout s' (log.reduceOption.map some ++ [some (k₀, v₀)]) b' ∧
    s'.dataId = s.allocated + 1 ∧ s'.allocated = s.allocated + 1 := by
  obtain ⟨s₁, b₁, hb₁, hs₁, h₁, hroom, hid₁, hal₁⟩ := rehash_spec h fuel hfits
  obtain ⟨s₂, hs₂, h₂, hid₂, hal₂⟩ := setWithHash_room v₀ h₁
    (Table.absent_reduced (L := layout) habs) (by rwa [length_map]) fuel
  refine ⟨s₂, b₁, hb₁, ?_, h₂, hid₂.trans hid₁, hal₂.trans hal₁⟩
  rw [insert, if_pos (h.full_iff.2 hfull), hs₁]
  exact hs₂

lemma setWithHash_full : ∃ s' b', (if s.usedData < s.deletedKeys <<< 2 then b else grown b) = b' ∧
    setWithHash H smi63 (fuel + 2) s k₀ v₀ (H.hashCode k₀) = some s' ∧
    Table H smi63 layout s' (log.reduceOption.map some ++ [some (k₀, v₀)]) b' := by
  obtain ⟨i, hfind, -⟩ := find_absent h habs
  obtain ⟨s', b', hb', hs', h', -⟩ := insert_full v₀ h habs fuel hfull hfits
  refine ⟨s', b', hb', ?_, h'⟩
  rw [setWithHash, hfind, some_bind, if_neg (by omega)]
  exact hs'

end

include habs in
lemma insert_fits (hfree : FreeSlot s.index b (H.hashCode k₀) i) (hfits : s.Fits 2) :
    ∃ s', insert H smi63 (setWithHash H smi63 (fuel + 1)) k₀ v₀ (H.hashCode k₀)
    (hashPattern (H.hashCode k₀) s.hashMask s.index.length) i s = some s' ∧
    Represents H smi63 layout s' (log.reduceOption ++ [(k₀, v₀)]) ∧ Evolves s s' := by
  by_cases hroom : log.length < 2 ^ b / 2
  · obtain ⟨s', hs', h', hid, hal⟩ := insert_room v₀ h habs hroom hfree
    refine ⟨s', hs', ⟨_, b, h', ?_⟩, .of_same hid hal ?_⟩
    · rw [reduceOption_append, reduceOption_cons_of_some, reduceOption_nil]
    · rw [h.used, h'.used, length_append]
      exact Nat.mul_le_mul_left _ (Nat.le_add_right _ _)
  · obtain ⟨s', b', -, hs', h', hid, hal⟩ := insert_full v₀ h habs fuel (h.length_eq_of_full hroom)
      (((h.fits_iff 2).1 hfits).resolve_left hroom)
    refine ⟨s', hs', ⟨_, b', h', ?_⟩, .of_new hid hal h.allocated⟩
    rw [reduceOption_append, reduceOption_map_some, reduceOption_cons_of_some, reduceOption_nil]

lemma insert_none (hfits : ¬ s.Fits 2) :
    insert H smi63 (setWithHash H smi63 (fuel + 1)) k₀ v₀ (H.hashCode k₀) pattern i s = none := by
  rw [h.fits_iff, not_or, not_or] at hfits
  have hfull := h.length_eq_of_full hfits.1
  rw [insert, if_pos (h.full_iff.2 hfull), rehash_none h fuel hfull hfits.2.1 hfits.2.2]
  rfl

lemma setWithHash_present (he : log[e]? = some (some (k, v))) (heq : H.equals k₀ k = true) :
    setWithHash H smi63 (fuel + 1) s k₀ v₀ (H.hashCode k₀) = some { s with data := s.data.set (2 * e + 1) (.value v₀) } ∧
      Table H smi63 layout { s with data := s.data.set (2 * e + 1) (.value v₀) } (log.set e (some (k, v₀))) b := by
  constructor
  · rw [setWithHash, find_present h he heq, some_bind, if_pos (by omega), Int.toNat_natCast]
  · obtain ⟨hkey, hval⟩ := data_entry h he
    exact h.overwrite he rfl (writes_value hkey (List.getElem?_eq_some_iff.1 hval).1)

end
end DartSdk.CompactHash.LinkedHashMap
