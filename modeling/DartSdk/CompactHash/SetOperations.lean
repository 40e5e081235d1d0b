import DartSdk.CompactHash.LinkedHashSet
import DartSdk.CompactHash.Table

namespace DartSdk.CompactHash.LinkedHashSet
open Option List
open InsertionOrder List
variable {K : Type}

def setSlot : Option K → ℕ → Slot K Empty
  | none, _ => .deleted
  | some k, _ => .key k

def layout : Layout K K (Slot K Empty) where
  step := 1
  step_pos := Nat.one_pos
  key := id
  slot := setSlot

def keysFind (H : EqualsAndHashCode K) (a : List K) (k : K) : Option K := find H.equals id a k

def keysAdd (H : EqualsAndHashCode K) (a : List K) (k : K) : List K :=
  if (keysFind H a k).isSome then a else a ++ [k]

def keysRemove (H : EqualsAndHashCode K) (a : List K) (k : K) : List K :=
  InsertionOrder.remove H.equals id a k

def Admits (H : EqualsAndHashCode K) (s : LinkedHashSet K) (key : K) : Prop :=
  s.contains H key = some true ∨ s.Fits 1

variable {H : EqualsAndHashCode K} {smi63 : Bool} {s : LinkedHashSet K}
  {log : List (Option K)} {b e : ℕ} {k k₀ : K}

section
variable (h : Table H smi63 layout s log b)
include h

lemma data_entry {x : Option K} (he : log[e]? = some x) : s.data[e]? = some (setSlot x 0) := by
  have hslot := h.slots he Nat.one_pos
  rwa [Nat.add_zero, show layout.step * e = e from Nat.one_mul e] at hslot

lemma used_eq : s.usedData = log.length := by
  rw [h.used]
  exact Nat.one_mul _

lemma capacity_eq : s.data.length = 2 ^ b / 2 := by
  rw [h.capacity]
  exact Nat.one_mul _

lemma isKey_entry (k₀ : K) (e : ℕ) (k : K) (he : log[e]? = some (some k)) : isKey H s k₀ e = H.equals k₀ k := by
  rw [isKey, data_entry h he]
  rfl

lemma search_missing (hf : keysFind H log.reduceOption k = none) :
    ∃ p, search s.index (hashPattern (H.hashCode k) s.hashMask s.index.length) (H.hashCode k)
    (s.isKey H k) = some p ∧ p.entry = none ∧ FreeSlot s.index b (H.hashCode k) p.insertionPoint :=
  h.search_absent (isKey_entry h k) (find_eq_none_iff.1 hf)

end

lemma writes {data : List (Slot K Empty)} (x : Option K) (hlt : e < data.length) :
    Table.Writes layout data (data.set e (setSlot x 0)) e x where
  length := length_set
  slots {j} hj := by
    obtain rfl : j = 0 := Nat.lt_one_iff.1 hj
    rw [show layout.step * e = e from Nat.one_mul e]
    exact getElem?_set_self hlt
  other {q} hq := getElem?_set_ne fun heq => hq (by rw [← heq]; exact Nat.div_one e)

section

lemma addWithHash_room (h : Table H smi63 layout s log b)
    (hf : keysFind H log.reduceOption k = none) (hroom : log.length < 2 ^ b / 2) (fuel : ℕ) :
    ∃ s', addWithHash H smi63 (fuel + 1) s k (H.hashCode k) = some (s', true) ∧
    Table H smi63 layout s' (log ++ [some k]) b ∧ s'.dataId = s.dataId ∧ s'.allocated = s.allocated := by
  obtain ⟨p, hp, hentry, hfree⟩ := search_missing h hf
  have hused := used_eq h
  have hcap := capacity_eq h
  have happend := h.append hroom (find_eq_none_iff.1 hf) hfree (writes (some k) (by omega))
  rw [hused] at happend
  rw [addWithHash, hp]
  simp only [some_bind, hentry]
  rw [if_neg (by omega), hused, h.storePair_used hroom]
  exact ⟨_, rfl, happend, rfl, rfl⟩

lemma insertsInPlace (fuel : ℕ) : InsertsInPlace H smi63 layout
    (fun s k => (addWithHash H smi63 (fuel + 1) s k (H.hashCode k)).map Prod.fst) b := by
  intro s log k h hroom habsent
  obtain ⟨s', hs', hrest⟩ := addWithHash_room h (find_eq_none_iff.2 habsent) hroom fuel
  exact ⟨s', congrArg (Option.map Prod.fst) hs', hrest⟩

def fresh (smi63 : Bool) (b allocated : ℕ) : LinkedHashSet K where
  index := replicate (2 ^ b) unusedPair
  hashMask := maskFor smi63 b
  data := replicate (2 ^ b >>> 1) .null
  dataId := allocated + 1
  usedData := 0
  deletedKeys := 0
  allocated := allocated + 1

variable (h : Table H smi63 layout s log b)
  (addKey : LinkedHashSet K → K → ℕ → Option (LinkedHashSet K × Bool))

include h

lemma copyEntries_eq (t : LinkedHashSet K) : copyEntries H addKey s.data s.usedData t =
    log.reduceOption.foldlM (fun t k => (addKey t k (H.hashCode k)).map Prod.fst) t := by
  rw [copyEntries, used_eq h, foldlM_range log _
    (fun t x => x.elim (some t) fun k => (addKey t k (H.hashCode k)).map Prod.fst)]
  · exact foldlM_reduceOption log _ _ (fun _ => rfl) (fun _ _ => rfl) t
  · intro t j x hx
    rw [data_entry h hx]
    cases x <;> rfl

lemma compact_iff : s.usedData < s.deletedKeys <<< 1 ↔ log.length < 2 * s.deletedKeys := by
  rw [used_eq h, Nat.shiftLeft_eq, mul_comm]

lemma rehash_eq : rehash H smi63 addKey s =
    log.reduceOption.foldlM (fun t k => (addKey t k (H.hashCode k)).map Prod.fst)
      (fresh smi63 (if s.usedData < s.deletedKeys <<< 1 then b else grown b) s.allocated) := by
  have hinit : ∀ {size hashMask b' : ℕ}, initSize smi63 size hashMask = (2 ^ b', maskFor smi63 b') →
      init H smi63 addKey size hashMask s = log.reduceOption.foldlM (fun t k => (addKey t k (H.hashCode k)).map Prod.fst)
        (fresh smi63 b' s.allocated) := by
    intro size hashMask b' hsize
    rw [init, hsize]
    exact copyEntries_eq h addKey _
  rw [rehash, h.size, h.mask]
  split_ifs with hc
  · exact hinit (initSize_same _ (h.live_lt ((compact_iff h).1 hc)).1)
  · exact hinit (initSize_grown _ (h.bits.imp id And.left))

variable (fuel : ℕ)

lemma rehash_spec (hfits : s.usedData < s.deletedKeys <<< 1 ∨ b < 32) :
    ∃ s' b', rehash H smi63 (addWithHash H smi63 (fuel + 1)) s = some s' ∧
    Table H smi63 layout s' (log.reduceOption.map some) b' ∧ log.reduceOption.length < 2 ^ b' / 2 ∧
    s'.dataId = s.allocated + 1 ∧ s'.allocated = s.allocated + 1 := by
  obtain ⟨hb, hb', hroom⟩ := h.rehash_bits (compact_iff h).1 hfits
  rw [rehash_eq h]
  generalize (if s.usedData < s.deletedKeys <<< 1 then b else grown b) = b' at hb hb' hroom ⊢
  have hfresh : Table H smi63 layout (fresh smi63 b' s.allocated) [] b' := by
    refine Table.fresh hb hb' rfl ?_
    rw [length_replicate, Nat.shiftRight_eq_div_pow]
    exact (Nat.one_mul _).symm
  obtain ⟨s', hs', h', hid, hal⟩ := h.copied (insertsInPlace fuel) hfresh hroom
  exact ⟨s', b', hs', h', hroom, hid, hal⟩

end

section
variable {a : List K} (h : Represents H smi63 layout s a)
include h

lemma lookup_eq (k : K) : s.lookup H k = some (keysFind H a k) := by
  obtain ⟨log, b, h, rfl⟩ := h
  cases hf : keysFind H log.reduceOption k with
  | none =>
    obtain ⟨p, hp, hentry, -⟩ := search_missing h hf
    rw [lookup, getKeyOrData, hp]
    simp only [some_bind, hentry]
  | some x =>
    obtain ⟨e, p, he, -, hp, hentry, -⟩ := h.search_found (isKey_entry h k) hf
    rw [lookup, getKeyOrData, hp]
    simp only [some_bind, hentry, data_entry h he]
    rfl

lemma contains_eq (k : K) : s.contains H k = some (keysFind H a k).isSome := by
  have hl := lookup_eq h k
  rw [lookup] at hl
  rw [contains, hl, map_some]

lemma length_eq : s.length = a.length := by
  obtain ⟨log, b, h, rfl⟩ := h
  have hd := h.deleted
  rw [length, used_eq h]
  omega

lemma isEmpty_eq : s.isEmpty = a.isEmpty := by
  rw [isEmpty, length_eq h, Bool.eq_iff_iff, decide_eq_true_iff, List.isEmpty_iff, length_eq_zero_iff]

lemma clear_spec : Represents H smi63 layout s.clear [] ∧ Evolves s s.clear := by
  rw [clear, isEmpty_eq h]
  split_ifs with hnil
  · rw [List.isEmpty_iff] at hnil
    exact ⟨hnil ▸ h, .refl s⟩
  · exact h.clear

lemma remove_spec (k : K) : ∃ s', s.remove H k = some (s', (keysFind H a k).isSome) ∧
    Represents H smi63 layout s' (keysRemove H a k) ∧ Evolves s s' := by
  obtain ⟨log, b, h, rfl⟩ := h
  cases hf : keysFind H log.reduceOption k with
  | none =>
    obtain ⟨p, hp, hentry, -⟩ := search_missing h hf
    rw [keysRemove, remove_of_not_find hf, remove, hp]
    simp only [some_bind, hentry]
    exact ⟨s, rfl, h.represents, .refl s⟩
  | some x =>
    obtain ⟨e, p, he, heq, hp, hentry, hword⟩ := h.search_found (isKey_entry h k) hf
    have herase := h.erase he hword (writes none (List.getElem?_eq_some_iff.1 (data_entry h he)).1)
    rw [remove, hp]
    simp only [some_bind, hentry]
    refine ⟨_, rfl, ⟨_, b, herase, ?_⟩, .of_same rfl rfl (Nat.le_refl _)⟩
    exact reduceOption_set_none h.distinct he H.symm H.trans heq

lemma add_spec {k : K} (hk : s.Admits H k) : ∃ s', s.add H smi63 k = some (s', !(keysFind H a k).isSome) ∧
    Represents H smi63 layout s' (keysAdd H a k) ∧ Evolves s s' := by
  rw [Admits, contains_eq h] at hk
  obtain ⟨log, b, h, rfl⟩ := h
  rw [keysAdd]
  cases hf : keysFind H log.reduceOption k with
  | none =>
    have hfits : s.Fits 1 := hk.resolve_left (by rw [hf]; simp)
    by_cases hroom : log.length < 2 ^ b / 2
    · obtain ⟨s', hs', h', hid, hal⟩ := addWithHash_room h hf hroom 1
      refine ⟨s', hs', ⟨_, b, h', ?_⟩, .of_same hid hal ?_⟩
      · rw [reduceOption_append, reduceOption_cons_of_some]
        rfl
      · rw [used_eq h, used_eq h', length_append]
        exact Nat.le_add_right _ _
    · obtain ⟨p, hp, hentry, -⟩ := search_missing h hf
      obtain ⟨s1, b₁, hs1, h1, hroom1, hid1, hal1⟩ := rehash_spec h 0 (((h.fits_iff 1).1 hfits).resolve_left hroom)
      obtain ⟨s2, hs2, h2, hid2, hal2⟩ := addWithHash_room h1 (by rw [reduceOption_map_some, hf]) (by rwa [length_map]) 0
      refine ⟨s2, ?_, ⟨_, b₁, h2, ?_⟩, .of_new (hid2.trans hid1) (hal2.trans hal1) h.allocated⟩
      · rw [add, addWithHash, hp]
        simp only [bind_eq_bind, bind_some, hentry]
        rw [if_pos (h.full_iff.2 (h.length_eq_of_full hroom)), hs1, bind_some, hs2]
        rfl
      · rw [reduceOption_append, reduceOption_map_some, reduceOption_cons_of_some]
        rfl
  | some x =>
    obtain ⟨e, p, -, -, hp, hentry, -⟩ := h.search_found (isKey_entry h k) hf
    rw [add, addWithHash, hp]
    simp only [bind_eq_bind, bind_some, hentry]
    exact ⟨s, rfl, h.represents, .refl s⟩

omit h in
lemma firstAt_eq (h : Table H smi63 layout s log b) (offsets : List ℕ) : (∀ e ∈ offsets, e < log.length) →
    s.firstAt offsets = (offsets.filterMap fun e => log[e]?.join).head? := by
  induction offsets with
  | nil => exact fun _ => rfl
  | cons e offsets ih =>
    intro hlt
    obtain ⟨x, he⟩ : ∃ x, log[e]? = some x := ⟨_, getElem?_eq_getElem (hlt e mem_cons_self)⟩
    have hih := ih fun e' he' => hlt e' (mem_cons_of_mem e he')
    rw [firstAt, data_entry h he, filterMap_cons, he]
    cases x with
    | none => exact hih
    | some x => rfl

lemma first_eq : s.first = a.head? := by
  obtain ⟨log, b, h, rfl⟩ := h
  rw [first, used_eq h, firstAt_eq h _ fun e => mem_range.1, filterMap_range]

lemma last_eq : s.last = a.getLast? := by
  obtain ⟨log, b, h, rfl⟩ := h
  rw [last, used_eq h, firstAt_eq h _ fun e he => mem_range.1 (mem_reverse.1 he),
    filterMap_reverse, filterMap_range, head?_reverse]

end
end DartSdk.CompactHash.LinkedHashSet
