import DartSdk.CompactHash.Iteration

namespace DartSdk.CompactHash
open Function Option LinkedHashMap
open Simulation List

section
variable {K V : Type} (H : EqualsAndHashCode K) (has63BitSmis : Bool)

inductive MapOp (K V : Type)
  | set (i : ℕ) (k : K) (v : V)
  | putIfAbsent (i : ℕ) (k : K) (v : V)
  | remove (i : ℕ) (k : K)
  | clear (i : ℕ)
  | addAll (i j : ℕ)
  | quickCopy (i j : ℕ)

inductive MapOut (V : Type)
  | done
  | value (v : V)
  | removed (v : Option V)
  | copied (b : Bool)

def mapStep (m : ℕ → LinkedHashMap K V) : MapOp K V → Option ((ℕ → LinkedHashMap K V) × MapOut V)
  | .set i k v => (set H has63BitSmis (m i) k v).map fun s =>
    (update m i s, .done)
  | .putIfAbsent i k v => (putIfAbsent H has63BitSmis (m i) k v).map fun r =>
    (update m i r.1, .value r.2)
  | .remove i k => (remove H (m i) k).map fun r =>
    (update m i r.1, .removed r.2)
  | .clear i => some (update m i (clear (m i)), .done)
  | .addAll i j => (addAll H has63BitSmis (m i) (m j)).map fun s =>
    (update m i s, .done)
  | .quickCopy i j => ((m i).quickCopy (m j)).map fun r =>
    (update m i r.1, .copied r.2)

def MapFits (m : ℕ → LinkedHashMap K V) : MapOp K V → Prop
  | .set i k _ => LinkedHashMap.Admits H (m i) k
  | .putIfAbsent i k _ => LinkedHashMap.Admits H (m i) k
  | .addAll i j => LinkedHashMap.AdmitsFrom H has63BitSmis (m i) (m j)
  | .remove _ _ => True
  | .clear _ => True
  | .quickCopy _ _ => True

open LinkedHashMap in
def mapSpec (a : ℕ → List (K × V)) : MapOp K V → MapOut V → (ℕ → List (K × V)) → Prop
  | .set i k v, out, a' => out = .done ∧ a' = update a i (entriesSet H (a i) k v)
  | .putIfAbsent i k v, out, a' =>
    out = .value (((entriesFind H (a i) k).map Prod.snd).getD v) ∧
      a' = update a i (if (entriesFind H (a i) k).isSome then a i else a i ++ [(k, v)])
  | .remove i k, out, a' => out = .removed ((entriesFind H (a i) k).map Prod.snd) ∧
      a' = update a i (entriesRemove H (a i) k)
  | .clear i, out, a' => out = .done ∧ a' = update a i []
  | .addAll i j, out, a' => out = .done ∧ a' = update a i (entriesAddAll H (a i) (a j))
  | .quickCopy i j, out, a' => out = .copied false ∧ a' = a ∨ out = .copied true ∧ a i = [] ∧ a' = update a i (a j)

open LinkedHashMap in
structure MapAgrees (s : LinkedHashMap K V) (a : List (K × V)) : Prop where
  get : ∀ k, s.get H k = some ((entriesFind H a k).map Prod.snd)
  containsKey : ∀ k, s.containsKey H k = some (entriesFind H a k).isSome
  length : s.length = a.length
  isEmpty : s.isEmpty = a.isEmpty
  forEach : s.forEach = some a
  keys : s.keys.iterate s = .ok (a.map fun x => .key x.1)
  values : s.values.iterate s = .ok (a.map fun x => .value x.2)
  unused : unusedPair ∈ s.index
  words : ∀ w ∈ s.index, w = unusedPair ∨ w = deletedPair ∨ ∃ (e : ℕ) (x : K × V), s.data[2 * e]? = some (.key x.1) ∧
    1 ≤ hashPattern (H.hashCode x.1) s.hashMask s.index.length ∧
    hashPattern (H.hashCode x.1) s.hashMask s.index.length < 1 <<< 32 ∧
    e &&& hashPattern (H.hashCode x.1) s.hashMask s.index.length = 0 ∧
    w = (hashPattern (H.hashCode x.1) s.hashMask s.index.length ||| e)

variable {H has63BitSmis}

section
variable {s : LinkedHashMap K V} {a : List (K × V)} (h : Represents H has63BitSmis layout s a)
include h

lemma iterate_keys : (keys s).iterate s = .ok (a.map fun x => .key x.1) := by
  obtain ⟨log, b, h, rfl⟩ := h
  have hslot : ∀ x : Option (K × V), (layout.slot x 0).isDeleted = x.isNone := by rintro (_ | x) <;> rfl
  rw [iterate_eq h Nat.two_pos (Nat.le_refl _) hslot rfl h.used rfl rfl, take_length]
  rfl

lemma iterate_values : (values s).iterate s = .ok (a.map fun x => .value x.2) := by
  obtain ⟨log, b, h, rfl⟩ := h
  have hslot : ∀ x : Option (K × V), (layout.slot x 1).isDeleted = x.isNone := by rintro (_ | x) <;> rfl
  rw [iterate_eq h Nat.one_lt_two (Nat.le_refl _) hslot rfl h.used rfl rfl, take_length]
  rfl

lemma mapAgrees_of_represents : MapAgrees H s a where
  get := get_eq h
  containsKey := containsKey_eq h
  length := length_eq h
  isEmpty := isEmpty_eq h
  forEach := forEach_eq h
  keys := iterate_keys h
  values := iterate_values h
  unused := by
    obtain ⟨log, b, h, rfl⟩ := h
    exact h.indexed.unused_mem
  words w hw := by
    obtain ⟨log, b, h, rfl⟩ := h
    exact h.index_words hw

end

variable {m : ℕ → LinkedHashMap K V} {a : ℕ → List (K × V)}

lemma represents_update {S E : Type} {L : Layout K E S} {m : ℕ → HashFieldBase S}
    {a : ℕ → List E} (h : ∀ i, Represents H has63BitSmis L (m i) (a i)) {i : ℕ}
    {s : HashFieldBase S} {c : List E} (hs : Represents H has63BitSmis L s c) (j : ℕ) :
    Represents H has63BitSmis L (update m i s j) (update a i c j) := by
  by_cases hj : j = i
  · subst hj
    rwa [update_self, update_self]
  · rw [update_of_ne hj, update_of_ne hj]
    exact h j

lemma evolves_update {S : Type} {m : ℕ → HashFieldBase S} {i : ℕ} {s : HashFieldBase S}
    (hs : Evolves (m i) s) (j : ℕ) : Evolves (m j) (update m i s j) := by
  by_cases hj : j = i
  · subst hj
    rwa [update_self]
  · rw [update_of_ne hj]
    exact .refl _

section
variable (h : ∀ i, Represents H has63BitSmis layout (m i) (a i))
include h

lemma mapStep_refines {op : MapOp K V} (hfits : MapFits H has63BitSmis m op) :
    ∃ m' out a', mapStep H has63BitSmis m op = some (m', out) ∧ mapSpec H a op out a' ∧
    (∀ i, Represents H has63BitSmis layout (m' i) (a' i)) ∧ ∀ i, Evolves (m i) (m' i) := by
  cases op with
  | set i k v =>
    obtain ⟨s, hs, hr, hev⟩ := set_spec (h i) v hfits
    exact ⟨_, _, _, by rw [mapStep, hs]; rfl, ⟨rfl, rfl⟩, represents_update h hr, evolves_update hev⟩
  | putIfAbsent i k v =>
    obtain ⟨s, hs, hr, hev⟩ := putIfAbsent_spec (h i) v hfits
    exact ⟨_, _, _, by rw [mapStep, hs]; rfl, ⟨rfl, rfl⟩, represents_update h hr, evolves_update hev⟩
  | remove i k =>
    obtain ⟨s, hs, hr, hev⟩ := remove_spec (h i) k
    exact ⟨_, _, _, by rw [mapStep, hs]; rfl, ⟨rfl, rfl⟩, represents_update h hr, evolves_update hev⟩
  | clear i =>
    obtain ⟨hr, hev⟩ := clear_spec (h i)
    exact ⟨_, _, _, rfl, ⟨rfl, rfl⟩, represents_update h hr, evolves_update hev⟩
  | addAll i j =>
    obtain ⟨s, hs, hr, hev⟩ := addAll_spec (h i) (h j) hfits
    exact ⟨_, _, _, by rw [mapStep, hs]; rfl, ⟨rfl, rfl⟩, represents_update h hr, evolves_update hev⟩
  | quickCopy i j =>
    rcases (h i).quickCopy (h j) with hq | ⟨hnil, s, hq, hr, hev⟩
    · refine ⟨m, _, a, ?_, .inl ⟨rfl, rfl⟩, h, fun i => .refl _⟩
      rw [mapStep, hq, map_some, update_eq_self]
    · exact ⟨_, _, _, by rw [mapStep, hq]; rfl, .inr ⟨rfl, hnil, rfl⟩, represents_update h hr, evolves_update hev⟩

lemma mapFits_of_mapStep {op : MapOp K V}
    {r : (ℕ → LinkedHashMap K V) × MapOut V} (hstep : mapStep H has63BitSmis m op = some r) :
    MapFits H has63BitSmis m op := by
  cases op with
  | set i k v =>
    obtain ⟨s, hs, -⟩ := map_eq_some_iff.1 hstep
    exact admits_of_set (h i) hs
  | putIfAbsent i k v =>
    obtain ⟨s, hs, -⟩ := map_eq_some_iff.1 hstep
    exact admits_of_putIfAbsent (h i) hs
  | addAll i j =>
    obtain ⟨s, hs, -⟩ := map_eq_some_iff.1 hstep
    exact admitsFrom_of_addAll (h i) (h j) hs
  | remove i k | clear i | quickCopy i j => trivial

end
end

section
variable {K : Type} (H : EqualsAndHashCode K) (has63BitSmis : Bool)

inductive SetOp (K : Type)
  | add (i : ℕ) (k : K)
  | remove (i : ℕ) (k : K)
  | clear (i : ℕ)

def setStep (m : ℕ → LinkedHashSet K) : SetOp K → Option ((ℕ → LinkedHashSet K) × Option Bool)
  | .add i k => (LinkedHashSet.add H has63BitSmis (m i) k).map fun r =>
    (update m i r.1, some r.2)
  | .remove i k => (LinkedHashSet.remove H (m i) k).map fun r =>
    (update m i r.1, some r.2)
  | .clear i => some (update m i (LinkedHashSet.clear (m i)), none)

def SetFits (m : ℕ → LinkedHashSet K) : SetOp K → Prop
  | .add i k => LinkedHashSet.Admits H (m i) k
  | .remove _ _ => True
  | .clear _ => True

open LinkedHashSet in
def setSpec (a : ℕ → List K) : SetOp K → Option Bool → (ℕ → List K) → Prop
  | .add i k, out, a' => out = some (!(keysFind H (a i) k).isSome) ∧ a' = update a i (keysAdd H (a i) k)
  | .remove i k, out, a' => out = some (keysFind H (a i) k).isSome ∧ a' = update a i (keysRemove H (a i) k)
  | .clear i, out, a' => out = none ∧ a' = update a i []

open LinkedHashSet in
structure SetAgrees (s : LinkedHashSet K) (a : List K) : Prop where
  lookup : ∀ k, s.lookup H k = some (keysFind H a k)
  contains : ∀ k, s.contains H k = some (keysFind H a k).isSome
  length : s.length = a.length
  isEmpty : s.isEmpty = a.isEmpty
  first : s.first = a.head?
  last : s.last = a.getLast?
  elements : s.elements.iterate s = .ok (a.map .key)
  unused : unusedPair ∈ s.index
  words : ∀ w ∈ s.index, w = unusedPair ∨ w = deletedPair ∨ ∃ (d : ℕ) (k : K), s.data[d]? = some (.key k) ∧
    1 ≤ hashPattern (H.hashCode k) s.hashMask s.index.length ∧
    hashPattern (H.hashCode k) s.hashMask s.index.length < 1 <<< 32 ∧
    d &&& hashPattern (H.hashCode k) s.hashMask s.index.length = 0 ∧
    w = (hashPattern (H.hashCode k) s.hashMask s.index.length ||| d)

variable {H has63BitSmis}
variable {a : List K} {s : LinkedHashSet K}

section
variable (h : Represents H has63BitSmis LinkedHashSet.layout s a)
include h

lemma iterate_elements : (LinkedHashSet.elements s).iterate s = .ok (a.map .key) := by
  obtain ⟨log, b, h, rfl⟩ := h
  have hslot : ∀ x : Option K, (LinkedHashSet.layout.slot x 0).isDeleted = x.isNone := by rintro (_ | x) <;> rfl
  rw [iterate_eq h Nat.one_pos (Nat.le_refl _) hslot rfl h.used rfl rfl, take_length]
  rfl

lemma setAgrees_of_represents : SetAgrees H s a where
  lookup := LinkedHashSet.lookup_eq h
  contains := LinkedHashSet.contains_eq h
  length := LinkedHashSet.length_eq h
  isEmpty := LinkedHashSet.isEmpty_eq h
  first := LinkedHashSet.first_eq h
  last := LinkedHashSet.last_eq h
  elements := iterate_elements h
  unused := by
    obtain ⟨log, b, h, rfl⟩ := h
    exact h.indexed.unused_mem
  words w hw := by
    obtain ⟨log, b, h, rfl⟩ := h
    have hword := h.index_words hw
    simp only [show (LinkedHashSet.layout).step = 1 from rfl, Nat.one_mul] at hword
    exact hword

end

lemma setStep_refines {m : ℕ → LinkedHashSet K} {a : ℕ → List K} {op : SetOp K}
    (h : ∀ i, Represents H has63BitSmis LinkedHashSet.layout (m i) (a i)) (hfits : SetFits H m op) :
    ∃ m' out a', setStep H has63BitSmis m op = some (m', out) ∧ setSpec H a op out a' ∧
    ∀ i, Represents H has63BitSmis LinkedHashSet.layout (m' i) (a' i) := by
  cases op with
  | add i k =>
    obtain ⟨s, hs, hr, -⟩ := LinkedHashSet.add_spec (h i) hfits
    exact ⟨_, _, _, by rw [setStep, hs]; rfl, ⟨rfl, rfl⟩, represents_update h hr⟩
  | remove i k =>
    obtain ⟨s, hs, hr, -⟩ := LinkedHashSet.remove_spec (h i) k
    exact ⟨_, _, _, by rw [setStep, hs]; rfl, ⟨rfl, rfl⟩, represents_update h hr⟩
  | clear i =>
    obtain ⟨hr, -⟩ := LinkedHashSet.clear_spec (h i)
    exact ⟨_, _, _, rfl, ⟨rfl, rfl⟩, represents_update h hr⟩

end

section
variable {K V : Type}

def noMaps : ℕ → LinkedHashMap K V := fun _ => empty

def noSets : ℕ → LinkedHashSet K := fun _ => LinkedHashSet.empty

lemma represents_empty {E S : Type} (H : EqualsAndHashCode K) (has63BitSmis : Bool)
    (L : Layout K E S) : Represents H has63BitSmis L (HashFieldBase.uninitialized 0) [] :=
  ⟨[], 0, Table.uninitialized 0, rfl⟩

theorem collections_refine (H : EqualsAndHashCode K) (has63BitSmis : Bool) :
    (∀ ops : List (MapOp K V), Along (mapStep H has63BitSmis) (MapFits H has63BitSmis) noMaps ops →
      ∃ m outs a, run (mapStep H has63BitSmis) noMaps ops = some (m, outs) ∧
        Specified (mapSpec H) (fun _ => []) ops outs a ∧ ∀ i, MapAgrees H (m i) (a i)) ∧
    (∀ ops : List (SetOp K), Along (setStep H has63BitSmis) (SetFits H) noSets ops →
      ∃ m outs a, run (setStep H has63BitSmis) noSets ops = some (m, outs) ∧
        Specified (setSpec H) (fun _ => []) ops outs a ∧ ∀ i, SetAgrees H (m i) (a i)) := by
  constructor
  · intro ops hok
    obtain ⟨m, outs, a, hrun, hspec, h⟩ := run_simulates
      (fun h hfits => by
        obtain ⟨m', out, a', hs, hspec, h', -⟩ := mapStep_refines h hfits
        exact ⟨m', out, a', hs, hspec, h'⟩) ops
      (fun _ => represents_empty H has63BitSmis layout) hok
    exact ⟨m, outs, a, hrun, hspec, fun i => mapAgrees_of_represents (h i)⟩
  · intro ops hok
    obtain ⟨m, outs, a, hrun, hspec, h⟩ := run_simulates setStep_refines ops
      (fun _ => represents_empty H has63BitSmis LinkedHashSet.layout) hok
    exact ⟨m, outs, a, hrun, hspec, fun i => setAgrees_of_represents (h i)⟩

def natEquals : EqualsAndHashCode ℕ where
  equals a b := a = b
  hashCode a := a
  refl := by simp
  symm := by simp [eq_comm]
  trans := by
    intro a b c hab hbc
    simp only [decide_eq_true_eq] at hab hbc ⊢
    exact hab.trans hbc
  consistent := by simp

def mapRoom (m : ℕ → LinkedHashMap ℕ ℕ) : MapOp ℕ ℕ → Bool
  | .set i _ _ | .putIfAbsent i _ _ => decide ((m i).Fits 2)
  | .addAll _ _ => false
  | _ => true

def setRoom (m : ℕ → LinkedHashSet ℕ) : SetOp ℕ → Bool
  | .add i _ => decide ((m i).Fits 1)
  | _ => true

/-- Six keys need a larger index than the first; then a deletion, an insertion of the deleted key and a copy. -/
def growingMap : List (MapOp ℕ ℕ) :=
  (List.range 6).map (fun k => .set 0 (8 * k) k) ++
    [.remove 0 16, .set 0 24 7, .putIfAbsent 0 16 9, .quickCopy 1 0, .set 1 5 5, .clear 0]

def growingSet : List (SetOp ℕ) := (List.range 6).map (fun k => .add 0 (8 * k)) ++ [.remove 0 16, .add 0 16, .clear 0]

theorem collections_refine_growing :
    (∃ m outs a, run (mapStep natEquals true) noMaps growingMap = some (m, outs) ∧
      Specified (mapSpec natEquals) (fun _ => []) growingMap outs a ∧ ∀ i, MapAgrees natEquals (m i) (a i)) ∧
    ∃ m outs a, run (setStep natEquals true) noSets growingSet = some (m, outs) ∧
      Specified (setSpec natEquals) (fun _ => []) growingSet outs a ∧ ∀ i, SetAgrees natEquals (m i) (a i) := by
  have hmap : ∀ m op, mapRoom m op = true → MapFits natEquals true m op := by
    intro m op h
    cases op with
    | set | putIfAbsent => exact .inr (of_decide_eq_true h)
    | addAll => cases h
    | _ => trivial
  have hset : ∀ m op, setRoom m op = true → SetFits natEquals m op := by
    intro m op h
    cases op with
    | add => exact .inr (of_decide_eq_true h)
    | _ => trivial
  have h := collections_refine (V := ℕ) natEquals true
  exact ⟨h.1 _ (along_of_check hmap (by decide +kernel)), h.2 _ (along_of_check hset (by decide +kernel))⟩

def entriesUpTo (n : ℕ) : List (ℕ × ℕ) := (List.range n).map fun k => (k, k)

lemma length_entriesUpTo (n : ℕ) : ((entriesUpTo n).map some).length = n := by
  rw [length_map, entriesUpTo, length_map, length_range]

lemma entriesUpTo_succ (n : ℕ) : (entriesUpTo (n + 1)).map some = (entriesUpTo n).map some ++ [some (n, n)] := by
  rw [entriesUpTo, range_succ, map_append, map_append]
  rfl

lemma entriesUpTo_absent (n e : ℕ) (x : ℕ × ℕ)
    (hx : ((entriesUpTo n).map some)[e]? = some (some x)) : natEquals.equals n x.1 = false := by
  have hmem : x ∈ entriesUpTo n := by simpa using mem_of_getElem? hx
  obtain ⟨k, hk, rfl⟩ := mem_map.1 hmem
  have hlt := mem_range.1 hk
  exact decide_eq_false (by omega)

section
variable {n b : ℕ} {s : LinkedHashMap ℕ ℕ}
  (h : Table natEquals true layout s ((entriesUpTo n).map some) b)

include h

lemma deletedKeys_insertions : s.deletedKeys = 0 := by
  have hd := h.deleted
  rw [InsertionOrder.reduceOption_map_some, length_map] at hd
  omega

lemma set_insertions (hn : n < 2 ^ 31) (hb : b ≤ 3 ∨ 2 ^ b / 4 < n) : ∃ s' b', set natEquals true s n n = some s' ∧
    Table natEquals true layout s' ((entriesUpTo (n + 1)).map some) b' ∧
    (b' ≤ 3 ∨ 2 ^ b' / 4 < n + 1) := by
  have hlen := length_entriesUpTo n
  have hle := h.length_le
  rw [entriesUpTo_succ]
  by_cases hroom : n < 2 ^ b / 2
  · obtain ⟨s', hs, hs', -⟩ := setWithHash_room n h (entriesUpTo_absent n) (by rwa [hlen]) 1
    exact ⟨s', b, hs, hs', by omega⟩
  · have hb32 : b < 32 := by
      by_contra hge
      have hpow : 2 ^ 32 ≤ 2 ^ b := Nat.pow_le_pow_right (by norm_num) (by omega)
      omega
    obtain ⟨s', b', hb', hs, hs'⟩ := setWithHash_full n h (entriesUpTo_absent n) 0 (by omega) (.inr hb32)
    rw [InsertionOrder.reduceOption_map_some] at hs'
    refine ⟨s', b', hs, hs', ?_⟩
    rw [if_neg (by rw [deletedKeys_insertions h, Nat.zero_shiftLeft]; omega), grown] at hb'
    split_ifs at hb' with h0
    · exact .inl hb'.ge
    · rw [← hb']
      omega

end

lemma run_insertions (n : ℕ) (hn : n ≤ 2 ^ 31) : ∃ m outs b,
    run (mapStep natEquals true) noMaps ((List.range n).map fun k => .set 0 k k) = some (m, outs) ∧
    Table natEquals true layout (m 0) ((entriesUpTo n).map some) b ∧
    (b ≤ 3 ∨ 2 ^ b / 4 < n) := by
  induction n with
  | zero => exact ⟨noMaps, [], 0, rfl, Table.uninitialized 0, .inl (by norm_num)⟩
  | succ n ih =>
    obtain ⟨m, outs, b, hrun, h, hb⟩ := ih (by omega)
    obtain ⟨s, b', hs, hs', hb'⟩ := set_insertions h (by omega) hb
    refine ⟨update m 0 s, outs ++ [.done], b', ?_, ?_, hb'⟩
    · rw [range_succ, map_append, map_singleton, run_concat, hrun, bind_some, mapStep, hs]
      rfl
    · rwa [update_self]

theorem insertion_fails : run (mapStep natEquals true) noMaps ((List.range (2 ^ 31 + 1)).map fun k => .set 0 k k) =
    none := by
  obtain ⟨m, outs, b, hrun, h, -⟩ := run_insertions (2 ^ 31) (Nat.le_refl _)
  have hlen := length_entriesUpTo (2 ^ 31)
  have hle := h.length_le
  have hbits := h.bits
  have hb32 : b = 32 := by
    by_contra hne
    have hpow : 2 ^ b ≤ 2 ^ 31 := Nat.pow_le_pow_right (by norm_num) (by omega)
    omega
  have hfits : ¬ (m 0).Fits 2 := by
    rw [h.fits_iff, deletedKeys_insertions h, hb32, hlen]
    norm_num
  have hset : LinkedHashMap.set natEquals true (m 0) (2 ^ 31) (2 ^ 31) = none := by
    obtain ⟨i, hfind, -⟩ := LinkedHashMap.find_absent h (entriesUpTo_absent (2 ^ 31))
    rw [LinkedHashMap.set, LinkedHashMap.setWithHash, hfind, some_bind,
      if_neg (by omega), LinkedHashMap.insert_none _ h 0 hfits]
  rw [range_succ, map_append, map_singleton, run_concat, hrun, bind_some, mapStep, hset]
  rfl

end
end DartSdk.CompactHash
