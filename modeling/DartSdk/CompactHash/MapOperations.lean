import DartSdk.CompactHash.MapTable

namespace DartSdk.CompactHash.LinkedHashMap
open Option
open InsertionOrder List
variable {K V : Type} (H : EqualsAndHashCode K) (smi63 : Bool)
variable {s' : LinkedHashMap K V} {k : K}

def entriesSet (a : List (K × V)) (k : K) (v : V) : List (K × V) :=
  put H.equals Prod.fst a k (fun x => (x.1, v)) (k, v)

def entriesFind (a : List (K × V)) (k : K) : Option (K × V) := find H.equals Prod.fst a k

def entriesRemove (a : List (K × V)) (k : K) : List (K × V) := InsertionOrder.remove H.equals Prod.fst a k

def entriesAddAll (a c : List (K × V)) : List (K × V) :=
  c.foldl (fun a x => entriesSet H a x.1 x.2) a

def Admits (s : LinkedHashMap K V) (key : K) : Prop :=
  s.containsKey H key = some true ∨ s.Fits 2

def AdmitsAll : LinkedHashMap K V → List (K × V) → Prop
  | _, [] => True
  | s, x :: xs => s.Admits H x.1 ∧ ∀ s', s.set H smi63 x.1 x.2 = some s' → AdmitsAll s' xs

def AdmitsFrom (s other : LinkedHashMap K V) : Prop :=
  (s.isEmpty = true ∧ ∃ s', s.quickCopy other = some (s', true)) ∨
    ∀ entries, other.forEach = some entries → AdmitsAll H smi63 s entries

variable {H smi63} {s t : LinkedHashMap K V} {a c : List (K × V)}

section
variable {log : List (Option (K × V))} {b : ℕ} (h : Table H smi63 layout s log b)
include h

lemma getValueOrData_eq (k : K) : s.getValueOrData H k = some ((entriesFind H log.reduceOption k).map Prod.snd) := by
  cases hf : entriesFind H log.reduceOption k with
  | none =>
    obtain ⟨p, hp, hent, -⟩ := h.search_absent (isKey_entry h k) (find_eq_none_iff.1 hf)
    rw [getValueOrData, hp]
    simp only [some_bind, hent, map_none]
  | some x =>
    obtain ⟨e, p, he, -, hp, hent, -⟩ := h.search_found (isKey_entry h k) hf
    rw [getValueOrData, hp]
    simp only [some_bind, hent, map_some, shiftLeft_one, (data_entry h he).2, mapSlot]

end

variable (h : Represents H smi63 layout s a)
include h

lemma get_eq (k : K) : s.get H k = some ((entriesFind H a k).map Prod.snd) := by
  obtain ⟨log, b, h, rfl⟩ := h
  exact getValueOrData_eq h k

lemma containsKey_eq (k : K) : s.containsKey H k = some (entriesFind H a k).isSome := by
  obtain ⟨log, b, h, rfl⟩ := h
  rw [containsKey, getValueOrData_eq h, map_some, isSome_map]

lemma length_eq : s.length = a.length := by
  obtain ⟨log, b, h, rfl⟩ := h
  have hused : s.usedData = 2 * log.length := h.used
  have hd := h.deleted
  rw [length, Nat.shiftRight_eq_div_pow]
  omega

lemma isEmpty_eq : s.isEmpty = a.isEmpty := by
  rw [isEmpty, length_eq h, Bool.eq_iff_iff, decide_eq_true_iff, List.isEmpty_iff, length_eq_zero_iff]

lemma forEach_eq : s.forEach = some a := by
  obtain ⟨log, b, h, rfl⟩ := h
  have hlen : s.usedData / 2 = log.length := by
    have hused : s.usedData = 2 * log.length := h.used
    omega
  have hpure : ∀ (xs calls : List (K × V)),
      xs.foldlM (fun calls x => some (calls ++ [x])) calls = some (calls ++ xs) := by
    intro xs
    induction xs with
    | nil => simp
    | cons x xs ih =>
      intro calls
      rw [foldlM_cons, some_bind, ih, append_assoc, singleton_append]
  rw [forEach, hlen, foldlM_range log _ (fun calls x => some (calls ++ x.toList))]
  · rw [foldlM_reduceOption log _ (fun calls x => some (calls ++ [x])) (by simp) (fun _ _ => rfl), hpure, nil_append]
  · intro calls j x hx
    obtain ⟨hkey, hval⟩ := data_entry h hx
    rw [hkey, hval]
    cases x <;> simp [mapSlot]

lemma clear_spec : Represents H smi63 layout s.clear [] ∧ Evolves s s.clear := by
  rw [clear, isEmpty_eq h]
  split_ifs with hnil
  · rw [List.isEmpty_iff] at hnil
    exact ⟨hnil ▸ h, .refl s⟩
  · exact h.clear

lemma remove_spec (k : K) : ∃ s', s.remove H k = some (s', (entriesFind H a k).map Prod.snd) ∧
    Represents H smi63 layout s' (entriesRemove H a k) ∧ Evolves s s' := by
  obtain ⟨log, b, h, rfl⟩ := h
  cases hf : entriesFind H log.reduceOption k with
  | none =>
    obtain ⟨p, hp, hent, -⟩ := h.search_absent (isKey_entry h k) (find_eq_none_iff.1 hf)
    rw [entriesRemove, remove_of_not_find hf, remove, hp]
    simp only [some_bind, hent]
    exact ⟨s, rfl, h.represents, .refl s⟩
  | some x =>
    obtain ⟨e, p, he, heq, hp, hent, hword⟩ := h.search_found (isKey_entry h k) hf
    have hval := (data_entry h he).2
    have hera := h.erase he hword (writes_pair (List.getElem?_eq_some_iff.1 hval).1 none)
    rw [remove, hp]
    simp only [some_bind, hent, shiftLeft_one, hval]
    refine ⟨_, rfl, ⟨_, b, hera, ?_⟩, .of_same rfl rfl (Nat.le_refl _)⟩
    exact reduceOption_set_none h.distinct he H.symm H.trans heq

lemma set_spec (v : V) (hk : s.Admits H k) : ∃ s', s.set H smi63 k v = some s' ∧
    Represents H smi63 layout s' (entriesSet H a k v) ∧ Evolves s s' := by
  rw [Admits, containsKey_eq h] at hk
  obtain ⟨log, b, h, rfl⟩ := h
  cases hf : entriesFind H log.reduceOption k with
  | none =>
    have habs := find_eq_none_iff.1 hf
    obtain ⟨i, hfind, hfree⟩ := find_absent h habs
    have hfits : s.Fits 2 := hk.resolve_left (by rw [hf]; simp)
    rw [set, setWithHash, hfind, some_bind, if_neg (by omega), neg_neg, entriesSet, put_of_not_find hf]
    exact insert_fits v h habs 0 hfree hfits
  | some x =>
    obtain ⟨e, he, heq⟩ := getElem?_of_find hf
    obtain ⟨hset, htab⟩ := setWithHash_present v h 1 he heq
    refine ⟨_, hset, ⟨_, b, htab, ?_⟩, .of_same rfl rfl (Nat.le_refl _)⟩
    rw [entriesSet, put_of_find hf]
    exact reduceOption_set_some h.distinct he H.symm H.trans heq fun x => (x.1, v)

lemma admits_of_set {v : V} (hset : s.set H smi63 k v = some s') : s.Admits H k := by
  rw [Admits, containsKey_eq h]
  by_contra hn
  rw [not_or, Option.some.injEq, Bool.not_eq_true, isSome_eq_false_iff, isNone_iff_eq_none] at hn
  obtain ⟨log, b, h, rfl⟩ := h
  obtain ⟨i, hfind, -⟩ := find_absent h (find_eq_none_iff.1 hn.1)
  rw [set, setWithHash, hfind, some_bind, if_neg (by omega), insert_none v h 0 hn.2] at hset
  simp at hset

lemma putIfAbsent_spec (v : V) (hk : s.Admits H k) : ∃ s', s.putIfAbsent H smi63 k v =
    some (s', ((entriesFind H a k).map Prod.snd).getD v) ∧ Represents H smi63 layout s'
    (if (entriesFind H a k).isSome then a else a ++ [(k, v)]) ∧ Evolves s s' := by
  rw [Admits, containsKey_eq h] at hk
  obtain ⟨log, b, h, rfl⟩ := h
  cases hf : entriesFind H log.reduceOption k with
  | none =>
    have habs := find_eq_none_iff.1 hf
    obtain ⟨i, hfind, hfree⟩ := find_absent h habs
    have hfits : s.Fits 2 := hk.resolve_left (by rw [hf]; simp)
    have hmod : s.isModifiedSince s.dataId s.checkSum = false := by simp [HashFieldBase.isModifiedSince]
    obtain ⟨s', hs', hrest⟩ := insert_fits v h habs 0 hfree hfits
    refine ⟨s', ?_, hrest⟩
    rw [putIfAbsent, hfind]
    simp only [some_bind, neg_neg, Int.toNat_natCast, hmod]
    rw [if_neg (by simp), hs']
    rfl
  | some x =>
    obtain ⟨e, he, heq⟩ := getElem?_of_find hf
    refine ⟨s, ?_, h.represents, .refl s⟩
    rw [putIfAbsent, find_present h he heq]
    simp only [some_bind, Int.toNat_natCast, (data_entry h he).2]
    rw [if_pos (by omega)]
    rfl

lemma admits_of_putIfAbsent {v : V} {r : LinkedHashMap K V × V}
    (hput : s.putIfAbsent H smi63 k v = some r) : s.Admits H k := by
  rw [Admits, containsKey_eq h]
  by_contra hn
  rw [not_or, Option.some.injEq, Bool.not_eq_true, isSome_eq_false_iff, isNone_iff_eq_none] at hn
  obtain ⟨log, b, h, rfl⟩ := h
  obtain ⟨i, hfind, -⟩ := find_absent h (find_eq_none_iff.1 hn.1)
  have hmod : s.isModifiedSince s.dataId s.checkSum = false := by simp [HashFieldBase.isModifiedSince]
  rw [putIfAbsent, hfind] at hput
  simp only [some_bind, hmod] at hput
  rw [if_neg (by simp), insert_none v h 0 hn.2] at hput
  simp at hput

section

omit h in
lemma foldlM_set (xs : List (K × V)) : ∀ {s : LinkedHashMap K V} {a}, Represents H smi63 layout s a →
    AdmitsAll H smi63 s xs → ∃ s', xs.foldlM (fun s x => set H smi63 s x.1 x.2) s = some s' ∧
      Represents H smi63 layout s' (entriesAddAll H a xs) ∧ Evolves s s' := by
  induction xs with
  | nil => exact fun {s a} h _ => ⟨s, rfl, h, .refl s⟩
  | cons x xs ih =>
    intro s a h hadm
    obtain ⟨s1, hs1, h1, hev1⟩ := set_spec h x.2 hadm.1
    obtain ⟨s2, hs2, h2, hev2⟩ := ih h1 (hadm.2 s1 hs1)
    refine ⟨s2, ?_, h2, h.evolves_trans hev1 hev2⟩
    rw [foldlM_cons, hs1]
    exact hs2

omit h in
lemma admitsAll_of_foldlM (xs : List (K × V)) : ∀ {s s' : LinkedHashMap K V} {a}, Represents H smi63 layout s a →
    xs.foldlM (fun s x => set H smi63 s x.1 x.2) s = some s' →
    AdmitsAll H smi63 s xs := by
  induction xs with
  | nil => exact fun _ _ => trivial
  | cons x xs ih =>
    intro s s' a h hfold
    rw [foldlM_cons, bind_eq_some] at hfold
    obtain ⟨s1, hs1, hfold⟩ := hfold
    have hadm := admits_of_set h hs1
    obtain ⟨s2, hs2, h2, -⟩ := set_spec h x.2 hadm
    refine ⟨hadm, fun s3 hs3 => ?_⟩
    rw [hs1, Option.some.injEq] at hs2 hs3
    exact hs3 ▸ ih (hs2 ▸ h2) hfold

variable (ht : Represents H smi63 layout t c)
include ht

omit h in
lemma entriesAddAll_nil : entriesAddAll H [] c = c := foldl_put (fun x y => (y.1, x.2)) c [] ht.distinct

omit h in
lemma addAll_eq_foldlM (hq : s.quickCopy t = some (s, false)) :
    s.addAll H smi63 t = c.foldlM (fun s x => set H smi63 s x.1 x.2) s := by
  rw [addAll, hq, ite_self]
  simp only [some_bind, forEach_eq ht]
  rfl

lemma addAll_spec (hadm : s.AdmitsFrom H smi63 t) : ∃ s', s.addAll H smi63 t = some s' ∧
    Represents H smi63 layout s' (entriesAddAll H a c) ∧ Evolves s s' := by
  rcases h.quickCopy ht with hq | ⟨rfl, s', hq, hs', hev⟩
  · have hall : AdmitsAll H smi63 s c := by
      rcases hadm with ⟨-, s', hs'⟩ | hall
      · simp [hq] at hs'
      · exact hall c (forEach_eq ht)
    rw [addAll_eq_foldlM ht hq]
    exact foldlM_set c h hall
  · have hemp : s.isEmpty = true := isEmpty_eq h
    refine ⟨s', ?_, (entriesAddAll_nil ht).symm ▸ hs', hev⟩
    rw [addAll, if_pos hemp, hq]
    rfl

lemma admitsFrom_of_addAll (hadd : s.addAll H smi63 t = some s') : s.AdmitsFrom H smi63 t := by
  rcases h.quickCopy ht with hq | ⟨rfl, s', hq, -, -⟩
  · rw [addAll_eq_foldlM ht hq] at hadd
    refine .inr fun entries hentr => ?_
    rw [forEach_eq ht, Option.some.injEq] at hentr
    exact hentr ▸ admitsAll_of_foldlM c h hadd
  · exact .inl ⟨isEmpty_eq h, s', hq⟩

end
end DartSdk.CompactHash.LinkedHashMap
