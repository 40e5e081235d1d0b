import Mathlib.Data.List.Induction
import Mathlib.Data.List.ReduceOption

namespace DartSdk.InsertionOrder
open List
variable {K E : Type} (equals : K → K → Bool) (key : E → K)
variable {pre post : List (Option E)} {a : List E}

def find (a : List E) (k : K) : Option E := a.find? fun x => equals k (key x)

def replace (a : List E) (k : K) (update : E → E) : List E :=
  a.map fun x => if equals k (key x) then update x else x

def remove (a : List E) (k : K) : List E := a.filter fun x => !equals k (key x)

def put (a : List E) (k : K) (update : E → E) (new : E) : List E :=
  if (find equals key a k).isSome then replace equals key a k update else a ++ [new]

def Distinct (log : List (Option E)) : Prop :=
  ∀ {e e' : ℕ} {x x' : E}, log[e]? = some (some x) → log[e']? = some (some x') →
    equals (key x) (key x') = true → e = e'

variable {equals key} {log : List (Option E)} {e : ℕ} {x : E} {k : K}

lemma set_split (hlog : log = pre ++ some x :: post)
    (hlen : pre.length = e) (y : Option E) : log.set e y = pre ++ y :: post := by
  rw [hlog, ← hlen, set_append_right _ _ (Nat.le_refl _), Nat.sub_self, set_cons_zero]

lemma split_at (h : log[e]? = some (some x)) : ∃ pre post, log = pre ++ some x :: post ∧ pre.length = e := by
  obtain ⟨he, hx⟩ := List.getElem?_eq_some_iff.1 h
  refine ⟨log.take e, log.drop (e + 1), ?_, length_take_of_le (Nat.le_of_lt he)⟩
  rw [← hx, getElem_cons_drop, take_append_drop]

lemma mem_reduceOption_iff_getElem? : x ∈ log.reduceOption ↔ ∃ e : ℕ, log[e]? = some (some x) := by
  rw [reduceOption_mem_iff, mem_iff_getElem?]

lemma length_reduceOption_set_none (h : log[e]? = some (some x)) :
    (log.set e none).reduceOption.length + 1 = log.reduceOption.length := by
  obtain ⟨pre, post, hlog, hlen⟩ := split_at h
  rw [set_split hlog hlen, hlog, reduceOption_append, reduceOption_cons_of_none,
    reduceOption_append, reduceOption_cons_of_some]
  simp only [length_append, length_cons]
  omega

section
variable (hd : Distinct equals key log) (h : log[e]? = some (some x))
  (symm : ∀ {a b}, equals a b = true → equals b a = true)
  (trans : ∀ {a b c}, equals a b = true → equals b c = true → equals a c = true)
  (hk : equals k (key x) = true)

include hd h symm trans hk

lemma other_keys (hlog : log = pre ++ some x :: post) (hlen : pre.length = e) :
    ∀ y, y ∈ pre.reduceOption ∨ y ∈ post.reduceOption → equals k (key y) = false := by
  intro y hy
  by_contra hne
  rw [Bool.not_eq_false] at hne
  have hxy : equals (key x) (key y) = true := trans (symm hk) hne
  rcases hy with hy | hy
  · obtain ⟨e', he'⟩ := mem_reduceOption_iff_getElem?.1 hy
    have hlt : e' < pre.length := (List.getElem?_eq_some_iff.1 he').1
    have hy : log[e']? = some (some y) := by rw [hlog, List.getElem?_append_left hlt, he']
    have := hd h hy hxy
    omega
  · obtain ⟨e', he'⟩ := mem_reduceOption_iff_getElem?.1 hy
    have hy : log[pre.length + 1 + e']? = some (some y) := by
      rw [hlog, List.getElem?_append_right (by omega),
        show pre.length + 1 + e' - pre.length = e' + 1 by omega, List.getElem?_cons_succ, he']
    have := hd h hy hxy
    omega

lemma reduceOption_set_some (update : E → E) : (log.set e (some (update x))).reduceOption =
    replace equals key log.reduceOption k update := by
  obtain ⟨pre, post, hlog, hlen⟩ := split_at h
  have hother := other_keys hd h symm trans hk hlog hlen
  have hsame : ∀ l : List E, (∀ y ∈ l, equals k (key y) = false) →
      replace equals key l k update = l := by
    intro l hl
    refine (map_congr_left fun y hy => ?_).trans (map_id l)
    simp [hl y hy]
  rw [set_split hlog hlen, hlog, reduceOption_append, reduceOption_cons_of_some,
    reduceOption_append, reduceOption_cons_of_some]
  have hpre := hsame pre.reduceOption fun y hy => hother y (.inl hy)
  have hpost := hsame post.reduceOption fun y hy => hother y (.inr hy)
  unfold replace at hpre hpost ⊢
  rw [map_append, map_cons, hpre, hpost, if_pos hk]

lemma reduceOption_set_none : (log.set e none).reduceOption = remove equals key log.reduceOption k := by
  obtain ⟨pre, post, hlog, hlen⟩ := split_at h
  have hother := other_keys hd h symm trans hk hlog hlen
  have hsame : ∀ l : List E, (∀ y ∈ l, equals k (key y) = false) → remove equals key l k = l := fun l hl =>
    filter_eq_self.2 fun y hy => by simp [hl y hy]
  rw [set_split hlog hlen, hlog, reduceOption_append, reduceOption_cons_of_none,
    reduceOption_append, reduceOption_cons_of_some]
  have hpre := hsame pre.reduceOption fun y hy => hother y (.inl hy)
  have hpost := hsame post.reduceOption fun y hy => hother y (.inr hy)
  unfold remove at hpre hpost ⊢
  rw [filter_append, filter_cons_of_neg (by simp [hk]), hpre, hpost]

end

section
variable (symm : ∀ {a b}, equals a b = true → equals b a = true)
include symm

lemma distinct_cons {a : Option E} : Distinct equals key (a :: log) ↔ Distinct equals key log ∧
    ∀ x, a = some x → ∀ y ∈ log.reduceOption, equals (key x) (key y) = false := by
  constructor
  · intro h
    refine ⟨fun {e e' x x'} he he' heq => ?_, fun x hx y hy => ?_⟩
    · have he1 : (a :: log)[e + 1]? = some (some x) := he
      have he2 : (a :: log)[e' + 1]? = some (some x') := he'
      exact Nat.succ.inj (h he1 he2 heq)
    · obtain ⟨e, he⟩ := mem_reduceOption_iff_getElem?.1 hy
      by_contra hne
      rw [Bool.not_eq_false] at hne
      have hx0 : (a :: log)[0]? = some (some x) := by rw [hx, getElem?_cons_zero]
      have hy0 : (a :: log)[e + 1]? = some (some y) := he
      exact absurd (h hx0 hy0 hne) (Nat.succ_ne_zero e).symm
  · rintro ⟨h, hx⟩ (_ | e) (_ | e') x x' he he' heq
    · rfl
    · have hmem := mem_reduceOption_iff_getElem?.2 ⟨e', he'⟩
      simp [hx x (Option.some.inj he) x' hmem] at heq
    · have hmem := mem_reduceOption_iff_getElem?.2 ⟨e, he⟩
      have hsymm := symm heq
      simp [hx x' (Option.some.inj he') x hmem] at hsymm
    · rw [h he he' heq]

lemma distinct_reduceOption (h : Distinct equals key log) : Distinct equals key (log.reduceOption.map some) := by
  induction log with
  | nil => exact h
  | cons a log ih =>
    rw [distinct_cons symm] at h
    cases a with
    | none => exact ih h.1
    | some x =>
      rw [reduceOption_cons_of_some, map_cons, distinct_cons symm]
      refine ⟨ih h.1, fun y hy z hz => ?_⟩
      obtain rfl := Option.some.inj hy
      refine h.2 x rfl z ?_
      simpa [reduceOption] using hz

end

lemma find_eq_none_iff : find equals key log.reduceOption k = none ↔
    ∀ (e : ℕ) x, log[e]? = some (some x) → equals k (key x) = false := by
  rw [find, find?_eq_none]
  constructor
  · intro h e x hx
    simpa using h x (mem_reduceOption_iff_getElem?.2 ⟨e, hx⟩)
  · intro h x hx
    obtain ⟨e, he⟩ := mem_reduceOption_iff_getElem?.1 hx
    simp [h e x he]

lemma filterMap_range (log : List (Option E)) :
    (range log.length).filterMap (fun e => log[e]?.join) = log.reduceOption := by
  induction log using reverseRecOn with
  | nil => rfl
  | append_singleton log x ih =>
    rw [length_append, length_singleton, range_succ, filterMap_append, filterMap_congr, ih]
    · cases x <;> simp [reduceOption]
    · intro e he
      rw [getElem?_append_left (mem_range.1 he)]

lemma put_of_find (h : find equals key a k = some x) (update : E → E) (new : E) :
    put equals key a k update new = replace equals key a k update := by
  rw [put, h, if_pos Option.isSome_some]

lemma put_of_not_find (h : find equals key a k = none) (update : E → E) (new : E) :
    put equals key a k update new = a ++ [new] := by
  rw [put, h, if_neg (by simp)]

lemma remove_of_not_find (h : find equals key a k = none) : remove equals key a k = a :=
  filter_eq_self.2 fun x hx => by simpa using List.find?_eq_none.1 h x hx

lemma foldl_put (update : E → E → E) (c : List E) : ∀ a : List E, Distinct equals key ((a ++ c).map some) →
    c.foldl (fun a x => put equals key a (key x) (update x) x) a = a ++ c := by
  induction c with
  | nil => simp
  | cons x c ih =>
    intro a hd
    have hx : ((a ++ x :: c).map some)[a.length]? = some (some x) := by simp
    have hnone : find equals key a (key x) = none := by
      refine List.find?_eq_none.2 fun y hy heq => ?_
      obtain ⟨e, he⟩ := mem_iff_getElem?.1 hy
      have hlt := (List.getElem?_eq_some_iff.1 he).1
      have hy' : ((a ++ x :: c).map some)[e]? = some (some y) := by
        rw [List.getElem?_map, List.getElem?_append_left hlt, he, Option.map_some]
      have := hd hx hy' heq
      omega
    rw [foldl_cons, put_of_not_find hnone, ih (a ++ [x]) (by rwa [append_assoc])]
    exact append_assoc a [x] c

lemma getElem?_of_find (h : find equals key log.reduceOption k = some x) :
    ∃ e : ℕ, log[e]? = some (some x) ∧ equals k (key x) = true := by
  obtain ⟨e, he⟩ := mem_reduceOption_iff_getElem?.1 (mem_of_find?_eq_some h)
  rw [find, find?_eq_some_iff_append] at h
  exact ⟨e, he, h.1⟩

lemma reduceOption_map_some (a : List E) : (a.map some).reduceOption = a := by
  induction a with
  | nil => rfl
  | cons x a ih => rw [map_cons, reduceOption_cons_of_some, ih]

end DartSdk.InsertionOrder
