import Mathlib.Tactic.Common

namespace DartSdk.Ring
open List
variable {α : Type}

lemma wrap_eq {n a b : ℕ} (ha : a < n) (hb : b ≤ n) : (a + b) % n = if a + b < n then a + b else a + b - n := by
  split
  · next h => exact Nat.mod_eq_of_lt h
  · next h =>
    rw [Nat.mod_eq_sub_mod (by omega)]
    exact Nat.mod_eq_of_lt (by omega)

lemma wrap_ne {n a b c : ℕ} (ha : a < n) (hb : b < n) (hc : c < n) (hne : b ≠ c) : (a + b) % n ≠ (a + c) % n := by
  rw [wrap_eq ha (Nat.le_of_lt hb), wrap_eq ha (Nat.le_of_lt hc)]
  split <;> split <;> omega

def Slots (table : List α) (head : ℕ) (f : ℕ → α) : Prop :=
  head < table.length ∧ ∀ j < table.length, table[(head + j) % table.length]? = some (f j)

section
variable {table : List α} {head : ℕ} {f g : ℕ → α}

section
variable (h : Slots table head f)
include h

lemma Slots.congr (hfg : ∀ j < table.length, f j = g j) : Slots table head g :=
  ⟨h.1, fun j hj => by rw [h.2 j hj, hfg j hj]⟩

lemma Slots.set {r : ℕ} (hr : r < table.length) (v : α) :
    Slots (table.set ((head + r) % table.length) v) head (Function.update f r v) := by
  refine ⟨by rw [length_set]; exact h.1, fun j hj => ?_⟩
  rw [length_set] at hj ⊢
  have hlt : (head + r) % table.length < table.length := Nat.mod_lt _ (by omega)
  by_cases hjr : j = r
  · subst hjr
    rw [getElem?_set_self hlt, Function.update_self]
  · rw [getElem?_set_ne (wrap_ne h.1 hr hj (Ne.symm hjr)), h.2 j hj, Function.update_of_ne hjr]

lemma Slots.next : Slots table ((head + 1) % table.length) fun j => f (if j + 1 = table.length then 0 else j + 1) := by
  have hhead := h.1
  refine ⟨Nat.mod_lt _ (by omega), fun j hj => ?_⟩
  rw [Nat.mod_add_mod, Nat.add_assoc, Nat.add_comm 1]
  dsimp only
  split
  · next heq =>
    rw [heq, Nat.add_mod_right, ← h.2 0 (by omega), Nat.add_zero]
  · exact h.2 (j + 1) (by omega)

lemma Slots.prev : Slots table ((head + (table.length - 1)) % table.length)
    fun j => f (if j = 0 then table.length - 1 else j - 1) := by
  have hhead := h.1
  refine ⟨Nat.mod_lt _ (by omega), fun j hj => ?_⟩
  rw [Nat.mod_add_mod]
  dsimp only
  split
  · next heq =>
    rw [heq]
    exact h.2 _ (by omega)
  · rw [show head + (table.length - 1) + j = head + (j - 1) + table.length by omega, Nat.add_mod_right]
    exact h.2 _ (by omega)

end

lemma slots_zero (hpos : 0 < table.length) (h : ∀ j < table.length, table[j]? = some (f j)) : Slots table 0 f :=
  ⟨hpos, fun j hj => by rw [Nat.zero_add, Nat.mod_eq_of_lt hj, h j hj]⟩

lemma Slots.toList (h : Slots table head f) : table.drop head ++ table.take head = (range table.length).map f := by
  have hhead := h.1
  apply ext_getElem?
  intro j
  by_cases hj : j < table.length
  · have hf := h.2 j hj
    rw [wrap_eq hhead (by omega)] at hf
    rw [getElem?_map, getElem?_range hj, Option.map_some, ← hf, getElem?_append, length_drop]
    split
    · next hlt => rw [getElem?_drop, if_pos (by omega)]
    · next hlt =>
      rw [getElem?_take_of_lt (by omega), if_neg (by omega)]
      congr 1
      omega
  · rw [getElem?_eq_none (by simp; omega), getElem?_eq_none (by simp; omega)]

lemma Slots.eq_replicate {c : α} (h : Slots table head fun _ => c) : table = replicate table.length c := by
  refine eq_replicate_iff.2 ⟨rfl, fun x hx => ?_⟩
  have hmem : x ∈ table.drop head ++ table.take head := by
    rw [mem_append, or_comm, ← mem_append, take_append_drop]
    exact hx
  rw [h.toList, mem_map] at hmem
  obtain ⟨_, _, rfl⟩ := hmem
  rfl

lemma Slots.block (h : Slots table head f) {start r : ℕ} {source : List α}
    (hstart : start = (head + r) % table.length) (hfits : start + source.length ≤ table.length)
    (hr : r + source.length ≤ table.length) (hin : ∀ i < source.length, source[i]? = some (g (r + i)))
    (hout : ∀ j, j < r ∨ r + source.length ≤ j → g j = f j) :
    Slots (table.take start ++ source ++ table.drop (start + source.length)) head g := by
  have hhead := h.1
  have hlen : (table.take start ++ source ++ table.drop (start + source.length)).length = table.length := by
    simp only [length_append, length_take, length_drop]
    omega
  refine ⟨hlen ▸ hhead, fun j hj => ?_⟩
  rw [hlen] at hj ⊢
  have hf := h.2 j hj
  rw [wrap_eq hhead (by omega)] at hf hstart ⊢
  generalize hi : (if head + j < table.length then head + j else head + j - table.length) = i at hf ⊢
  have htake : (table.take start).length = start := by
    rw [length_take]
    omega
  rw [append_assoc, getElem?_append, getElem?_append, htake]
  by_cases hj' : j < r ∨ r + source.length ≤ j
  · rw [hout j hj', ← hf]
    by_cases hlt : i < start
    · rw [if_pos hlt, getElem?_take_of_lt hlt]
    · rw [if_neg hlt, if_neg (by split at hi <;> split at hstart <;> omega), getElem?_drop]
      congr 1
      split at hi <;> split at hstart <;> omega
  · have hij : i = start + (j - r) := by split at hi <;> split at hstart <;> omega
    rw [if_neg (by omega), if_pos (by omega), hij, Nat.add_sub_cancel_left, hin _ (by omega)]
    congr 2
    omega

end
end DartSdk.Ring
