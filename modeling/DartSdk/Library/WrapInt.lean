import Mathlib

namespace DartSdk.WrapInt
open Int64
variable {x y : Int64}

lemma bmod_spec (x : ℤ) : ∃ t : ℤ, x.bmod (2 ^ 64) = x - 2 ^ 64 * t := by
  have hd := Int.bmod_add_bdiv x (2 ^ 64)
  norm_num at hd
  exact ⟨x.bdiv (2 ^ 64), by norm_num; omega⟩

def Fits (x : ℤ) : Prop := -2 ^ 63 ≤ x ∧ x < 2 ^ 63

instance (x : ℤ) : Decidable (Fits x) := inferInstanceAs (Decidable (_ ∧ _))

lemma eq_of_fits {x y t : ℤ} (hx : Fits x) (hy : Fits y) (h : x = y - 2 ^ 64 * t) : x = y := by
  unfold Fits at hx hy
  omega

lemma range (x : Int64) : Fits x.toInt := ⟨x.le_toInt, x.toInt_lt⟩

lemma add_spec (x y : Int64) : ∃ t : ℤ, (x + y).toInt = x.toInt + y.toInt - 2 ^ 64 * t := by
  obtain ⟨t, ht⟩ := bmod_spec (x.toInt + y.toInt)
  exact ⟨t, by rw [toInt_add, ht]⟩

lemma sub_spec (x y : Int64) : ∃ t : ℤ, (x - y).toInt = x.toInt - y.toInt - 2 ^ 64 * t := by
  obtain ⟨t, ht⟩ := bmod_spec (x.toInt - y.toInt)
  exact ⟨t, by rw [toInt_sub, ht]⟩

lemma toInt_add (h : Fits (x.toInt + y.toInt)) : (x + y).toInt = x.toInt + y.toInt := by
  obtain ⟨t, ht⟩ := add_spec x y
  exact eq_of_fits (range _) h ht

lemma toInt_sub (h : Fits (x.toInt - y.toInt)) : (x - y).toInt = x.toInt - y.toInt := by
  obtain ⟨t, ht⟩ := sub_spec x y
  exact eq_of_fits (range _) h ht

lemma toInt_ofInt {x : ℤ} (h : Fits x) : (Int64.ofInt x).toInt = x := by
  obtain ⟨t, ht⟩ := bmod_spec x
  exact eq_of_fits (range _) h (by rw [Int64.toInt_ofInt, ← ht]; rfl)

lemma ofNat_spec (k : ℕ) : ∃ t : ℤ, (ofNat k).toInt = k - 2 ^ 64 * t := by
  obtain ⟨t, ht⟩ := bmod_spec (k : ℤ)
  exact ⟨t, by rw [toInt_ofNat', ← ht]; rfl⟩

/-- The map `-1 - x` reverses the order, so that counting down is counting up seen through it. -/
lemma toInt_mirror (x : Int64) : (-1 - x).toInt = -1 - x.toInt := by
  have hx := range x
  have hm : (-1 : Int64).toInt = -1 := rfl
  unfold Fits at hx
  rw [toInt_sub (by unfold Fits; omega), hm]

lemma mirror_lt : -1 - x < -1 - y ↔ y < x := by
  rw [Int64.lt_iff_toInt_lt, Int64.lt_iff_toInt_lt, toInt_mirror, toInt_mirror]
  omega

lemma mirror_le : -1 - x ≤ -1 - y ↔ y ≤ x := by rw [← Int64.not_lt, mirror_lt, Int64.not_lt]

lemma mirror_steps (x : Int64) (k : ℕ) : -1 - x + Int64.ofNat k * 1 = -1 - (x + Int64.ofNat k * -1) := by grind

end DartSdk.WrapInt
