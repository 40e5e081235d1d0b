import Mathlib.Tactic.Linarith
import Mathlib.Tactic.Ring

namespace DartSdk.Schoolbook
variable {b n j r y : ℕ}

def accumulated (b n j r y t : ℕ) : ℕ := r + b ^ j * (t * (b ^ n - y))

lemma accumulated_add (hy : y ≤ b ^ n) (t : ℕ) : accumulated b n j r y t + t * (y * b ^ j) = r + b ^ (n + j) * t := by
  obtain ⟨z, hz⟩ : ∃ z, b ^ n = y + z := ⟨b ^ n - y, by omega⟩
  rw [accumulated, pow_add, hz, Nat.add_sub_cancel_left]
  ring

lemma accumulated_succ (t : ℕ) : accumulated b n j r y (t + 1) = accumulated b n j r y t + b ^ j * (b ^ n - y) := by
  rw [accumulated, accumulated]
  ring

lemma digit_lt_iff (hb : 0 < b) (hy : y ≤ b ^ n) (hpos : 0 < y) (t : ℕ) :
    accumulated b n j r y t / b ^ (n + j) < t ↔ r / (y * b ^ j) < t := by
  have hadd := accumulated_add (r := r) (j := j) hy t
  rw [Nat.div_lt_iff_lt_mul (Nat.pow_pos hb), Nat.div_lt_iff_lt_mul (Nat.mul_pos hpos (Nat.pow_pos hb)),
    Nat.mul_comm t (b ^ (n + j))]
  omega

lemma accumulated_lt (hb : 0 < b) (hy : y ≤ b ^ n) (hpos : 0 < y) {t : ℕ} (hle : r / (y * b ^ j) ≤ t) :
    accumulated b n j r y t < b ^ (n + j) * (t + 1) := by
  have hadd := accumulated_add (r := r) (j := j) hy t
  have hlt : r < (t + 1) * (y * b ^ j) := (Nat.div_lt_iff_lt_mul (Nat.mul_pos hpos (Nat.pow_pos hb))).1 (by omega)
  have hmul : y * b ^ j ≤ b ^ (n + j) := by
    rw [pow_add]
    exact Nat.mul_le_mul_right _ hy
  rw [Nat.add_mul] at hlt
  rw [Nat.mul_add]
  omega

lemma accumulated_exact (hy : y ≤ b ^ n) :
    accumulated b n j r y (r / (y * b ^ j)) = r % (y * b ^ j) + b ^ (n + j) * (r / (y * b ^ j)) := by
  have hadd := accumulated_add (r := r) (j := j) hy (r / (y * b ^ j))
  have hmod := Nat.mod_add_div r (y * b ^ j)
  rw [Nat.mul_comm (r / (y * b ^ j)) (y * b ^ j)] at hadd
  omega

lemma quotient_le_estimate {q top two : ℕ} (htop : 2 ≤ top) (h : q * top ≤ two) : q ≤ two / 2 / (top / 2) := by
  rw [Nat.le_div_iff_mul_le (by omega)]
  have hhalf : top / 2 * 2 ≤ top := Nat.div_mul_le_self top 2
  have hmul : q * (top / 2) * 2 ≤ two := by
    calc q * (top / 2) * 2 = q * (top / 2 * 2) := Nat.mul_assoc _ _ _
      _ ≤ q * top := Nat.mul_le_mul_left q hhalf
      _ ≤ two := h
  omega

end DartSdk.Schoolbook
