import Mathlib.Tactic.Common

namespace DartSdk.Fuel
variable {α β : Type} {f : ℕ → α → β} (F : (α → β) → α → β) (μ : α → ℕ) (hf : ∀ n, f (n + 1) = F (f n))
  (hF : ∀ a g g', (∀ b, μ b < μ a → g b = g' b) → F g a = F g' a)

include hf hF

lemma eq_of_lt {n m : ℕ} {a : α} (hn : μ a < n) (hm : μ a < m) : f n a = f m a := by
  induction n generalizing m a with
  | zero => omega
  | succ n ih =>
    obtain ⟨m, rfl⟩ : ∃ k, m = k + 1 := ⟨m - 1, by omega⟩
    rw [hf, hf]
    exact hF a _ _ fun b hb => ih (by omega) (by omega)

/-- With fuel above the measure, the function satisfies its equation without fuel. -/
lemma unfold_eq (a : α) : f (μ a + 1) a = F (fun b => f (μ b + 1) b) a := by
  rw [hf]
  exact hF a _ _ fun b hb => eq_of_lt F μ hf hF hb (by omega)

end DartSdk.Fuel
