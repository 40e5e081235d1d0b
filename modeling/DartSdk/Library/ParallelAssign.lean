import Mathlib.Tactic.Common

namespace DartSdk.ParallelAssign
open Function

inductive Operand (C L : Type)
  | constant (c : C)
  | place (l : L)
deriving DecidableEq

variable {ι C L V : Type} [DecidableEq ι] [DecidableEq L]

def Operand.eval (value : C → V) (σ : L → V) : Operand C L → V
  | constant c => value c
  | place l => σ l

def exchange (σ : L → V) (a b : L) : L → V :=
  update (update σ a (σ b)) b (σ a)

def Operand.redirect [DecidableEq C] (a b : L) (x : Operand C L) : Operand C L :=
  if x = place a then place b else if x = place b then place a else x

lemma exchange_left (σ : L → V) (a b : L) : exchange σ a b a = σ b := by
  unfold exchange
  by_cases h : a = b
  · rw [h, update_self]
  · rw [update_of_ne h, update_self]

lemma exchange_right (σ : L → V) (a b : L) : exchange σ a b b = σ a := by
  unfold exchange
  rw [update_self]

lemma exchange_of_ne (σ : L → V) {a b l : L} (ha : l ≠ a) (hb : l ≠ b) : exchange σ a b l = σ l := by
  unfold exchange
  rw [update_of_ne hb, update_of_ne ha]

lemma Operand.eval_redirect [DecidableEq C] (value : C → V) (σ : L → V) (a b : L)
    (x : Operand C L) : (x.redirect a b).eval value (exchange σ a b) = x.eval value σ := by
  unfold redirect
  split_ifs with ha hb
  · rw [ha]
    exact exchange_right σ a b
  · rw [hb]
    exact exchange_left σ a b
  · cases x with
    | constant c => rfl
    | place l => exact exchange_of_ne σ (fun h => ha (congrArg place h)) fun h => hb (congrArg place h)

structure Resolves (value : C → V) (dest : ι → L) (goal : ι → V) (init : L → V)
    (source : ι → Option (Operand C L)) (σ : L → V) : Prop where
  waiting : ∀ {i x}, source i = some x → x.eval value σ = goal i
  done : ∀ {i}, source i = none → σ (dest i) = goal i
  frame : ∀ {l}, (∀ i, dest i ≠ l) → σ l = init l

namespace Resolves
variable {value : C → V} {dest : ι → L} {goal : ι → V} {init σ : L → V}
  {source : ι → Option (Operand C L)} {k : ι}

omit [DecidableEq ι] [DecidableEq L] in
lemma initial (value : C → V) (dest : ι → L) (init : L → V) (x : ι → Operand C L) :
    Resolves value dest (fun i => (x i).eval value init) init (fun i => some (x i)) init where
  waiting := by
    intro i y h
    rw [← Option.some.inj h]
  done := by
    intro i h
    simp at h
  frame := by
    intros
    rfl

section
variable (h : Resolves value dest goal init source σ)
include h

omit [DecidableEq L] in
lemma close {σ' : L → V} (hk : σ' (dest k) = goal k) (hd : ∀ i, i ≠ k → source i = none → σ' (dest i) = σ (dest i))
    (ho : ∀ i x, i ≠ k → source i = some x → x.eval value σ' = x.eval value σ)
    (hf : ∀ l, (∀ i, dest i ≠ l) → σ' l = σ l) : Resolves value dest goal init (update source k none) σ' where
  waiting := by
    intro i x hi
    by_cases hik : i = k
    · simp [hik] at hi
    · rw [update_of_ne hik] at hi
      rw [ho i x hik hi, h.waiting hi]
  done := by
    intro i hi
    by_cases hik : i = k
    · rw [hik, hk]
    · rw [update_of_ne hik] at hi
      rw [hd i hik hi, h.done hi]
  frame := by
    intro l hl
    rw [hf l hl, h.frame hl]

omit [DecidableEq L] in
lemma eliminate (hk : source k = some (.place (dest k))) : Resolves value dest goal init (update source k none) σ :=
  h.close (h.waiting hk) (fun _ _ _ => rfl) (fun _ _ _ _ => rfl) fun _ _ => rfl

lemma move (hinj : Function.Injective dest)
    {x : Operand C L} (hk : source k = some x) (hfree : ∀ i, i ≠ k → source i ≠ some (.place (dest k))) :
    Resolves value dest goal init (update source k none) (update σ (dest k) (x.eval value σ)) := by
  refine h.close ?_ ?_ ?_ ?_
  · rw [update_self, h.waiting hk]
  · intro i hik _
    rw [update_of_ne (hinj.ne hik)]
  · intro i y hik hi
    cases y with
    | constant c => rfl
    | place l => exact update_of_ne (fun hl => hfree i hik (by rw [hi, hl])) _ _
  · intro l hl
    rw [update_of_ne (hl k).symm]

lemma swap [DecidableEq C]
    (hinj : Function.Injective dest) {p : ι} (hk : source k = some (.place (dest p))) (hp : source p ≠ none) :
    Resolves value dest goal init (fun i => (update source k none i).map (Operand.redirect (dest p) (dest k)))
      (exchange σ (dest p) (dest k)) where
  waiting := by
    intro i x hi
    by_cases hik : i = k
    · simp [hik] at hi
    · rw [update_of_ne hik] at hi
      obtain ⟨y, hy, rfl⟩ := Option.map_eq_some_iff.1 hi
      rw [Operand.eval_redirect, h.waiting hy]
  done := by
    intro i hi
    rw [Option.map_eq_none_iff] at hi
    by_cases hik : i = k
    · rw [hik, exchange_right]
      exact h.waiting hk
    · rw [update_of_ne hik] at hi
      rw [exchange_of_ne, h.done hi]
      · exact hinj.ne fun he => hp (he ▸ hi)
      · exact hinj.ne hik
  frame := by
    intro l hl
    rw [exchange_of_ne _ (hl p).symm (hl k).symm, h.frame hl]

end
end Resolves
end DartSdk.ParallelAssign
