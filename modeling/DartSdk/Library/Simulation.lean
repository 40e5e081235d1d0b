import Mathlib.Tactic.Common

namespace DartSdk

lemma some_bind {α β : Type} (a : α) (f : α → Option β) : (some a >>= f) = f a := rfl

lemma bind_eq_some {α β : Type} {x : Option α} {f : α → Option β} {b : β} :
    x >>= f = some b ↔ ∃ a, x = some a ∧ f a = some b :=
  Option.bind_eq_some_iff

namespace Simulation
open Option
variable {S A Op Out : Type} (step : S → Op → Option (S × Out))

def run : S → List Op → Option (S × List Out)
  | s, [] => some (s, [])
  | s, op :: ops => do
    let (s, out) ← step s op
    let (s, outs) ← run s ops
    some (s, out :: outs)

def Along (ok : S → Op → Prop) : S → List Op → Prop
  | _, [] => True
  | s, op :: ops => ok s op ∧ ∀ s' out, step s op = some (s', out) → Along ok s' ops

def Specified (spec : A → Op → Out → A → Prop) : A → List Op → List Out → A → Prop
  | a, [], outs, a' => outs = [] ∧ a' = a
  | a, op :: ops, outs, a' => ∃ out outs' b, outs = out :: outs' ∧ spec a op out b ∧ Specified spec b ops outs' a'

/-- `Along` for a condition that can be evaluated. -/
def check (ok : S → Op → Bool) : S → List Op → Bool
  | _, [] => true
  | s, op :: ops => ok s op && (step s op).all fun r => check ok r.1 ops

variable {step}

lemma along_of_check {ok : S → Op → Prop} {test : S → Op → Bool} (htest : ∀ s op, test s op = true → ok s op)
    {s : S} {ops : List Op} (h : check step test s ops = true) : Along step ok s ops := by
  induction ops generalizing s with
  | nil => trivial
  | cons op ops ih =>
    rw [check, Bool.and_eq_true] at h
    refine ⟨htest s op h.1, fun s' out hstep => ih ?_⟩
    rw [hstep] at h
    exact h.2

lemma run_cons {s s' : S} {op : Op} {ops : List Op} {out : Out} (h : step s op = some (s', out)) :
    run step s (op :: ops) = (run step s' ops).map fun r => (r.1, out :: r.2) := by
  rw [run, h]
  simp only [some_bind]
  cases run step s' ops <;> rfl

lemma run_cons_none {s : S} {op : Op} {ops : List Op} (h : step s op = none) : run step s (op :: ops) = none := by
  rw [run, h]
  rfl

lemma run_concat (s : S) (ops : List Op) (op : Op) : run step s (ops ++ [op]) = (run step s ops).bind fun r =>
    (step r.1 op).map fun q => (q.1, r.2 ++ [q.2]) := by
  induction ops generalizing s with
  | nil =>
    cases h : step s op with
    | none | some r => simp [run, h]
  | cons op' ops ih =>
    rw [List.cons_append]
    cases h : step s op' with
    | none =>
      rw [run_cons_none h, run_cons_none h]
      rfl
    | some r =>
      rw [run_cons h, run_cons h, ih]
      cases run step r.1 ops with
      | none => rfl
      | some q =>
        simp only [bind_some, map_some]
        cases step q.1 op <;> rfl

lemma run_invariant {P : S → Prop}
    (hstep : ∀ {s s' : S} {op out}, P s → step s op = some (s', out) → P s') (ops : List Op) :
    ∀ {s s' : S} {outs}, P s → run step s ops = some (s', outs) → P s' := by
  induction ops with
  | nil =>
    intro s s' outs hs h
    rw [run, some.injEq, Prod.mk.injEq] at h
    exact h.1 ▸ hs
  | cons op ops ih =>
    intro s s' outs hs h
    cases hop : step s op with
    | none => simp [run_cons_none hop] at h
    | some r =>
      rw [run_cons hop, map_eq_some_iff] at h
      obtain ⟨q, hq, heq⟩ := h
      rw [Prod.mk.injEq] at heq
      exact heq.1 ▸ ih (hstep hs hop) hq

lemma run_simulates {ok : S → Op → Prop} {spec : A → Op → Out → A → Prop} {R : S → A → Prop}
    (hstep : ∀ {s : S} {a op}, R s a → ok s op → ∃ s' out a', step s op = some (s', out) ∧ spec a op out a' ∧ R s' a')
    (ops : List Op) : ∀ {s : S} {a}, R s a → Along step ok s ops →
    ∃ s' outs a', run step s ops = some (s', outs) ∧ Specified spec a ops outs a' ∧ R s' a' := by
  induction ops with
  | nil => exact fun {s a} h _ => ⟨s, [], a, rfl, ⟨rfl, rfl⟩, h⟩
  | cons op ops ih =>
    intro s a h hok
    obtain ⟨s1, out, a1, hs1, ha1, h1⟩ := hstep h hok.1
    obtain ⟨s2, outs, a2, hs2, ha2, h2⟩ := ih h1 (hok.2 s1 out hs1)
    refine ⟨s2, out :: outs, a2, ?_, ⟨out, outs, a1, rfl, ha1, ha2⟩, h2⟩
    rw [run_cons hs1, hs2]
    rfl

lemma along_true (s : S) (ops : List Op) : Along step (fun _ _ => True) s ops := by
  induction ops generalizing s with
  | nil => trivial
  | cons op ops ih => exact ⟨trivial, fun s' _ _ => ih s'⟩

end Simulation
end DartSdk
