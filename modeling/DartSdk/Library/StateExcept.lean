import Mathlib.Tactic.Common

namespace DartSdk.StateExcept
variable {ε σ α β : Type}

def Ensures (m : EStateM ε σ α) (s : σ) (Q : α → σ → Prop) : Prop := ∀ a t, m s = .ok a t → Q a t

section
variable {s : σ} {Q : α → σ → Prop}

lemma Ensures.mono {m : EStateM ε σ α} {Q' : α → σ → Prop} (h : Ensures m s Q) (hQ : ∀ a t, Q a t → Q' a t) :
    Ensures m s Q' := fun a t heq => hQ a t (h a t heq)

@[simp]
lemma ensures_pure {a : α} : Ensures (pure a : EStateM ε σ α) s Q ↔ Q a s :=
  ⟨fun h => h a s rfl, fun h _ _ heq => by cases heq; exact h⟩

@[simp]
lemma ensures_throw {e : ε} : Ensures (throw e : EStateM ε σ α) s Q := nofun

variable {m : EStateM ε σ β} {f : β → EStateM ε σ α}

lemma bind_ok {b : β} {t : σ} (h : m s = .ok b t) : (m >>= f) s = f b t := by
  change EStateM.bind m f s = _
  rw [EStateM.bind, h]

lemma bind_error {e : ε} {t : σ} (h : m s = .error e t) : (m >>= f) s = .error e t := by
  change EStateM.bind m f s = _
  rw [EStateM.bind, h]

@[simp]
lemma ensures_bind : Ensures (m >>= f) s Q ↔ Ensures m s fun b t => Ensures (f b) t Q := by
  constructor
  · intro h b t hm a u hf
    exact h a u (by rw [bind_ok hm]; exact hf)
  · intro h a u heq
    cases hm : m s with
    | ok b t =>
      rw [bind_ok hm] at heq
      exact h b t hm a u heq
    | error e t =>
      rw [bind_error hm] at heq
      cases heq

@[simp]
lemma ensures_map {f : β → α} : Ensures (f <$> m) s Q ↔ Ensures m s fun b => Q (f b) := by
  rw [← bind_pure_comp, ensures_bind]
  exact ⟨fun h => h.mono fun _ _ => ensures_pure.1, fun h => h.mono fun _ _ => ensures_pure.2⟩

@[simp]
lemma ensures_get {Q : σ → σ → Prop} : Ensures (get : EStateM ε σ σ) s Q ↔ Q s s :=
  ⟨fun h => h s s rfl, fun h _ _ heq => by cases heq; exact h⟩

@[simp]
lemma ensures_modify {f : σ → σ} {Q : Unit → σ → Prop} : Ensures (modify f : EStateM ε σ Unit) s Q ↔ Q () (f s) :=
  ⟨fun h => h () (f s) rfl, fun h _ _ heq => by cases heq; exact h⟩

lemma ensures_ite {c : Prop} [Decidable c] {m m' : EStateM ε σ α} :
    Ensures (if c then m else m') s Q ↔ (c → Ensures m s Q) ∧ (¬c → Ensures m' s Q) := by
  split_ifs with h
  · exact ⟨fun hm => ⟨fun _ => hm, fun hn => absurd h hn⟩, fun hm => hm.1 h⟩
  · exact ⟨fun hm => ⟨fun hp => absurd hp h, fun _ => hm⟩, fun hm => hm.2 h⟩

end

lemma ensures_forM {I : σ → Prop} {f : α → EStateM ε σ Unit} (hf : ∀ a s, I s → Ensures (f a) s fun _ => I)
    (l : List α) {s : σ} (hs : I s) : Ensures (l.forM f) s fun _ => I := by
  induction l generalizing s with
  | nil => exact fun _ _ heq => by cases heq; exact hs
  | cons a l ih =>
    change Ensures (f a >>= fun _ => l.forM f) s _
    rw [ensures_bind]
    exact (hf a s hs).mono fun _ t ht => ih ht

lemma except_bind_ok {m : Except ε α} {f : α → Except ε β} {b : β} (h : m >>= f = .ok b) :
    ∃ a, m = .ok a ∧ f a = .ok b := by
  cases m with
  | error e => cases h
  | ok a => exact ⟨a, rfl, h⟩

lemma except_map_ok {m : Except ε α} {f : α → β} {b : β} (h : m.map f = .ok b) : ∃ a, m = .ok a ∧ f a = b := by
  cases m with
  | error e => cases h
  | ok a => exact ⟨a, rfl, Except.ok.inj h⟩

end DartSdk.StateExcept
