import DartSdk.Async.Broadcast

namespace DartSdk.Async

open List Option Controller
variable {T E : Type} {kind : Kind} {c : Controller T E} {s : ℕ} {event : Event T E} {f : Frame T E}
  {stack : List (Frame T E)} {b : Bool} {subs : List ℕ} {calls : List Call}

namespace Frame

def fires : Frame T E → Bool
  | sendData | loop _ _ _ | fired _ _ _ => true
  | _ => false

def flushes : Frame T E → Bool
  | flushPending _ => true
  | _ => false

end Frame

def Quiet (stack : List (Frame T E)) : Prop := ∀ f ∈ stack, f.fires = false

def Nested : List (Frame T E) → Prop
  | [] => True
  | f :: stack => (f.fires = true ∨ f.flushes = true → Quiet stack) ∧ Nested stack

def Alternating (calls : List Call) : Prop := ∀ i call, calls[i]? = some call → (call = .onListen ↔ i % 2 = 0)

/-- What holds inside one operation that began with the history `before` and the subscriptions `had`. -/
structure Lifecycle (before : List Call) (had : List ℕ) (stack : List (Frame T E)) (isFiring : Bool) (subs : List ℕ)
    (calls : List Call) : Prop where
  nested : Nested stack
  firing : isFiring = false ↔ Quiet stack
  alternating : Alternating calls
  -- While an event is delivered the last listener may leave, but `onCancel` runs only at the end.
  busy : isFiring = true → calls.length % 2 = 1
  idle : isFiring = false → (calls.length % 2 = 1 ↔ subs ≠ [])
  grown : ∃ l, calls = before ++ l ∧ .onListen ∉ l
  fewer : subs ⊆ had

lemma Alternating.concat {call : Call} (h : Alternating calls) (hc : call = .onListen ↔ calls.length % 2 = 0) :
    Alternating (calls ++ [call]) := by
  intro i call' hi
  rcases Nat.lt_or_ge i calls.length with hlt | hge
  · rw [getElem?_append_left hlt] at hi
    exact h i call' hi
  · rw [getElem?_append_right hge] at hi
    obtain ⟨hz, rfl⟩ := List.getElem?_eq_some_iff.1 hi
    obtain rfl : i = calls.length := by
      rw [length_singleton] at hz
      omega
    simpa using hc

lemma quiet_cons : Quiet (f :: stack) ↔ f.fires = false ∧ Quiet stack := forall_mem_cons

variable {before : List Call} {had : List ℕ}

namespace Lifecycle

lemma cons (h : Lifecycle before had stack b subs calls) (hf : f.fires = false) (hb : f.flushes = true → b = false) :
    Lifecycle before had (f :: stack) b subs calls where
  nested := by
    refine ⟨fun hc => ?_, h.nested⟩
    rw [hf] at hc
    exact h.firing.1 (hb (hc.resolve_left Bool.false_ne_true))
  firing := by rw [h.firing, quiet_cons, and_iff_right hf]
  __ := h

section
variable (h : Lifecycle before had (f :: stack) b subs calls)
include h

lemma tail (hf : f.fires = false) : Lifecycle before had stack b subs calls where
  nested := h.nested.2
  firing := by rw [h.firing, quiet_cons, and_iff_right hf]
  __ := h

lemma quiet_tail (hf : f.fires = true) : b = true ∧ Quiet stack := by
  refine ⟨?_, h.nested.1 (.inl hf)⟩
  cases b with
  | true => rfl
  | false => exact absurd (hf.symm.trans (quiet_cons.1 (h.firing.1 rfl)).1) Bool.noConfusion

lemma replace {f' : Frame T E} (hf : f.fires = true)
    (hf' : f'.fires = true) : Lifecycle before had (f' :: stack) b subs calls where
  nested := ⟨fun _ => (h.quiet_tail hf).2, h.nested.2⟩
  firing := by rw [h.firing, quiet_cons, quiet_cons, hf, hf']
  __ := h

end

lemma fewer_firing {subs' : List ℕ} (h : Lifecycle before had stack true subs calls) (hs : subs' ⊆ subs) :
    Lifecycle before had stack true subs' calls where
  idle := fun hb => absurd hb Bool.noConfusion
  fewer := fun _ hx => h.fewer (hs hx)
  __ := h

lemma start (h : Lifecycle before had stack false subs calls) (hs : subs ≠ []) (hf : f.fires = true) :
    Lifecycle before had (f :: stack) true subs calls where
  nested := ⟨fun _ => h.firing.1 rfl, h.nested⟩
  firing := by simp [quiet_cons, hf]
  busy := fun _ => (h.idle rfl).2 hs
  idle := fun hb => absurd hb Bool.noConfusion
  __ := h

lemma finish (h : Lifecycle before had (f :: stack) b subs calls) (hf : f.fires = true) (hs : subs ≠ []) :
    Lifecycle before had stack false subs calls where
  nested := h.nested.2
  firing := by simp [(h.quiet_tail hf).2]
  busy := fun hb => absurd hb Bool.noConfusion
  idle := fun _ => by simp [h.busy (h.quiet_tail hf).1, hs]
  __ := h

lemma canceled (hn : Nested stack) (hq : Quiet stack) (ha : Alternating calls) (ho : calls.length % 2 = 1)
    (hg : ∃ l, calls = before ++ l ∧ .onListen ∉ l) :
    Lifecycle before had (.handler :: stack) false [] (calls ++ [.onCancel]) where
  nested := ⟨fun hc => absurd hc (by simp [Frame.fires, Frame.flushes]), hn⟩
  firing := by simp [quiet_cons, hq, Frame.fires]
  alternating := ha.concat (by simp [ho])
  busy := fun hb => absurd hb Bool.noConfusion
  idle := fun _ => by
    simp
    omega
  grown := by
    obtain ⟨l, rfl, hl⟩ := hg
    exact ⟨l ++ [.onCancel], append_assoc _ _ _, by simp [hl]⟩
  fewer := nil_subset _

end Lifecycle

namespace Controller

def Ok (before : List Call) (had : List ℕ) (c : Controller T E) : Prop :=
  Lifecycle before had c.stack c.isFiring c.subscriptions c.calls

section
variable (h : c.Ok before had)
include h

lemma recordCancel_ok : (c.recordCancel kind s).Ok before had := by
  unfold recordCancel
  by_cases hmem : s ∈ c.subscriptions
  · rw [if_neg (not_not.2 hmem)]
    split
    · exact h
    · have hs : c.subscriptions ≠ [] := ne_nil_of_mem hmem
      have hsub : c.subscriptions.erase s ⊆ c.subscriptions := erase_subset
      unfold Ok at h
      dsimp only [removeListener]
      cases hb : c.isFiring with
      | true =>
        rw [hb] at h
        exact h.fewer_firing hsub
      | false =>
        rw [hb] at h
        split_ifs with hempty
        · have hempty : c.subscriptions.erase s = [] := by simpa using hempty
          rw [hempty]
          exact .canceled h.nested (h.firing.1 rfl) h.alternating ((h.idle rfl).2 hs) h.grown
        · have hempty : c.subscriptions.erase s ≠ [] := by simpa using hempty
          refine { h with idle := fun _ => ?_, fewer := fun _ hx => h.fewer (hsub hx) }
          exact ⟨fun _ => hempty, fun _ => (h.idle rfl).2 hs⟩
  · rw [if_pos hmem]
    exact h

lemma push_ok (hf : f.fires = false) (hl : f.flushes = false) : (c.push f).Ok before had :=
  Lifecycle.cons h hf fun hc => absurd (hl.symm.trans hc) Bool.noConfusion

lemma cancelSubscription_ok : (c.cancelSubscription kind s).Ok before had := by
  apply recordCancel_ok
  exact h

lemma cancel_ok : (c.cancel kind s).Ok before had := by
  unfold cancel
  dsimp only
  split
  · exact h
  · apply cancelSubscription_ok
    exact h

lemma runCallback_ok : (c.runCallback s).Ok before had := by
  apply push_ok _ rfl rfl
  exact h

lemma send_ok : (c.send kind s event).Ok before had := by
  cases event with
  | data => exact runCallback_ok h
  | error =>
    unfold send
    dsimp only
    split
    · apply cancelSubscription_ok
      apply push_ok _ rfl rfl
      exact h
    · exact runCallback_ok h
  | done =>
    apply cancelSubscription_ok
    exact push_ok h rfl rfl

lemma receive_ok : (c.receive kind s event).Ok before had := by
  unfold receive
  split_ifs
  · exact h
  · exact h
  · exact send_ok h

end

lemma endFiring_ok (h : Lifecycle before had (f :: c.stack) c.isFiring c.subscriptions c.calls)
    (hf : f.fires = true) : (c.endFiring kind).Ok before had := by
  unfold endFiring
  dsimp only
  split
  · next hempty =>
    rw [hempty]
    have hq := h.quiet_tail hf
    exact .canceled h.nested.2 hq.2 h.alternating (h.busy hq.1) h.grown
  · next hempty => exact h.finish hf hempty

lemma forEachListener_ok (h : c.Ok before had) : (c.forEachListener event).Ok before had := by
  unfold forEachListener
  split
  · exact h
  · next hc =>
    simp only [Bool.or_eq_true, decide_eq_true_eq, not_or, Bool.not_eq_true] at hc
    unfold Ok at h
    rw [hc.1] at h
    exact h.start hc.2 rfl

lemma dispatch_ok (h : c.Ok before had) (hq : c.isFiring = false) : (c.dispatch kind event).Ok before had := by
  unfold dispatch
  split
  · exact foldlRecOn c.subscriptions _ h fun _ hc _ _ => hc
  · next hs =>
    apply receive_ok
    unfold Ok at h
    rw [hq] at h
    exact h.start (by simp [hs]) rfl
  · exact forEachListener_ok h

lemma add_ok (h : c.Ok before had) : (c.add kind event).Ok before had := by
  cases kind with
  | async =>
    unfold add dispatch
    dsimp only
    split
    · exact h
    · exact foldlRecOn c.subscriptions _ h fun _ hc _ _ => hc
  | sync =>
    unfold add
    dsimp only
    split
    · exact h
    · next hc =>
      simp only [Bool.or_eq_true, not_or, Bool.not_eq_true] at hc
      exact dispatch_ok h hc.2
  | asBroadcast =>
    unfold add
    dsimp only
    split_ifs with hclosed hfiring hdone
    · exact h
    · exact h
    · exact dispatch_ok h (by simpa using hfiring)
    · have hfiring : c.isFiring = false := by simpa using hfiring
      exact dispatch_ok (Lifecycle.cons h rfl fun _ => hfiring) hfiring

lemma resume_ok {c' : Controller T E} (h : Lifecycle before had (f :: c.stack) c.isFiring c.subscriptions c.calls)
    (hr : resume kind f c = some c') : c'.Ok before had := by
  cases f with
  | listener | handler => cases hr
  | sendData =>
    obtain rfl := some.inj hr
    exact endFiring_ok h rfl
  | loop id event subscription =>
    cases subscription with
    | none =>
      obtain rfl := some.inj hr
      exact endFiring_ok h rfl
    | some s =>
      rw [resume] at hr
      split at hr
      · obtain rfl := some.inj hr
        apply receive_ok
        exact h.replace rfl rfl
      · obtain rfl := some.inj hr
        exact h.replace rfl rfl
  | fired id event s =>
    obtain rfl := some.inj hr
    have hb := (h.quiet_tail rfl).1
    split
    · unfold Ok removeListener modify push
      rw [hb] at h ⊢
      exact (h.fewer_firing erase_subset).replace rfl rfl
    · exact h.replace rfl rfl
  | flushPending generation =>
    have hq : c.isFiring = false := h.firing.2 (quiet_cons.2 ⟨rfl, h.nested.1 (.inr rfl)⟩)
    have hc : c.Ok before had := h.tail rfl
    rw [resume] at hr
    split at hr
    · split at hr
      · obtain rfl := some.inj hr
        refine dispatch_ok ?_ hq
        exact Lifecycle.cons hc rfl fun _ => hq
      · rw [← some.inj hr]
        exact hc
    · rw [← some.inj hr]
      exact hc
  | sendError s =>
    have hc : c.Ok before had := h.tail rfl
    obtain rfl := some.inj hr
    split
    · exact hc
    · exact runCallback_ok hc
  | sendDone s =>
    obtain rfl := some.inj hr
    apply runCallback_ok
    exact h.tail rfl

lemma subscribe_ok {cancelOnError : Bool} (h : c.Ok c.calls c.subscriptions)
    (hm : c.isFiring = true → c.isClosed = true ∨ c.subscriptions ≠ []) :
    (c.subscribe cancelOnError).Ok (c.subscribe cancelOnError).calls (c.subscribe cancelOnError).subscriptions := by
  unfold subscribe
  split
  · exact h
  · next hclosed =>
    split
    · -- The first listener: nothing is delivered, so the last call, if any, was `onCancel`.
      next hempty =>
      have hb : c.isFiring = false := by
        by_contra hb
        exact (hm (by simpa using hb)).elim hclosed (absurd hempty)
      have heven : c.calls.length % 2 = 0 := by
        have hne : ¬c.calls.length % 2 = 1 := fun ho => (h.idle hb).1 ho hempty
        omega
      have ho : (c.calls ++ [Call.onListen]).length % 2 = 1 := by
        rw [length_append, length_singleton]
        omega
      refine { Lifecycle.cons h rfl fun _ => hb with
        alternating := h.alternating.concat (by simp [heven])
        busy := fun _ => ho, idle := fun _ => ⟨fun _ => by simp, fun _ => ho⟩
        grown := ⟨[], by simp, not_mem_nil⟩, fewer := Subset.refl _ }
    · next hsome =>
      refine { h with idle := fun hb => ?_, grown := ⟨[], by simp, not_mem_nil⟩, fewer := Subset.refl _ }
      simp [(h.idle hb).2 hsome]

end Controller

variable {c' : Controller T E} {op : Op T E}

lemma step_ok (h : c.Ok c.calls c.subscriptions) (hs : step kind c op = some c')
    (hop : ∀ cancelOnError, op ≠ .listen cancelOnError) : c'.Ok c.calls c.subscriptions := by
  unfold Controller.Ok at h
  unfold step at hs
  split at hs
  · exact absurd rfl (hop _)
  · split at hs
    · rw [← some.inj hs]
      exact cancel_ok h
    · cases hs
  · split at hs
    · rw [← some.inj hs]
      exact add_ok h
    · cases hs
  · next hstack =>
    rw [← some.inj hs]
    rw [hstack] at h
    exact h.tail rfl
  · next hstack =>
    rw [← some.inj hs]
    rw [hstack] at h
    exact h.tail rfl
  · split at hs
    · rw [← some.inj hs]
      apply send_ok
      exact h
    · cases hs
  · next hstack =>
    rw [hstack] at h
    exact resume_ok h hs
  · cases hs

/-- A `listen` while an event is delivered meets the condition if a subscription is left (or the controller is closed). -/
def Meets (c : Controller T E) : Op T E → Prop
  | .listen _ => c.isFiring = true → c.isClosed = true ∨ c.subscriptions ≠ []
  | _ => True

inductive Reachable (kind : Kind) : Controller T E → Prop
  | initial : Reachable kind {}
  | step {c c' : Controller T E} (op : Op T E) : Reachable kind c → Meets c op → step kind c op = some c' →
      Reachable kind c'

lemma Reachable.ok (h : Reachable kind c) : c.Ok c.calls c.subscriptions := by
  induction h with
  | initial =>
    exact { nested := trivial, firing := by simp [Quiet], alternating := by simp [Alternating], busy := by simp,
            idle := by simp, grown := ⟨[], rfl, not_mem_nil⟩, fewer := Subset.refl _ }
  | step op _ hm hs ih =>
    cases op with
    | listen cancelOnError =>
      simp only [Async.step, ite_none_right_eq_some, some.injEq] at hs
      rw [← hs.2]
      exact subscribe_ok ih hm
    | _ => refine { step_ok ih hs (by simp) with grown := ⟨[], by simp, not_mem_nil⟩, fewer := Subset.refl _ }

lemma Alternating.getLast_iff (h : Alternating calls) : calls.getLast? = some .onListen ↔ calls.length % 2 = 1 := by
  rcases eq_nil_or_concat calls with rfl | ⟨calls, call, rfl⟩
  · simp
  · rw [concat_eq_append] at h ⊢
    have hlast := h calls.length call (by simp)
    rw [getLast?_concat, some.injEq, hlast, length_append, length_singleton]
    omega

theorem lifecycle_alternates (h : Reachable kind c) : Alternating c.calls ∧
    (c.isFiring = false → (c.calls.getLast? = some .onListen ↔ c.subscriptions ≠ [])) ∧
    ∀ op c', step kind c op = some c' →
      (c'.calls = c.calls ++ [.onListen] ↔ c.subscriptions = [] ∧ c'.subscriptions ≠ []) := by
  refine ⟨h.ok.alternating, fun hb => h.ok.alternating.getLast_iff.trans (h.ok.idle hb), fun op c' hs => ?_⟩
  cases op with
  | listen cancelOnError =>
    simp only [step, ite_none_right_eq_some, some.injEq] at hs
    rw [← hs.2, subscribe]
    split_ifs with hclosed hempty <;> simp [*]
  | _ =>
    have hc := step_ok h.ok hs (by simp)
    obtain ⟨l, hl, hnot⟩ := hc.grown
    constructor
    · intro heq
      rw [heq, append_cancel_left_eq] at hl
      exact absurd (hl ▸ mem_singleton_self _) hnot
    · rintro ⟨hempty, hsome⟩
      have hsub := hc.fewer
      rw [hempty, subset_nil] at hsub
      exact absurd hsub hsome

theorem lifecycle_alternates_cancel : ∃ c : Controller ℕ ℕ, Reachable .sync c ∧ c.calls = [.onListen, .onCancel] ∧
    c.subscriptions = [] ∧ Alternating c.calls ∧
      (c.isFiring = false → (c.calls.getLast? = some .onListen ↔ c.subscriptions ≠ [])) :=
  have h : Reachable (T := ℕ) (E := ℕ) .sync _ :=
    (((((Reachable.initial.step (.listen false) (by simp [Meets]) rfl).step .return trivial rfl).step
      (.add (.data 3)) trivial rfl).step (.cancel 0) trivial rfl).step .return trivial rfl).step .resume trivial rfl
  ⟨_, h, rfl, rfl, (lifecycle_alternates h).1, (lifecycle_alternates h).2.1⟩

/-- The only listener cancels itself while it is given an event and then listens again: `onListen` runs twice in a row. -/
theorem onListen_twice : (([.listen false, .return, .add (.data 3), .cancel 0, .listen false] : List (Op ℕ ℕ)).foldlM
    (step .sync) {}).map Controller.calls = some [.onListen, .onListen] := by
  decide

end DartSdk.Async
