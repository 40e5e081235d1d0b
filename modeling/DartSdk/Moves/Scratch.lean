import DartSdk.Moves.ResolverCorrect

namespace DartSdk.Moves
open ParallelAssign List Function Option Op
variable {C L V : Type} [DecidableEq C] [DecidableEq L]

namespace Op

def reads (loc : Location C L) (op : Op C L) : Bool :=
  op.operands.src = loc || (op.kind = .swap && op.operands.dest = loc)

def overwrites (loc : Location C L) (op : Op C L) : Bool := op.kind = .move && op.operands.dest = loc

end Op

/-- `ParallelMoveEmitter::IsScratchLocation`: no step from the current one on reads `loc`, and a later move sets it. -/
def isScratchLocation (schedule : List (Op C L)) (currentMove : ℕ) (loc : Location C L) : Bool :=
  !(schedule.drop currentMove).any (reads loc) && (schedule.drop (currentMove + 1)).any (overwrites loc)

section

def Sourced (ops : List (Op C L)) : Prop := ∀ op ∈ ops, op.operands.src ≠ none

variable {s s' : Resolver C L} {index : ℕ} {destination : Location C L}

omit [DecidableEq C] [DecidableEq L] in
lemma Sourced.concat {ops : List (Op C L)} (h : Sourced ops) {op : Op C L} (hop : op.operands.src ≠ none) :
    Sourced (ops ++ [op]) := by
  intro o ho
  rcases mem_append.1 ho with ho | ho
  · exact h o ho
  · rw [mem_singleton.1 ho]
    exact hop

lemma finishMove_sourced (h : Sourced s.scheduledOps)
    (hs : s.finishMove index destination = some s') : Sourced s'.scheduledOps := by
  simp only [Resolver.finishMove, bind_eq_bind, bind_eq_some_iff] at hs
  obtain ⟨move, hmove, _, hpending, hs⟩ := hs
  have hsrc : move.src ≠ none := by
    intro hn
    simp [MoveOperands.isPending, hn] at hpending
  have hget : (s.moves.set index (move.clearPending destination))[index]? = some (move.clearPending destination) :=
    getElem?_set_self (List.getElem?_eq_some_iff.1 hmove).1
  split_ifs at hs with he
  · obtain rfl := some.inj hs
    exact h
  · split at hs
    · simp only [Resolver.addSwapToSchedule, Resolver.set, hget, bind_eq_some_iff] at hs
      obtain ⟨-, -, hs⟩ := hs
      obtain rfl := some.inj hs
      exact h.concat hsrc
    · simp only [Resolver.addMoveToSchedule, Resolver.set, hget] at hs
      obtain rfl := some.inj hs
      exact h.concat hsrc

omit [DecidableEq C] [DecidableEq L] in
lemma foldlM_sourced {f : Resolver C L → ℕ → Option (Resolver C L)}
    (hf : ∀ s i s', Sourced s.scheduledOps → f s i = some s' → Sourced s'.scheduledOps) (is : List ℕ)
    (h : Sourced s.scheduledOps) (hs : is.foldlM f s = some s') : Sourced s'.scheduledOps := by
  induction is generalizing s with
  | nil =>
    rw [← some.inj hs]
    exact h
  | cons i is ih =>
    rw [foldlM_cons, bind_eq_some] at hs
    obtain ⟨s₁, h₁, hs⟩ := hs
    exact ih (hf s i s₁ h h₁) hs

lemma performMove_sourced (fuel : ℕ) (h : Sourced s.scheduledOps) (hs : Resolver.performMove fuel index s = some s') :
    Sourced s'.scheduledOps := by
  induction fuel generalizing index s s' with
  | zero => cases hs
  | succ fuel ih =>
    simp only [Resolver.performMove, bind_eq_some] at hs
    obtain ⟨move, -, -, -, -, -, s₁, hfold, hs⟩ := hs
    have h₀ : Sourced (s.set index move.markPending).scheduledOps := h
    refine finishMove_sourced (foldlM_sourced (fun t i t' ht hi => ?_) _ h₀ hfold) hs
    simp only [Resolver.performIfBlocking, bind_eq_some] at hi
    obtain ⟨other, -, hi⟩ := hi
    split_ifs at hi with hblock
    · exact ih ht hi
    · rw [← some.inj hi]
      exact ht

lemma resolve_sourced {moves : List (MoveOperands C L)} {schedule : List (Op C L)}
    (h : resolve moves = some schedule) : Sourced schedule := by
  simp only [resolve, bind_eq_some] at h
  obtain ⟨s, hfold, -, hguard, h⟩ := h
  obtain rfl := some.inj h
  have hs : Sourced s.scheduledOps := by
    refine foldlM_sourced (fun t i t' ht hi => ?_) _ (fun op hop => absurd hop not_mem_nil) hfold
    simp only [performUnlessConstant, bind_eq_some] at hi
    obtain ⟨move, -, hi⟩ := hi
    split_ifs at hi with hperform
    · exact performMove_sourced _ ht hi
    · rw [← some.inj hi]
      exact ht
  intro op hop
  rcases mem_append.1 (mem_filter.1 hop).1 with hop | hop
  · exact hs op hop
  · obtain ⟨m, hm, rfl⟩ := mem_map.1 hop
    intro hn
    simp [MoveOperands.isEliminated, show m.src = none from hn] at hm

end

section
variable (value : C → V) {l : L} {op : Op C L}

section
variable (σ : L → V) (v : V) (hr : op.reads (some (.place l)) = false)
include σ v hr

lemma exec_update_of_overwrites (hw : op.overwrites (some (.place l)) = true) (hs : op.operands.src ≠ none) :
    exec value (update σ l v) op = exec value σ op := by
  obtain ⟨kind, dest, src⟩ := op
  simp only [overwrites, Bool.and_eq_true, decide_eq_true_eq] at hw
  obtain ⟨rfl, rfl⟩ := hw
  rcases src with _ | _ | a
  · exact absurd rfl hs
  · apply update_idem
  · have ha : a ≠ l := by simpa [reads] using hr
    simp [exec, Operand.eval, ha]

lemma exec_update_of_not_overwrites (hw : op.overwrites (some (.place l)) = false) :
    exec value (update σ l v) op = update (exec value σ op) l v := by
  obtain ⟨kind, dest, src⟩ := op
  cases kind with
  | nop => rfl
  | move =>
    rcases src with _ | x
    · rfl
    rcases dest with _ | _ | d
    · rfl
    · rfl
    have hd : d ≠ l := by simpa [overwrites] using hw
    have hx : x.eval value (update σ l v) = x.eval value σ := by
      cases x with
      | constant c => rfl
      | place a =>
        have ha : a ≠ l := by simpa [reads] using hr
        exact update_of_ne ha v σ
    simp only [exec, hx]
    exact update_comm hd.symm _ _ _
  | swap =>
    rcases src with _ | _ | a
    · rfl
    · rfl
    rcases dest with _ | _ | d
    · rfl
    · rfl
    simp only [reads, some.injEq, Operand.place.injEq, Bool.or_eq_false_iff, decide_eq_false_iff_not,
      decide_true, Bool.true_and] at hr
    simp only [exec, exchange, update_of_ne hr.1, update_of_ne hr.2]
    rw [update_comm (Ne.symm hr.1), update_comm (Ne.symm hr.2)]

end

lemma run_update {ops : List (Op C L)} (hs : Sourced ops) (hr : ops.any (reads (some (.place l))) = false)
    (hw : ops.any (overwrites (some (.place l))) = true) (σ : L → V) (v : V) :
    run value ops (update σ l v) = run value ops σ := by
  -- The two runs differ at `l` only, until the first move that sets it.
  induction ops generalizing σ with
  | nil => cases hw
  | cons op ops ih =>
    rw [any_cons, Bool.or_eq_false_iff] at hr
    unfold run at ih ⊢
    rw [foldl_cons, foldl_cons]
    cases hop : op.overwrites (some (.place l)) with
    | true => rw [exec_update_of_overwrites value σ v hr.1 hop (hs op mem_cons_self)]
    | false =>
      rw [any_cons, hop] at hw
      rw [exec_update_of_not_overwrites value σ v hr.1 hop]
      exact ih (fun o ho => hs o (mem_cons_of_mem _ ho)) hr.2 hw _

end

theorem isScratchLocation_dead (moves : List (MoveOperands C L)) {schedule : List (Op C L)}
    (h : resolve moves = some schedule) (value : C → V) (σ : L → V) (i : ℕ) (l : L) (v : V)
    (hl : isScratchLocation schedule i (some (.place l)) = true) :
    run value (schedule.drop i) (update (run value (schedule.take i) σ) l v) = run value schedule σ := by
  rw [isScratchLocation, Bool.and_eq_true, Bool.not_eq_true'] at hl
  have hw : (schedule.drop i).any (overwrites (some (.place l))) = true := by
    obtain ⟨op, hop, hw⟩ := any_eq_true.1 hl.2
    rw [← drop_drop] at hop
    exact any_eq_true.2 ⟨op, mem_of_mem_drop hop, hw⟩
  have hs : Sourced (schedule.drop i) := fun op hop => resolve_sourced h op (mem_of_mem_drop hop)
  rw [run_update value hs hl.1 hw, ← run_append, take_append_drop]

theorem isScratchLocation_dead_chain : ∃ schedule : List (Op ℕ ℕ),
    resolve [⟨some (.place 1), some (.place 0)⟩, ⟨some (.place 2), some (.constant 7)⟩] = some schedule ∧
      isScratchLocation schedule 0 (some (.place 2)) = true ∧
      run id (schedule.drop 0) (update (run id (schedule.take 0) id) 2 5) = run id schedule id :=
  ⟨_, rfl, by decide, isScratchLocation_dead
    [⟨some (.place 1), some (.place 0)⟩, ⟨some (.place 2), some (.constant 7)⟩] rfl id id 0 2 5 (by decide)⟩

end DartSdk.Moves
