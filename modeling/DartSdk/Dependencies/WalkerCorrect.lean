import DartSdk.Dependencies.Walker
import Mathlib.Data.Fin.VecNotation

namespace DartSdk.Dependencies
open List State Call
variable {V : Type*}
variable {s : State V}

section
variable (getDependencies : V → List V) (evaluated : V → Bool)

def Edge (v w : V) : Prop := evaluated v = false ∧ evaluated w = false ∧ w ∈ getDependencies v

def Reach : V → V → Prop := Relation.ReflTransGen (Edge getDependencies evaluated)

def SameComponent (v w : V) : Prop :=
  Reach getDependencies evaluated v w ∧ Reach getDependencies evaluated w v

structure Evaluates (startingPoint : V) (calls : List (Call V)) : Prop where
  once : (calls.flatMap nodes).Nodup
  reached : ∀ v, v ∈ calls.flatMap nodes ↔
    evaluated startingPoint = false ∧ Reach getDependencies evaluated startingPoint v
  component : ∀ c ∈ calls, c.nodes ≠ [] ∧
    ∀ v ∈ c.nodes, ∀ w, w ∈ c.nodes ↔ SameComponent getDependencies evaluated v w
  callback : ∀ c ∈ calls, (∃ v, c = .evaluate v) ↔ ∃ v, c.nodes = [v] ∧ v ∉ getDependencies v
  dependencies : ∀ before c after, calls = before ++ c :: after → ∀ v ∈ c.nodes, ∀ w ∈ getDependencies v,
    w ∈ c.nodes ∨ evaluated w ∨ w ∈ before.flatMap nodes

end

section
variable [DecidableEq V] (node : V) (value : ℕ) (s : State V)

@[simp]
lemma lower_nodeIndex : (s.lower node value).nodeIndex = s.nodeIndex := by
  rw [lower]
  split_ifs <;> rfl

@[simp]
lemma lower_isEvaluated : (s.lower node value).isEvaluated = s.isEvaluated := by
  rw [lower]
  split_ifs <;> rfl

@[simp]
lemma lower_index : (s.lower node value).index = s.index := by
  rw [lower]
  split_ifs <;> rfl

@[simp]
lemma lower_stack : (s.lower node value).stack = s.stack := by
  rw [lower]
  split_ifs <;> rfl

@[simp]
lemma lower_lowLink_self : (s.lower node value).lowLink node = min value (s.lowLink node) := by
  rw [lower]
  split_ifs with h
  · simp [h.le]
  · simp [not_lt.1 h]

lemma lower_lowLink_of_ne {v : V} (h : v ≠ node) : (s.lower node value).lowLink v = s.lowLink v := by
  rw [lower]
  split_ifs
  · simp [h]
  · rfl

end

section
variable (getDependencies : V → List V) (evaluated : V → Bool) (startingPoint : V) (calls : List (Call V))

structure Log (s : State V) (new : List (Call V)) : Prop where
  calls_eq : s.calls = calls ++ new
  once : (new.flatMap nodes).Nodup
  mem : ∀ v, v ∈ new.flatMap nodes ↔ evaluated v = false ∧ s.isEvaluated v = true
  component : ∀ c ∈ new, c.nodes ≠ [] ∧ ∀ v ∈ c.nodes, ∀ w, w ∈ c.nodes ↔ SameComponent getDependencies evaluated v w
  callback : ∀ c ∈ new, (∃ v, c = .evaluate v) ↔ ∃ v, c.nodes = [v] ∧ v ∉ getDependencies v
  dependencies : ∀ before c after, new = before ++ c :: after → ∀ v ∈ c.nodes, ∀ w ∈ getDependencies v,
    w ∈ c.nodes ∨ evaluated w ∨ w ∈ before.flatMap nodes

structure Inv (s : State V) (grey : List V) : Prop where
  evaluated_of : ∀ v, evaluated v → s.isEvaluated v
  seen : ∀ v, evaluated v = false → (s.nodeIndex v ≠ 0 ↔ v ∈ s.stack ∨ s.isEvaluated v)
  on_stack : ∀ v ∈ s.stack, s.isEvaluated v = false ∧ s.nodeIndex v < s.index
  pos : 0 < s.index
  sorted : s.stack.Pairwise fun x y => s.nodeIndex y < s.nodeIndex x
  grey_sub : ∀ x ∈ grey, x ∈ s.stack
  forward : ∀ x ∈ s.stack, ∀ y ∈ s.stack, s.nodeIndex x ≤ s.nodeIndex y → Reach getDependencies evaluated x y
  back : ∀ y ∈ s.stack, ∃ x ∈ grey, s.nodeIndex x ≤ s.nodeIndex y ∧ Reach getDependencies evaluated y x
  closed : ∀ v w, s.isEvaluated v → Edge getDependencies evaluated v w → s.isEvaluated w
  considered : ∀ v ∈ s.stack, v ∉ grey → ∀ w, Edge getDependencies evaluated v w → s.nodeIndex w ≠ 0
  reached : ∀ v, evaluated v = false → s.nodeIndex v ≠ 0 → Reach getDependencies evaluated startingPoint v
  log : ∃ new, Log getDependencies evaluated calls s new

structure Frame (node : V) (s t : State V) : Prop where
  nodeIndex : ∀ v, s.nodeIndex v ≠ 0 → t.nodeIndex v = s.nodeIndex v
  lowLink : ∀ v, s.nodeIndex v ≠ 0 → v ≠ node → t.lowLink v = s.lowLink v
  isEvaluated : ∀ v, s.isEvaluated v → t.isEvaluated v
  index : s.index ≤ t.index

structure Connected (node : V) (s t : State V) (new : List V) : Prop where
  stack_eq : t.stack = new ++ s.stack
  frame : Frame node s t
  seen : t.nodeIndex node ≠ 0
  low : new = [] ∧ s.index ≤ t.lowLink node ∨
    ∃ z ∈ s.stack, s.nodeIndex z = t.lowLink node ∧ Reach getDependencies evaluated node z
  crossing : ∀ x ∈ new, ∀ y ∈ s.stack, Edge getDependencies evaluated x y → t.lowLink node ≤ s.nodeIndex y

structure Considered (node : V) (below grey : List V) (ds : List V) (s : State V) (new : List V) : Prop where
  inv : Inv getDependencies evaluated startingPoint calls s (node :: grey)
  grey_below : ∀ x ∈ grey, x ∈ below
  stack_eq : s.stack = new ++ node :: below
  low : ∃ z ∈ node :: below, s.nodeIndex z = s.lowLink node ∧ Reach getDependencies evaluated node z
  crossing : ∀ x ∈ new, ∀ y ∈ below, Edge getDependencies evaluated x y → s.lowLink node ≤ s.nodeIndex y
  processed : ∀ d ∈ ds, evaluated d = false → s.nodeIndex d ≠ 0 ∧ (d ∈ below → s.lowLink node ≤ s.nodeIndex d)

structure Ready (node : V) (s : State V) (grey : List V) : Prop where
  inv : Inv getDependencies evaluated startingPoint calls s grey
  not_evaluated : evaluated node = false
  unseen : s.nodeIndex node = 0
  of_grey : ∀ x ∈ grey, Reach getDependencies evaluated x node
  of_start : Reach getDependencies evaluated startingPoint node

end

section
variable {node other : V} {s t u : State V}

lemma Frame.refl (node : V) (s : State V) : Frame node s s := ⟨fun _ _ => rfl, fun _ _ _ => rfl, fun _ h => h, le_rfl⟩

lemma Frame.seen (h : Frame node s t) {v : V} (hv : s.nodeIndex v ≠ 0) : t.nodeIndex v ≠ 0 := by rwa [h.nodeIndex v hv]

lemma Frame.trans (h : Frame node s t) (h' : Frame node t u) : Frame node s u := by
  refine ⟨fun v hv => ?_, fun v hv hne => ?_, fun v hv => h'.isEvaluated v (h.isEvaluated v hv), h.index.trans h'.index⟩
  · rw [h'.nodeIndex v (h.seen hv), h.nodeIndex v hv]
  · rw [h'.lowLink v (h.seen hv) hne, h.lowLink v hv hne]

lemma Frame.of_unseen (h : Frame other s t) (hoth : s.nodeIndex other = 0) : Frame node s t := by
  refine ⟨h.nodeIndex, fun v hv _ => h.lowLink v hv ?_, h.isEvaluated, h.index⟩
  rintro rfl
  exact hv hoth

lemma Frame.lower [DecidableEq V] (h : Frame node s t) (value : ℕ) : Frame node s (t.lower node value) := by
  refine ⟨fun v hv => ?_, fun v hv hne => ?_, fun v hv => ?_, ?_⟩
  · rw [lower_nodeIndex, h.nodeIndex v hv]
  · rw [lower_lowLink_of_ne _ _ _ hne, h.lowLink v hv hne]
  · rw [lower_isEvaluated, h.isEvaluated v hv]
  · rw [lower_index]
    exact h.index

end

section
variable [DecidableEq V]

lemma removeUntil_append {node : V} {new : List V} (below : List V) (h : node ∉ new) :
    removeUntil node (new ++ node :: below) = some (new ++ [node], below) := by
  induction new with
  | nil => simp [removeUntil]
  | cons v new ih =>
    rw [mem_cons, not_or] at h
    rw [cons_append, removeUntil, if_neg (Ne.symm h.1), ih h.2]
    rfl

lemma evaluateComponent_eq {node : V} {new below : List V} (cycle : Bool)
    (hsta : s.stack = new ++ node :: below) (hnew : node ∉ new) :
    ∃ c : Call V, evaluateComponent node cycle s = some (call c { s with stack := below }) ∧
      c.nodes = new ++ [node] ∧ ((∃ v, c = .evaluate v) ↔ new = [] ∧ cycle = false) := by
  cases new with
  | nil =>
    rw [nil_append] at hsta
    refine ⟨if cycle then .evaluateScc [node] else .evaluate node, ?_, ?_, ?_⟩
    · simp only [evaluateComponent, hsta, if_true]
    · cases cycle <;> rfl
    · cases cycle <;> simp
  | cons v new =>
    refine ⟨.evaluateScc (v :: new ++ [node]), ?_, rfl, by simp⟩
    have hne : v ≠ node := by
      rintro rfl
      exact hnew mem_cons_self
    have hrem := removeUntil_append below hnew
    rw [← hsta] at hrem
    simp only [evaluateComponent, hrem]
    rw [hsta]
    simp [hne]

end

section Steps
variable [DecidableEq V] {deps : V → List V} {ev : V → Bool} {root : V}
  {calls : List (Call V)} {node : V} {s t : State V} {grey below new ds : List V}

section
variable (h : Inv deps ev root calls s grey)
include h

omit [DecidableEq V] in
lemma Inv.nodup : s.stack.Nodup :=
  h.sorted.imp fun hlt heq => by
    subst heq
    exact lt_irrefl _ hlt

omit [DecidableEq V] in
lemma Inv.not_evaluated {v : V} (hv : s.isEvaluated v = false) : ev v = false := by
  by_contra hne
  rw [h.evaluated_of v (by simpa using hne)] at hv
  cases hv

lemma Inv.lower (value : ℕ) : Inv deps ev root calls (s.lower node value) grey := by
  rw [State.lower]
  split_ifs
  · exact ⟨h.evaluated_of, h.seen, h.on_stack, h.pos, h.sorted, h.grey_sub, h.forward, h.back, h.closed,
      h.considered, h.reached, by
        obtain ⟨new, hlog⟩ := h.log
        exact ⟨new, hlog.calls_eq, hlog.once, hlog.mem, hlog.component, hlog.callback, hlog.dependencies⟩⟩
  · exact h

end

lemma Ready.enter (h : Ready deps ev root calls node s grey) :
    Considered deps ev root calls node s.stack grey [] (s.enter node) [] := by
  have hnot : s.isEvaluated node = false ∧ node ∉ s.stack := by
    have := (not_congr (h.inv.seen node h.not_evaluated)).1 (by simp [h.unseen])
    rw [not_or] at this
    exact ⟨by simpa using this.2, this.1⟩
  have hself : (s.enter node).nodeIndex node = s.index := by simp [State.enter]
  have hoth : ∀ v ≠ node, (s.enter node).nodeIndex v = s.nodeIndex v := fun v hv => by simp [State.enter, hv]
  have hold : ∀ v ∈ s.stack, (s.enter node).nodeIndex v = s.nodeIndex v := by
    intro v hv
    apply hoth
    rintro rfl
    exact hnot.2 hv
  have hpos := h.inv.pos
  have hsta : (s.enter node).stack = node :: s.stack := rfl
  have hrea : ∀ x ∈ s.stack, Reach deps ev x node := by
    intro x hx
    obtain ⟨g, hg, -, hxg⟩ := h.inv.back x hx
    exact hxg.trans (h.of_grey g hg)
  refine ⟨⟨h.inv.evaluated_of, ?_, ?_, Nat.succ_pos _, ?_, ?_, ?_, ?_, h.inv.closed, ?_, ?_, ?_⟩, ?_, rfl,
    ⟨node, mem_cons_self, ?_, .refl⟩, ?_, ?_⟩
  · -- seen
    intro v hv
    by_cases hvn : v = node
    · subst hvn
      rw [hself, hsta]
      simp [hpos.ne']
    · rw [hoth v hvn, hsta, h.inv.seen v hv, mem_cons, or_iff_right hvn]
      rfl
  · -- on_stack
    intro v hv
    rcases mem_cons.1 hv with rfl | hv
    · exact ⟨hnot.1, by rw [hself]; exact Nat.lt_succ_self _⟩
    · rw [hold v hv]
      exact ⟨(h.inv.on_stack v hv).1, Nat.lt_succ_of_lt (h.inv.on_stack v hv).2⟩
  · -- sorted
    constructor
    · intro v hv
      rw [hself, hold v hv]
      exact (h.inv.on_stack v hv).2
    · refine h.inv.sorted.imp_of_mem fun {x y} hx hy hlt => ?_
      rwa [hold x hx, hold y hy]
  · -- grey_sub
    intro x hx
    rcases mem_cons.1 hx with rfl | hx
    · exact mem_cons_self
    · exact mem_cons_of_mem _ (h.inv.grey_sub x hx)
  · -- forward
    intro x hx y hy hxy
    rcases mem_cons.1 hx with rfl | hx'
    · rcases mem_cons.1 hy with rfl | hy'
      · exact .refl
      · rw [hself, hold y hy'] at hxy
        exact absurd (h.inv.on_stack y hy').2 (not_lt.2 hxy)
    · rcases mem_cons.1 hy with rfl | hy'
      · exact hrea x hx'
      · rw [hold x hx', hold y hy'] at hxy
        exact h.inv.forward x hx' y hy' hxy
  · -- back
    intro y hy
    rcases mem_cons.1 hy with rfl | hy
    · exact ⟨_, mem_cons_self, le_rfl, .refl⟩
    · obtain ⟨x, hx, hxy, hr⟩ := h.inv.back y hy
      refine ⟨x, mem_cons_of_mem _ hx, ?_, hr⟩
      rwa [hold x (h.inv.grey_sub x hx), hold y hy]
  · -- considered
    intro v hv hgrey w hw
    rw [mem_cons, not_or] at hgrey
    have hseen := h.inv.considered v ((mem_cons.1 hv).resolve_left hgrey.1) hgrey.2 w hw
    by_cases hwn : w = node
    · rw [hwn, hself]
      exact hpos.ne'
    · rwa [hoth w hwn]
  · -- reached
    intro v hv hseen
    by_cases hvn : v = node
    · rw [hvn]
      exact h.of_start
    · rw [hoth v hvn] at hseen
      exact h.inv.reached v hv hseen
  · obtain ⟨new, hlog⟩ := h.inv.log
    exact ⟨new, hlog.calls_eq, hlog.once, hlog.mem, hlog.component, hlog.callback, hlog.dependencies⟩
  · exact h.inv.grey_sub
  · simp [State.enter]
  · exact nofun
  · exact nofun

lemma enter_frame (hnode : s.nodeIndex node = 0) : Frame node s (s.enter node) := by
  have hne : ∀ v, s.nodeIndex v ≠ 0 → v ≠ node := by
    rintro v hv rfl
    exact hv hnode
  refine ⟨fun v hv => ?_, fun v _ hvn => ?_, fun _ h => h, Nat.le_succ _⟩
  · simp [enter, hne v hv]
  · simp [enter, hvn]

section
variable (h : Considered deps ev root calls node below grey ds s new)
include h

omit [DecidableEq V] in
lemma Considered.sorted :
    (∀ x ∈ new, s.nodeIndex node < s.nodeIndex x) ∧ ∀ y ∈ below, s.nodeIndex y < s.nodeIndex node := by
  have hsor := h.inv.sorted
  rw [h.stack_eq, pairwise_append, pairwise_cons] at hsor
  exact ⟨fun x hx => hsor.2.2 x hx node mem_cons_self, hsor.2.1.1⟩

omit [DecidableEq V] in
lemma Considered.node_mem : node ∈ s.stack := h.inv.grey_sub node mem_cons_self

omit [DecidableEq V] in
lemma Considered.node_live : ev node = false := h.inv.not_evaluated (h.inv.on_stack node h.node_mem).1

omit [DecidableEq V] in
lemma Considered.node_seen : s.nodeIndex node ≠ 0 := (h.inv.seen node h.node_live).2 (.inl h.node_mem)

omit [DecidableEq V] in
lemma Considered.low_le : s.lowLink node ≤ s.nodeIndex node := by
  obtain ⟨z, hz, hlow, -⟩ := h.low
  rw [← hlow]
  rcases mem_cons.1 hz with rfl | hz
  · exact le_rfl
  · exact (h.sorted.2 z hz).le

omit [DecidableEq V] in
lemma Considered.snoc {d : V} (hd : ev d = false → s.nodeIndex d ≠ 0 ∧ (d ∈ below → s.lowLink node ≤ s.nodeIndex d)) :
    Considered deps ev root calls node below grey (ds ++ [d]) s new := by
  refine ⟨h.inv, h.grey_below, h.stack_eq, h.low, h.crossing, fun x hx => ?_⟩
  rcases mem_append.1 hx with hx | hx
  · exact h.processed x hx
  · rw [mem_singleton.1 hx]
    exact hd

omit [DecidableEq V] in
lemma Considered.skip {d : V} (hd : s.isEvaluated d = true ∨ d = node) :
    Considered deps ev root calls node below grey (ds ++ [d]) s new := by
  apply h.snoc
  intro hlive
  rcases hd with hd | rfl
  · refine ⟨(h.inv.seen d hlive).2 (.inr hd), fun hmem => ?_⟩
    have hfal := (h.inv.on_stack d (by rw [h.stack_eq]; simp [hmem])).1
    rw [hd] at hfal
    cases hfal
  · exact ⟨h.node_seen, fun hmem => absurd (h.sorted.2 _ hmem) (lt_irrefl _)⟩

end

lemma Considered.low_lower {value : ℕ}
    (hlow : ∃ z ∈ node :: below, s.nodeIndex z = s.lowLink node ∧ Reach deps ev node z)
    (h : value < s.lowLink node → ∃ z ∈ below, s.nodeIndex z = value ∧ Reach deps ev node z) :
    ∃ z ∈ node :: below, (s.lower node value).nodeIndex z = (s.lower node value).lowLink node ∧
    Reach deps ev node z := by
  rw [lower_nodeIndex, lower_lowLink_self]
  rcases lt_or_ge value (s.lowLink node) with hlt | hle
  · obtain ⟨z, hz, hzv, hr⟩ := h hlt
    exact ⟨z, mem_cons_of_mem _ hz, by rw [hzv, min_eq_left hlt.le], hr⟩
  · rwa [min_eq_right hle]

section
variable {d : V} (h : Considered deps ev root calls node below grey ds s new) (hd : s.isEvaluated d = false)
include h hd

lemma Considered.older (hseen : s.nodeIndex d ≠ 0) (hne : d ≠ node) (hdep : d ∈ deps node) :
    Considered deps ev root calls node below grey (ds ++ [d]) (s.lower node (s.nodeIndex d)) new := by
  have hlive := h.inv.not_evaluated hd
  have hsta : d ∈ s.stack := ((h.inv.seen d hlive).1 hseen).resolve_right (by simp [hd])
  have hlower : Considered deps ev root calls node below grey ds (s.lower node (s.nodeIndex d)) new := by
    refine ⟨h.inv.lower _, h.grey_below, by rw [lower_stack, h.stack_eq], low_lower h.low fun hlt => ?_,
      fun x hx y hy hxy => ?_, fun x hx hx' => ?_⟩
    · rw [h.stack_eq, mem_append, mem_cons] at hsta
      rcases hsta with hmem | rfl | hmem
      · have := h.sorted.1 d hmem
        have := h.low_le
        omega
      · exact absurd rfl hne
      · exact ⟨d, hmem, rfl, .single ⟨h.node_live, hlive, hdep⟩⟩
    · rw [lower_nodeIndex, lower_lowLink_self]
      exact (min_le_right _ _).trans (h.crossing x hx y hy hxy)
    · rw [lower_nodeIndex, lower_lowLink_self]
      exact ⟨(h.processed x hx hx').1, fun hmem => (min_le_right _ _).trans ((h.processed x hx hx').2 hmem)⟩
  apply hlower.snoc
  intro _
  rw [lower_nodeIndex, lower_lowLink_self]
  exact ⟨hseen, fun _ => min_le_left _ _⟩

omit [DecidableEq V] in
lemma Considered.ready (huns : s.nodeIndex d = 0) (hdep : d ∈ deps node) :
    Ready deps ev root calls d s (node :: grey) := by
  have hlive := h.inv.not_evaluated hd
  have hedge : Edge deps ev node d := ⟨h.node_live, hlive, hdep⟩
  refine ⟨h.inv, hlive, huns, fun x hx => ?_, (h.inv.reached node h.node_live h.node_seen).tail hedge⟩
  rcases mem_cons.1 hx with rfl | hx'
  · exact .single hedge
  · have hlt := h.sorted.2 x (h.grey_below x hx')
    exact (h.inv.forward x (h.inv.grey_sub x hx) node h.node_mem hlt.le).tail hedge

lemma Considered.visited {above : List V} (huns : s.nodeIndex d = 0)
    (hdep : d ∈ deps node) (hinv : Inv deps ev root calls t (node :: grey))
    (hconn : Connected deps ev d s t above) :
    Considered deps ev root calls node below grey (ds ++ [d]) (t.lower node (t.lowLink d)) (above ++ new) := by
  have hlive := h.inv.not_evaluated hd
  have hfra := hconn.frame
  have hne : node ≠ d := by
    rintro rfl
    exact h.node_seen huns
  have hlow : t.lowLink node = s.lowLink node := hfra.lowLink node h.node_seen hne
  have hind : ∀ v ∈ s.stack, t.nodeIndex v = s.nodeIndex v := fun v hv =>
    hfra.nodeIndex v ((h.inv.seen v (h.inv.not_evaluated (h.inv.on_stack v hv).1)).2 (.inl hv))
  have hbel : ∀ y ∈ below, y ∈ s.stack := fun y hy => by rw [h.stack_eq]; simp [hy]
  have hvis : Considered deps ev root calls node below grey ds (t.lower node (t.lowLink d)) (above ++ new) := by
    refine ⟨hinv.lower _, h.grey_below, by rw [lower_stack, hconn.stack_eq, h.stack_eq, append_assoc],
      low_lower ?_ fun hlt => ?_, fun x hx y hy hxy => ?_, fun x hx hx' => ?_⟩
    · obtain ⟨z, hz, hzlow, hr⟩ := h.low
      refine ⟨z, hz, ?_, hr⟩
      rw [hlow, ← hzlow, hind z (by rw [h.stack_eq]; exact mem_append_right _ hz)]
    · -- An index below that of `node` belongs to an older node.
      have hle := h.low_le
      have hnode := (h.inv.on_stack node h.node_mem).2
      rcases hconn.low with ⟨-, hge⟩ | ⟨z, hz, hzlow, hr⟩
      · omega
      · rw [← hzlow] at hlt ⊢
        have hzin := hind z hz
        rw [h.stack_eq, mem_append, mem_cons] at hz
        rcases hz with hmem | rfl | hmem
        · have := h.sorted.1 z hmem
          omega
        · omega
        · exact ⟨z, hmem, hzin, .head ⟨h.node_live, hlive, hdep⟩ hr⟩
    · rw [lower_nodeIndex, lower_lowLink_self, hind y (hbel y hy)]
      rcases mem_append.1 hx with hx | hx
      · exact (min_le_left _ _).trans (hconn.crossing x hx y (hbel y hy) hxy)
      · rw [hlow]
        exact (min_le_right _ _).trans (h.crossing x hx y hy hxy)
    · obtain ⟨hseen, hle⟩ := h.processed x hx hx'
      rw [lower_nodeIndex, lower_lowLink_self, hfra.nodeIndex x hseen, hlow]
      exact ⟨hseen, fun hmem => (min_le_right _ _).trans (hle hmem)⟩
  apply hvis.snoc
  intro _
  rw [lower_nodeIndex]
  refine ⟨hconn.seen, fun hmem => ?_⟩
  exact absurd huns ((h.inv.seen d hlive).2 (.inl (hbel d hmem)))

end

section

def unseen [Fintype V] (s : State V) : ℕ := (Finset.univ.filter fun v => s.nodeIndex v = 0).card

omit [DecidableEq V] in
lemma Frame.unseen_le [Fintype V] (h : Frame node s t) : unseen t ≤ unseen s := by
  apply Finset.card_le_card
  intro v hv
  rw [Finset.mem_filter] at hv ⊢
  refine ⟨Finset.mem_univ v, ?_⟩
  by_contra hne
  exact h.seen hne hv.2

lemma unseen_enter [Fintype V] (h : s.nodeIndex node = 0) (hpos : 0 < s.index) : unseen (s.enter node) < unseen s := by
  apply Finset.card_lt_card
  rw [Finset.ssubset_iff_of_subset]
  · refine ⟨node, by simp [h], fun hmem => ?_⟩
    rw [Finset.mem_filter] at hmem
    simp [enter, hpos.ne'] at hmem
  · intro v hv
    rw [Finset.mem_filter] at hv ⊢
    refine ⟨Finset.mem_univ v, ?_⟩
    by_contra hne
    exact (enter_frame h).seen hne hv.2

def Connects [Fintype V] (deps : V → List V) (ev : V → Bool) (root : V)
    (calls : List (Call V)) (m : ℕ) (connect : V → State V → Option (State V)) : Prop :=
  ∀ d s grey, Ready deps ev root calls d s grey → unseen s ≤ m →
    ∃ t new, connect d s = some t ∧ Inv deps ev root calls t grey ∧ Connected deps ev d s t new

lemma considerDependencies_spec [Fintype V] {m : ℕ} {connect : V → State V → Option (State V)}
    (hconnect : Connects deps ev root calls m connect) (rest : List V)
    (hrest : ∀ d ∈ rest, d ∈ deps node) (cycle : Bool) (hm : unseen s ≤ m)
    (h : Considered deps ev root calls node below grey ds s new) :
    ∃ t new, considerDependencies connect node rest s cycle = some (t, cycle || decide (node ∈ rest)) ∧
    Considered deps ev root calls node below grey (ds ++ rest) t new ∧ Frame node s t := by
  induction rest generalizing s ds new cycle with
  | nil => exact ⟨s, new, by simp [considerDependencies], by rwa [append_nil], .refl node s⟩
  | cons d rest ih =>
    have hdep := hrest d mem_cons_self
    have hrest' : ∀ d ∈ rest, d ∈ deps node := fun d hd => hrest d (mem_cons_of_mem _ hd)
    have happ : ds ++ d :: rest = ds ++ [d] ++ rest := by simp
    rw [considerDependencies, happ]
    split_ifs with heva hself huns
    · -- `node` is on the stack, hence not the ev dependency.
      have hne : node ≠ d := by
        rintro rfl
        rw [(h.inv.on_stack node h.node_mem).1] at heva
        cases heva
      obtain ⟨t, new, ht, hcon, hfra⟩ := ih hrest' cycle hm (h.skip (.inl heva))
      exact ⟨t, new, by simp [ht, hne], hcon, hfra⟩
    · obtain ⟨t, new, ht, hcon, hfra⟩ := ih hrest' true hm (h.skip (.inr hself.symm))
      exact ⟨t, new, by rw [ht]; simp [hself], hcon, hfra⟩
    · have hfal : s.isEvaluated d = false := by simpa using heva
      obtain ⟨u, above, hu, hinv, hconn⟩ := hconnect d s _ (h.ready hfal huns hdep) hm
      have hfra : Frame node s (u.lower node (u.lowLink d)) := (hconn.frame.of_unseen huns).lower _
      obtain ⟨t, new, ht, hcon, hfra'⟩ := ih hrest' cycle (hfra.unseen_le.trans hm) (h.visited hfal huns hdep hinv hconn)
      exact ⟨t, new, by simp [hu, ht, hself], hcon, hfra.trans hfra'⟩
    · have hfal : s.isEvaluated d = false := by simpa using heva
      have hfra : Frame node s (s.lower node (s.nodeIndex d)) := (Frame.refl node s).lower _
      obtain ⟨t, new, ht, hcon, hfra'⟩ := ih hrest' cycle (hfra.unseen_le.trans hm)
        (h.older hfal huns (Ne.symm hself) hdep)
      exact ⟨t, new, by simp [ht, hself], hcon, hfra.trans hfra'⟩

end

section Finish

section
variable {x y : V} (h : Considered deps ev root calls node below grey (deps node) s new)
  (hlow : s.lowLink node = s.nodeIndex node) (hx : x ∈ new ++ [node])

include h hlow hx

lemma Considered.component_closed (hxy : Edge deps ev x y) : y ∈ new ++ [node] ∨ s.isEvaluated y := by
  have hsor := h.sorted
  -- Both kinds of nodes have seen dependencies, and no low ones.
  have hy : s.nodeIndex y ≠ 0 ∧ (y ∈ below → s.lowLink node ≤ s.nodeIndex y) := by
    rcases mem_append.1 hx with hmem | hmem
    · refine ⟨h.inv.considered x (by rw [h.stack_eq]; simp [hmem]) ?_ y hxy, fun hy => h.crossing x hmem y hy hxy⟩
      intro hgrey
      have hgt := hsor.1 x hmem
      rcases mem_cons.1 hgrey with rfl | hgrey
      · exact lt_irrefl _ hgt
      · exact absurd hgt (hsor.2 x (h.grey_below x hgrey)).asymm
    · rw [mem_singleton.1 hmem] at hxy
      exact h.processed y hxy.2.2 hxy.2.1
  rcases (h.inv.seen y hxy.2.1).1 hy.1 with hsta | heva
  · rw [h.stack_eq, mem_append, mem_cons] at hsta
    rcases hsta with hmem | rfl | hmem
    · exact .inl (mem_append_left _ hmem)
    · exact .inl (by simp)
    · have hge := hy.2 hmem
      have hlt := hsor.2 y hmem
      omega
  · exact .inr heva

lemma Considered.component_reach (hxy : Reach deps ev x y) : y ∈ new ++ [node] ∨ s.isEvaluated y := by
  induction hxy with
  | refl => exact .inl hx
  | tail _ hedge ih =>
    rcases ih with hmem | heva
    · exact h.component_closed hlow hmem hedge
    · exact .inr (h.inv.closed _ _ heva hedge)

end

omit [DecidableEq V] in
lemma Inv.reach_closed (h : Inv deps ev root calls s grey) {x y : V}
    (hx : s.isEvaluated x) (hxy : Reach deps ev x y) : s.isEvaluated y := by
  induction hxy with
  | refl => exact hx
  | tail _ hedge ih => exact h.closed _ _ ih hedge

omit [DecidableEq V] in
lemma Considered.component_mem (h : Considered deps ev root calls node below grey ds s new) {x : V} :
    x ∈ new ++ [node] ↔ x ∈ s.stack ∧ s.nodeIndex node ≤ s.nodeIndex x := by
  rw [h.stack_eq]
  simp only [mem_append, mem_cons, not_mem_nil, or_false]
  constructor
  · rintro (hx | rfl)
    · exact ⟨.inl hx, (h.sorted.1 x hx).le⟩
    · exact ⟨.inr (.inl rfl), le_rfl⟩
  · rintro ⟨hx | rfl | hx, hle⟩
    · exact .inl hx
    · exact .inr rfl
    · exact absurd (h.sorted.2 x hx) (not_lt.2 hle)

lemma Considered.component_iff (h : Considered deps ev root calls node below grey (deps node) s new)
    (hlow : s.lowLink node = s.nodeIndex node) {v w : V} (hv : v ∈ new ++ [node]) :
    w ∈ new ++ [node] ↔ SameComponent deps ev v w := by
  have hto : ∀ x ∈ new ++ [node], Reach deps ev node x := fun x hx =>
    h.inv.forward node h.node_mem x (h.component_mem.1 hx).1 (h.component_mem.1 hx).2
  -- The grey node that `x` reaches is in the component, and `node` is the only such one.
  have hfrom : ∀ x ∈ new ++ [node], Reach deps ev x node := by
    intro x hx
    obtain ⟨g, hg, -, hxg⟩ := h.inv.back x (h.component_mem.1 hx).1
    rcases mem_cons.1 hg with rfl | hgrey
    · exact hxg
    · have hlt := h.sorted.2 g (h.grey_below g hgrey)
      rcases h.component_reach hlow hx hxg with hmem | heva
      · exact absurd hlt (not_lt.2 (h.component_mem.1 hmem).2)
      · rw [(h.inv.on_stack g (h.inv.grey_sub g hg)).1] at heva
        cases heva
  constructor
  · intro hw
    exact ⟨(hfrom v hv).trans (hto w hw), (hfrom w hw).trans (hto v hv)⟩
  · rintro ⟨hvw, hwv⟩
    refine (h.component_reach hlow hv hvw).resolve_right fun heva => ?_
    have hfal := (h.inv.on_stack v (h.component_mem.1 hv).1).1
    rw [h.inv.reach_closed heva hwv] at hfal
    cases hfal

lemma Log.append {c : Call V} {new : List (Call V)} (h : Log deps ev calls s new)
    (hnodup : c.nodes.Nodup) (hfre : ∀ v ∈ c.nodes, ev v = false ∧ s.isEvaluated v = false)
    (hcom : c.nodes ≠ [] ∧ ∀ v ∈ c.nodes, ∀ w, w ∈ c.nodes ↔ SameComponent deps ev v w)
    (hcal : (∃ v, c = .evaluate v) ↔ ∃ v, c.nodes = [v] ∧ v ∉ deps v)
    (hdepe : ∀ v ∈ c.nodes, ∀ w ∈ deps v, w ∈ c.nodes ∨ ev w ∨ s.isEvaluated w) :
    Log deps ev calls (call c { s with stack := below }) (new ++ [c]) := by
  have hflat : (new ++ [c]).flatMap nodes = new.flatMap nodes ++ c.nodes := by simp
  have hmem : ∀ {p : Call V → Prop}, (∀ d ∈ new, p d) → p c → ∀ d ∈ new ++ [c], p d := by
    intro p hnew hc d hd
    rcases mem_append.1 hd with hd | hd
    · exact hnew d hd
    · rwa [mem_singleton.1 hd]
  refine ⟨?_, ?_, fun v => ?_, hmem h.component hcom, hmem h.callback hcal, ?_⟩
  · rw [call, h.calls_eq, append_assoc]
  · rw [hflat, nodup_append']
    refine ⟨h.once, hnodup, fun v hv hc => ?_⟩
    have hfal := (hfre v hc).2
    rw [((h.mem v).1 hv).2] at hfal
    cases hfal
  · rw [hflat, mem_append, h.mem v]
    simp only [call, Bool.or_eq_true, decide_eq_true_eq]
    constructor
    · rintro (⟨hv, hv'⟩ | hc)
      · exact ⟨hv, .inl hv'⟩
      · exact ⟨(hfre v hc).1, .inr hc⟩
    · rintro ⟨hv, hv' | hc⟩
      · exact .inl ⟨hv, hv'⟩
      · exact .inr hc
  · intro before d after heq
    rcases eq_nil_or_concat after with rfl | ⟨after', last, rfl⟩
    · obtain ⟨rfl, hcd⟩ := append_inj' heq rfl
      rw [← singleton_inj.1 hcd]
      intro v hv w hw
      rcases hdepe v hv w hw with hc | he | hs
      · exact .inl hc
      · exact .inr (.inl he)
      · cases hw : ev w with
        | false => exact .inr (.inr ((h.mem w).2 ⟨hw, hs⟩))
        | true => exact .inr (.inl rfl)
    · rw [concat_eq_append, ← cons_append, ← append_assoc] at heq
      exact h.dependencies before d after' (append_inj' heq rfl).1

section
variable (h : Considered deps ev root calls node below grey (deps node) s new)
include h

lemma Considered.evaluate (hlow : s.lowLink node = s.nodeIndex node) :
    ∃ c : Call V, evaluateComponent node (decide (node ∈ deps node)) s = some (call c { s with stack := below }) ∧
      Inv deps ev root calls (call c { s with stack := below }) grey := by
  have hsor := h.sorted
  have hnew : node ∉ new := fun hmem => lt_irrefl _ (hsor.1 node hmem)
  have hnodup := h.inv.nodup
  rw [h.stack_eq] at hnodup
  have hbel : ∀ v ∈ below, v ∈ s.stack := fun v hv => by rw [h.stack_eq]; simp [hv]
  obtain ⟨c, hcall, hnod, hkind⟩ := evaluateComponent_eq (decide (node ∈ deps node)) h.stack_eq hnew
  have hisEvaluated : ∀ v, (call c { s with stack := below }).isEvaluated v = true ↔
      s.isEvaluated v = true ∨ v ∈ new ++ [node] := by
    intro v
    rw [call, hnod]
    simp only [Bool.or_eq_true, decide_eq_true_eq]
  have hdis : ∀ v ∈ below, v ∉ new ++ [node] := fun v hv hmem =>
    absurd (hsor.2 v hv) (not_lt.2 (h.component_mem.1 hmem).2)
  refine ⟨c, hcall, ⟨fun v hv => (hisEvaluated v).2 (.inl (h.inv.evaluated_of v hv)), fun v hv => ?_,
    fun v hv => ?_, h.inv.pos, ?_, h.grey_below, fun x hx y hy => h.inv.forward x (hbel x hx) y (hbel y hy),
    fun y hy => ?_, fun v w hv hvw => ?_, fun v hv hgrey => ?_, h.inv.reached, ?_⟩⟩
  · -- seen
    rw [hisEvaluated]
    refine (h.inv.seen v hv).trans ?_
    rw [h.stack_eq]
    simp only [call, mem_append, mem_cons, not_mem_nil, or_false]
    tauto
  · -- on_stack
    obtain ⟨hfal, hlt⟩ := h.inv.on_stack v (hbel v hv)
    refine ⟨?_, hlt⟩
    rw [← Bool.not_eq_true, hisEvaluated, not_or]
    exact ⟨by simp [hfal], hdis v hv⟩
  · -- sorted
    have hall := h.inv.sorted
    rw [h.stack_eq, pairwise_append, pairwise_cons] at hall
    exact hall.2.1.2
  · -- back
    obtain ⟨x, hx, hle, hr⟩ := h.inv.back y (hbel y hy)
    rcases mem_cons.1 hx with rfl | hx'
    · exact absurd (hsor.2 y hy) (not_lt.2 hle)
    · exact ⟨x, hx', hle, hr⟩
  · -- closed
    rw [hisEvaluated] at hv ⊢
    rcases hv with hv | hv
    · exact .inl (h.inv.closed v w hv hvw)
    · exact (h.component_closed hlow hv hvw).symm
  · -- considered
    refine h.inv.considered v (hbel v hv) ?_
    intro hmem
    rcases mem_cons.1 hmem with rfl | hmem
    · exact lt_irrefl _ (hsor.2 _ hv)
    · exact hgrey hmem
  · -- log
    have hlive : ∀ v ∈ new ++ [node], ev v = false ∧ s.isEvaluated v = false := fun v hv =>
      have hfal := (h.inv.on_stack v (h.component_mem.1 hv).1).1
      ⟨h.inv.not_evaluated hfal, hfal⟩
    obtain ⟨log, hlog⟩ := h.inv.log
    refine ⟨log ++ [c], hlog.append ?_ (by rwa [hnod]) ⟨by simp [hnod], ?_⟩ ?_ ?_⟩
    · rw [hnod]
      rw [← singleton_append, ← append_assoc] at hnodup
      exact hnodup.of_append_left
    · rw [hnod]
      exact fun v hv w => h.component_iff hlow hv
    · rw [hkind, hnod]
      constructor
      · rintro ⟨rfl, hcyc⟩
        exact ⟨node, rfl, of_decide_eq_false hcyc⟩
      · rintro ⟨v, hv, hdep⟩
        rcases append_eq_singleton_iff.1 hv with ⟨rfl, hnode⟩ | ⟨-, hnode⟩
        · rw [singleton_inj.1 hnode]
          exact ⟨rfl, decide_eq_false hdep⟩
        · cases hnode
    · intro v hv w hw
      rw [hnod] at hv ⊢
      cases hwe : ev w with
      | true => exact .inr (.inl rfl)
      | false =>
        rcases h.component_closed hlow hv ⟨(hlive v hv).1, hwe, hw⟩ with hmem | hmem
        · exact .inl hmem
        · exact .inr (.inr hmem)

lemma Considered.keep (hlow : s.lowLink node ≠ s.nodeIndex node) : Inv deps ev root calls s grey ∧
    ∃ z ∈ below, s.nodeIndex z = s.lowLink node ∧ Reach deps ev node z := by
  have hsor := h.sorted
  obtain ⟨z, hz, hzlow, hr⟩ := h.low
  have hzbe : z ∈ below := by
    rcases mem_cons.1 hz with rfl | hz
    · exact absurd hzlow.symm hlow
    · exact hz
  have hgrey : ∀ y ∈ s.stack, s.nodeIndex y < s.nodeIndex node →
      ∃ x ∈ grey, s.nodeIndex x ≤ s.nodeIndex y ∧ Reach deps ev y x := by
    intro y hy hlt
    obtain ⟨x, hx, hle, hyx⟩ := h.inv.back y hy
    rcases mem_cons.1 hx with rfl | hx
    · omega
    · exact ⟨x, hx, hle, hyx⟩
  refine ⟨⟨h.inv.evaluated_of, h.inv.seen, h.inv.on_stack, h.inv.pos, h.inv.sorted,
    fun x hx => h.inv.grey_sub x (mem_cons_of_mem _ hx), h.inv.forward, fun y hy => ?_, h.inv.closed,
    fun v hv hnot w hvw => ?_, h.inv.reached, h.inv.log⟩, z, hzbe, hzlow, hr⟩
  · obtain ⟨x, hx, hle, hyx⟩ := h.inv.back y hy
    rcases mem_cons.1 hx with rfl | hx
    · have hzlt := hsor.2 z hzbe
      obtain ⟨g, hg, hgz, hzg⟩ := hgrey z (by rw [h.stack_eq]; simp [hzbe]) hzlt
      exact ⟨g, hg, by omega, (hyx.trans hr).trans hzg⟩
    · exact ⟨x, hx, hle, hyx⟩
  · by_cases hvn : v = node
    · rw [hvn] at hvw
      exact (h.processed w hvw.2.2 hvw.2.1).1
    · exact h.inv.considered v hv (by simp [hvn, hnot]) w hvw

end
end Finish
end Steps

section
variable [DecidableEq V] [Fintype V] {deps : V → List V} {ev : V → Bool} {root : V}
  {calls : List (Call V)}

lemma strongConnect_spec (fuel : ℕ) : Connects deps ev root calls fuel (strongConnect deps fuel) := by
  induction fuel with
  | zero =>
    intro node s grey h huns
    have hlt := unseen_enter h.unseen h.inv.pos
    omega
  | succ fuel ih =>
    intro node s grey h huns
    have hlt := unseen_enter h.unseen h.inv.pos
    obtain ⟨t, new, ht, hcon, hfra⟩ :=
      considerDependencies_spec ih (deps node) (fun _ hd => hd) false (by omega) h.enter
    have hall : Frame node s t := (enter_frame h.unseen).trans hfra
    have hind : ∀ y ∈ s.stack, t.nodeIndex y = s.nodeIndex y := fun y hy =>
      hall.nodeIndex y ((h.inv.seen y (h.inv.not_evaluated (h.inv.on_stack y hy).1)).2 (.inl hy))
    have hent : t.nodeIndex node = s.index := by
      rw [hfra.nodeIndex node (h.enter.node_seen)]
      simp [enter]
    simp only [strongConnect, ht, Option.bind_eq_bind, Option.bind_some]
    split_ifs with hlow
    · obtain ⟨c, hcall, hinv⟩ := hcon.evaluate hlow
      refine ⟨_, [], hcall, hinv, rfl, ?_, hcon.node_seen, .inl ⟨rfl, ?_⟩, ?_⟩
      · refine ⟨hall.nodeIndex, hall.lowLink, fun v hv => ?_, hall.index⟩
        simp [call, hall.isEvaluated v hv]
      · exact (hent.symm.trans hlow.symm).le
      · exact nofun
    · obtain ⟨hinv, z, hz, hzlow, hr⟩ := hcon.keep hlow
      refine ⟨t, new ++ [node], rfl, hinv, ?_, hall, hcon.node_seen, .inr ⟨z, hz, ?_, hr⟩, ?_⟩
      · rw [hcon.stack_eq, append_assoc]
        rfl
      · rw [← hind z hz, hzlow]
      · intro x hx y hy hxy
        rw [← hind y hy]
        rcases mem_append.1 hx with hx | hx
        · exact hcon.crossing x hx y hy hxy
        · rw [mem_singleton.1 hx] at hxy
          exact (hcon.processed y hxy.2.2 hxy.2.1).2 hy

def Settled (ev : V → Bool) (s : State V) : Prop :=
  (∀ v, s.nodeIndex v ≠ 0 → s.isEvaluated v) ∧ ∀ v, s.isEvaluated v ↔ ev v ∨ v ∈ s.calls.flatMap nodes

omit [DecidableEq V] [Fintype V] in
lemma fresh_settled (ev : V → Bool) : Settled ev (fresh ev) := ⟨fun v hv => absurd rfl hv, fun v => by simp [fresh]⟩

omit [DecidableEq V] [Fintype V] in
lemma start_inv (h : ∀ v, s.nodeIndex v ≠ 0 → s.isEvaluated v) :
    Inv deps s.isEvaluated root s.calls { s with index := 1, stack := [] } [] := by
  refine ⟨fun _ hv => hv, fun v hv => ?_, nofun, Nat.one_pos, .nil,
    nofun, nofun,
    nofun, fun v w hv hvw => ?_, nofun,
    fun v hv hseen => ?_, [], ?_⟩
  · constructor
    · exact fun hseen => .inr (h v hseen)
    · rintro (hmem | heva)
      · exact absurd hmem not_mem_nil
      · rw [hv] at heva
        cases heva
  · rw [hvw.1] at hv
    cases hv
  · rw [h v hseen] at hv
    cases hv
  · exact ⟨by simp, nodup_nil, fun v => by simp, nofun,
      nofun, fun before c after heq => by simp at heq⟩

lemma walk_spec (deps : V → List V) {fuel : ℕ} (hfuel : Fintype.card V ≤ fuel) (root : V)
    (h : Settled ev s) : ∃ t new, walk deps fuel root s = some t ∧ t.calls = s.calls ++ new ∧
    Settled ev t ∧ Evaluates deps s.isEvaluated root new := by
  rw [walk]
  split_ifs with hstart
  · refine ⟨s, [], rfl, by simp, h, nodup_nil, fun v => by simp [hstart],
      nofun, nofun,
      fun before c after heq => by simp at heq⟩
  · have hfal : s.isEvaluated root = false := by simpa using hstart
    have huns : s.nodeIndex root = 0 := by
      by_contra hne
      exact hstart (h.1 root hne)
    have hready : Ready deps s.isEvaluated root s.calls root { s with index := 1, stack := [] } [] :=
      ⟨start_inv h.1, hfal, huns, nofun, .refl⟩
    have hcard : unseen { s with index := 1, stack := [] } ≤ fuel := (Finset.card_le_univ _).trans hfuel
    obtain ⟨t, new, ht, hinv, hconn⟩ := strongConnect_spec fuel root _ [] hready hcard
    -- No node is grey, so the stack is empty.
    have hsta : t.stack = [] := by
      rw [eq_nil_iff_forall_not_mem]
      intro y hy
      obtain ⟨x, hx, -⟩ := hinv.back y hy
      exact not_mem_nil hx
    have hseen : ∀ v, t.nodeIndex v ≠ 0 → t.isEvaluated v := by
      intro v hv
      cases hev : s.isEvaluated v with
      | true => exact hinv.evaluated_of v hev
      | false =>
        have := (hinv.seen v hev).1 hv
        rw [hsta] at this
        exact this.resolve_left not_mem_nil
    obtain ⟨log, hlog⟩ := hinv.log
    refine ⟨t, log, ht, hlog.calls_eq, ⟨hseen, fun v => ?_⟩, hlog.once, fun v => ?_, hlog.component,
      hlog.callback, hlog.dependencies⟩
    · rw [hlog.calls_eq, flatMap_append, mem_append, hlog.mem v, ← or_assoc, ← h.2 v]
      constructor
      · intro hv
        cases hev : s.isEvaluated v with
        | true => exact .inl rfl
        | false => exact .inr ⟨rfl, hv⟩
      · rintro (hv | ⟨-, hv⟩)
        · exact hinv.evaluated_of v hv
        · exact hv
    · rw [hlog.mem v]
      constructor
      · rintro ⟨hlive, hv⟩
        exact ⟨hfal, hinv.reached v hlive ((hinv.seen v hlive).2 (.inr hv))⟩
      · rintro ⟨-, hr⟩
        have hlive : s.isEvaluated v = false := by
          rcases Relation.ReflTransGen.cases_tail hr with rfl | ⟨w, -, hw⟩
          · exact hfal
          · exact hw.2.1
        exact ⟨hlive, hinv.reach_closed (hseen root hconn.seen) hr⟩

lemma walks_settled (deps : V → List V) {fuel : ℕ} (hfuel : Fintype.card V ≤ fuel)
    (startingPoints : List V) (h : Settled ev s) :
    ∃ t, walks deps fuel startingPoints s = some t ∧ Settled ev t := by
  induction startingPoints generalizing s with
  | nil => exact ⟨s, rfl, h⟩
  | cons root rest ih =>
    obtain ⟨t, new, ht, -, hsettled, -⟩ := walk_spec deps hfuel root h
    obtain ⟨u, hu, hsettled'⟩ := ih hsettled
    exact ⟨u, by simp [walks, ht, hu], hsettled'⟩

end

theorem walk_evaluates [DecidableEq V] [Fintype V] (getDependencies : V → List V) (evaluated : V → Bool)
    (startingPoints : List V) (startingPoint : V) {fuel : ℕ} (hfuel : Fintype.card V ≤ fuel) :
    ∃ s t new, walks getDependencies fuel startingPoints (fresh evaluated) = some s ∧
      walk getDependencies fuel startingPoint s = some t ∧ t.calls = s.calls ++ new ∧
      (∀ v, s.isEvaluated v ↔ evaluated v ∨ v ∈ s.calls.flatMap nodes) ∧
      Evaluates getDependencies s.isEvaluated startingPoint new := by
  obtain ⟨s, hs, hsettled⟩ := walks_settled getDependencies hfuel startingPoints (fresh_settled evaluated)
  obtain ⟨t, new, ht, hcalls, -, hevaluates⟩ := walk_spec getDependencies hfuel startingPoint hsettled
  exact ⟨s, t, new, hs, ht, hcalls, hsettled.2, hevaluates⟩

theorem walk_evaluates_cycle : ∃ s t new, walks ![[1, 2], [0], [2]] 3 [2] (fresh fun _ => false) = some s ∧
    walk ![[1, 2], [0], [2]] 3 (0 : Fin 3) s = some t ∧ t.calls = s.calls ++ new ∧
    (∀ v, s.isEvaluated v ↔ false ∨ v ∈ s.calls.flatMap nodes) ∧
    Evaluates ![[1, 2], [0], [2]] s.isEvaluated 0 new :=
  walk_evaluates ![[1, 2], [0], [2]] (fun _ => false) [2] 0 (by decide)

example : (walks ![[1, 2], [0], [2]] 3 [2, 0] (fresh fun _ : Fin 3 => false)).map calls =
    some [.evaluateScc [2], .evaluateScc [1, 0]] := by decide

end DartSdk.Dependencies
