import DartSdk.Library.Simulation
import DartSdk.Moves.Resolver
import Mathlib.Data.Fintype.Card

namespace DartSdk.Moves
open ParallelAssign List Function MoveOperands Resolver Op Operand Bool
variable {C L V : Type} [DecidableEq C] [DecidableEq L]

namespace Op

def exec (value : C → V) (σ : L → V) (op : Op C L) : L → V :=
  match op.kind, op.operands.src, op.operands.dest with
  | .move, some x, some (.place d) => update σ d (x.eval value σ)
  | .swap, some (.place s), some (.place d) => exchange σ s d
  | _, _, _ => σ

def run (value : C → V) (ops : List (Op C L)) (σ : L → V) : L → V := ops.foldl (exec value) σ

omit [DecidableEq C] in
lemma run_append (value : C → V) (ops ops' : List (Op C L)) (σ : L → V) :
    run value (ops ++ ops') σ = run value ops' (run value ops σ) :=
  foldl_append

omit [DecidableEq C] in
lemma run_moveSchedule (value : C → V) (ops : List (Op C L)) (σ : L → V) :
    run value (moveSchedule ops) σ = run value ops σ := by
  induction ops generalizing σ with
  | nil => rfl
  | cons op ops ih =>
    unfold moveSchedule at ih ⊢
    rw [filter_cons]
    split_ifs with h
    · exact ih _
    · rw [ih]
      obtain ⟨kind, operands⟩ := op
      obtain rfl : kind = .nop := by simpa using h
      rfl

end Op

section
variable {n : ℕ} (dest : Fin n → L)

def operandsOf (stack : List (Fin n)) (source : Fin n → Option (Operand C L)) (i : Fin n) :
    MoveOperands C L :=
  ⟨if i ∈ stack then none else (source i).map fun _ => .place (dest i), source i⟩

def render (stack : List (Fin n)) (source : Fin n → Option (Operand C L)) : List (MoveOperands C L) :=
  ofFn (operandsOf dest stack source)

variable {dest} {stack : List (Fin n)} {source : Fin n → Option (Operand C L)} {k : Fin n}

omit [DecidableEq C] [DecidableEq L] in
@[simp] lemma length_render : (render dest stack source).length = n := length_ofFn

omit [DecidableEq C] [DecidableEq L] in
@[simp] lemma getElem?_render (i : Fin n) :
    (render dest stack source)[(i : ℕ)]? = some (operandsOf dest stack source i) := by
  simp [render]

omit [DecidableEq C] [DecidableEq L] in
lemma set_render {stack' : List (Fin n)} {source' : Fin n → Option (Operand C L)}
    (h : ∀ i, i ≠ k → operandsOf dest stack' source' i = operandsOf dest stack source i) :
    (render dest stack source).set k (operandsOf dest stack' source' k) = render dest stack' source' := by
  refine ext_getElem (by simp) fun i hi _ => ?_
  rw [getElem_set]
  split_ifs with hik
  · subst hik
    simp [render]
  · rw [length_set, length_render] at hi
    simp only [render, List.getElem_ofFn]
    exact (h ⟨i, hi⟩ fun he => hik (congrArg Fin.val he.symm)).symm

omit [DecidableEq C] [DecidableEq L] in
lemma render_markPending : (render dest stack source).set k (operandsOf dest stack source k).markPending =
    render dest (k :: stack) source := by
  have h : (operandsOf dest stack source k).markPending = operandsOf dest (k :: stack) source k := by
    simp [operandsOf, markPending]
  rw [h, set_render]
  intro i hi
  simp [operandsOf, hi]

omit [DecidableEq C] [DecidableEq L] in
lemma render_clearPending {x : Operand C L} (hk : k ∉ stack) (hx : source k = some x) :
    (render dest (k :: stack) source).set k
    ((operandsOf dest (k :: stack) source k).clearPending (some (.place (dest k)))) = render dest stack source := by
  have h : (operandsOf dest (k :: stack) source k).clearPending (some (.place (dest k))) =
      operandsOf dest stack source k := by
    simp [operandsOf, clearPending, hk, hx]
  rw [h, set_render]
  intro i hi
  simp [operandsOf, hi]

omit [DecidableEq C] [DecidableEq L] in
lemma render_eliminate : (render dest stack source).set k .eliminate = render dest stack (update source k none) := by
  have h : (.eliminate : MoveOperands C L) = operandsOf dest stack (update source k none) k := by
    simp [operandsOf, eliminate]
  rw [h, set_render]
  intro i hi
  simp [operandsOf, hi]

lemma blocks_iff (m : MoveOperands C L) (x : Operand C L) : m.blocks (some x) = true ↔ m.src = some x := by
  unfold blocks isEliminated
  constructor
  · intro h
    simpa using (and_eq_true_iff.1 h).2
  · intro h
    simp [h]

lemma afterSwap_operandsOf (a b : L) (i : Fin n) :
    afterSwap (some (.place a)) (some (.place b)) (operandsOf dest stack source i) =
      operandsOf dest stack (fun i => (source i).map (redirect a b)) i := by
  simp only [afterSwap, blocks_iff, operandsOf]
  cases source i with
  | none => simp
  | some x =>
    simp only [Option.some.injEq, Option.map_some, redirect]
    split_ifs <;> rfl

lemma render_afterSwap (a b : L) : (render dest stack source).map (afterSwap (some (.place a)) (some (.place b))) =
    render dest stack fun i => (source i).map (redirect a b) := by
  rw [render, map_ofFn]
  congr 1
  funext i
  exact afterSwap_operandsOf a b i

omit [DecidableEq C] [DecidableEq L] in
lemma isPending_iff (i : Fin n) : (operandsOf dest stack source i).isPending = true ↔ i ∈ stack ∧ source i ≠ none := by
  simp only [operandsOf, isPending]
  cases source i <;> simp

end

section
variable {n : ℕ} (dest : Fin n → L)

def Linked (source : Fin n → Option (Operand C L)) : List (Fin n) → Prop
  | [] => True
  | [_] => True
  | k :: p :: stack => source k = some (.place (dest p)) ∧ Linked source (p :: stack)

structure Path (source : Fin n → Option (Operand C L)) (stack : List (Fin n)) : Prop where
  nodup : stack.Nodup
  live : ∀ {k}, k ∈ stack → source k ≠ none
  linked : Linked dest source stack
  proper : ∀ {k}, k ∉ stack → source k ≠ some (.place (dest k))

structure Later (stack : List (Fin n)) (source source' : Fin n → Option (Operand C L)) : Prop where
  done : ∀ {j}, source j = none → source' j = none
  blocked : ∀ {j p}, j ∉ stack → p ∈ stack → source' j = some (.place (dest p)) → source j = some (.place (dest p))
  constant : ∀ {j c}, source j = some (.constant c) → source' j = some (.constant c) ∨ source' j = none

variable {dest} {source source' : Fin n → Option (Operand C L)} {stack : List (Fin n)} {k p : Fin n}

omit [DecidableEq C] [DecidableEq L] in
lemma Later.refl : Later dest stack source source := ⟨id, fun _ _ => id, .inl⟩

variable {source'' : Fin n → Option (Operand C L)}

omit [DecidableEq C] [DecidableEq L] in
lemma Later.trans (h : Later dest stack source source') (h' : Later dest stack source' source'') :
    Later dest stack source source'' where
  done hj := h'.done (h.done hj)
  blocked hj hp hs := h.blocked hj hp (h'.blocked hj hp hs)
  constant hj := by
    rcases h.constant hj with hc | hn
    · exact h'.constant hc
    · exact .inr (h'.done hn)

omit [DecidableEq C] [DecidableEq L] in
lemma Later.pop (h : Later dest (k :: stack) source source') (h' : Later dest stack source' source'')
    (hk : source'' k = none) : Later dest stack source source'' where
  done hj := h'.done (h.done hj)
  blocked {j p} hj hp hs := by
    have hjk : j ≠ k := fun he => by simp [he, hk] at hs
    exact h.blocked (not_mem_cons_of_ne_of_not_mem hjk hj) (mem_cons_of_mem k hp) (h'.blocked hj hp hs)
  constant hj := by
    rcases h.constant hj with hc | hn
    · exact h'.constant hc
    · exact .inr (h'.done hn)

omit [DecidableEq C] [DecidableEq L] in
lemma Linked.congr (h : Linked dest source stack)
    (hs : ∀ k ∈ stack, ∀ p ∈ stack.tail, source k = some (.place (dest p)) → source' k = some (.place (dest p))) :
    Linked dest source' stack := by
  induction stack with
  | nil => trivial
  | cons k stack ih =>
    cases stack with
    | nil => trivial
    | cons p stack =>
      refine ⟨hs k (by simp) p (by simp) h.1, ih h.2 fun j hj q hq => ?_⟩
      exact hs j (mem_cons_of_mem k hj) q (mem_cons_of_mem p hq)

omit [DecidableEq C] [DecidableEq L] in
lemma Linked.pop (h : Linked dest source (k :: stack)) : Linked dest source stack := by
  cases stack with
  | nil => trivial
  | cons p stack => exact h.2

omit [DecidableEq C] [DecidableEq L] in
lemma Path.push (h : Path dest source stack) (hk : k ∉ stack) (hs : source k ≠ none)
    (hlink : ∀ p ∈ stack.head?, source k = some (.place (dest p))) : Path dest source (k :: stack) where
  nodup := nodup_cons.2 ⟨hk, h.nodup⟩
  live hm := by
    rcases mem_cons.1 hm with rfl | hm
    · exact hs
    · exact h.live hm
  linked := by
    cases stack with
    | nil => trivial
    | cons p stack => exact ⟨hlink p rfl, h.linked⟩
  proper hj := h.proper fun hm => hj (mem_cons_of_mem k hm)

omit [DecidableEq C] [DecidableEq L] in
lemma Path.update (h : Path dest source (k :: stack)) : Path dest (update source k none) stack := by
  obtain ⟨hk, hnod⟩ := nodup_cons.1 h.nodup
  refine ⟨hnod, ?_, ?_, ?_⟩
  · intro j hj
    rw [update_of_ne (ne_of_mem_of_not_mem hj hk)]
    exact h.live (mem_cons_of_mem k hj)
  · refine h.linked.pop.congr fun j hj p _ hs => ?_
    rwa [update_of_ne (ne_of_mem_of_not_mem hj hk)]
  · intro j hj hs
    have hjk : j ≠ k := fun he => by simp [he] at hs
    rw [update_of_ne hjk] at hs
    exact h.proper (not_mem_cons_of_ne_of_not_mem hjk hj) hs

omit [DecidableEq C] [DecidableEq L] in
lemma Later.update {x : Operand C L} (hk : source k = some x) : Later dest stack source (update source k none) where
  done {j} hj := by
    rw [update_of_ne fun he => by simp [he, hk] at hj]
    exact hj
  blocked {j p} _ _ hs := by
    by_cases hjk : j = k
    · simp [hjk] at hs
    · rwa [update_of_ne hjk] at hs
  constant {j c} hs := by
    by_cases hjk : j = k
    · exact .inr (by simp [hjk])
    · rw [update_of_ne hjk]
      exact .inl hs

section
variable (hinj : Function.Injective dest) (hpath : Path dest source (k :: p :: stack))
  (hfree : ∀ j, j ∉ k :: p :: stack → source j ≠ some (.place (dest k)))

def swapped (dest : Fin n → L) (source : Fin n → Option (Operand C L)) (p k : Fin n) : Fin n → Option (Operand C L) :=
  fun i => (update source k none i).map (redirect (dest p) (dest k))

include hinj

variable {j q : Fin n}

lemma swapped_of_ne (hj : j ≠ k) (hq : q ≠ p) (hq' : q ≠ k) (hs : source j = some (.place (dest q))) :
    swapped dest source p k j = some (.place (dest q)) := by
  unfold swapped
  rw [update_of_ne hj, hs]
  simp [redirect, hinj.ne hq, hinj.ne hq']

include hfree

lemma swapped_waiting (hj : j ∉ p :: stack) (hq : q ≠ k)
    (hs : swapped dest source p k j = some (.place (dest q))) : source j = some (.place (dest q)) := by
  have hjk : j ≠ k := fun he => by simp [he, swapped] at hs
  unfold swapped at hs
  rw [update_of_ne hjk] at hs
  obtain ⟨x, hx, hr⟩ := Option.map_eq_some_iff.1 hs
  unfold redirect at hr
  split_ifs at hr with h₁ h₂
  · exact absurd (hinj (place.inj hr)) hq.symm
  · exact absurd (h₂ ▸ hx) (hfree j (not_mem_cons_of_ne_of_not_mem hjk hj))
  · rw [hx, hr]

include hpath

lemma Path.swapped : Path dest (swapped dest source p k) (p :: stack) := by
  obtain ⟨hk, hnod⟩ := nodup_cons.1 hpath.nodup
  have hp : p ∉ stack := (nodup_cons.1 hnod).1
  refine ⟨hnod, ?_, ?_, ?_⟩
  · intro j hj
    unfold Moves.swapped
    rw [update_of_ne (ne_of_mem_of_not_mem hj hk), Ne, Option.map_eq_none_iff]
    exact hpath.live (mem_cons_of_mem k hj)
  · refine hpath.linked.pop.congr fun j hj q hq hs => ?_
    exact swapped_of_ne hinj (ne_of_mem_of_not_mem hj hk) (ne_of_mem_of_not_mem hq hp)
      (ne_of_mem_of_not_mem (mem_cons_of_mem p hq) hk) hs
  · intro j hj hs
    have hjk : j ≠ k := fun he => by simp [he, Moves.swapped] at hs
    exact hpath.proper (not_mem_cons_of_ne_of_not_mem hjk hj) (swapped_waiting hinj hfree hj hjk hs)

lemma Later.swapped : Later dest (p :: stack) source (swapped dest source p k) where
  done {j} hj := by
    unfold Moves.swapped
    by_cases hjk : j = k
    · simp [hjk]
    · rw [update_of_ne hjk, hj, Option.map_none]
  blocked {j q} hj hq hs := swapped_waiting hinj hfree hj (ne_of_mem_of_not_mem hq (nodup_cons.1 hpath.nodup).1) hs
  constant {j c} hs := by
    unfold Moves.swapped
    by_cases hjk : j = k
    · exact .inr (by simp [hjk])
    · rw [update_of_ne hjk, hs]
      exact .inl rfl

end
end

section Perform
variable {n : ℕ} {dest : Fin n → L} (hinj : Function.Injective dest) (value : C → V)
  (goal : Fin n → V) (init : L → V)

structure Stage (dest : Fin n → L) (stack : List (Fin n))
    (source : Fin n → Option (Operand C L)) (ops : List (Op C L)) : Prop where
  path : Path dest source stack
  resolves : Resolves value dest goal init source (run value ops init)

def Continues (dest : Fin n → L) (stack : List (Fin n))
    (source : Fin n → Option (Operand C L)) (r : Option (Resolver C L))
    (source' : Fin n → Option (Operand C L)) : Prop :=
  ∃ ops, r = some ⟨render dest stack source', ops⟩ ∧
    Stage value goal init dest stack source' ops ∧ Later dest stack source source'

variable {value goal init} {stack : List (Fin n)} {source : Fin n → Option (Operand C L)}
  {ops : List (Op C L)} {k : Fin n}

include hinj

omit [DecidableEq C] in
lemma addMoveToSchedule_continues (h : Stage value goal init dest (k :: stack) source ops)
    (hfree : ∀ j, source j ≠ some (.place (dest k))) : Continues value goal init dest stack source
    (Resolver.addMoveToSchedule k ⟨render dest stack source, ops⟩) (update source k none) := by
  have hk : k ∉ stack := (nodup_cons.1 h.path.nodup).1
  obtain ⟨x, hx⟩ := Option.ne_none_iff_exists'.1 (h.path.live (mem_cons_self ..))
  refine ⟨ops ++ [⟨.move, operandsOf dest stack source k⟩], ?_, ⟨h.path.update, ?_⟩, .update hx⟩
  · simp only [Resolver.addMoveToSchedule, Resolver.set, getElem?_render, some_bind, render_eliminate]
  · have hexec : exec value (run value ops init) ⟨.move, operandsOf dest stack source k⟩ =
        update (run value ops init) (dest k) (x.eval value (run value ops init)) := by
      simp [exec, operandsOf, hk, hx]
    rw [run_append, run, foldl_cons, hexec]
    exact h.resolves.move hinj hx fun j _ => hfree j

lemma addSwapToSchedule_continues {p : Fin n} (h : Stage value goal init dest (k :: p :: stack) source ops)
    (hfree : ∀ j, j ∉ k :: p :: stack → source j ≠ some (.place (dest k))) :
    Continues value goal init dest (p :: stack) source
    (addSwapToSchedule k ⟨render dest (p :: stack) source, ops⟩) (swapped dest source p k) := by
  have hk : k ∉ p :: stack := (nodup_cons.1 h.path.nodup).1
  have hx : source k = some (.place (dest p)) := h.path.linked.1
  refine ⟨ops ++ [⟨.swap, operandsOf dest (p :: stack) source k⟩], ?_,
    ⟨h.path.swapped hinj hfree, ?_⟩, .swapped hinj h.path hfree⟩
  · have hop : operandsOf dest (p :: stack) source k = ⟨some (.place (dest k)), some (.place (dest p))⟩ := by
      simp [operandsOf, hk, hx]
    simp only [addSwapToSchedule, getElem?_render, some_bind, render_eliminate]
    rw [hop, render_afterSwap]
    rfl
  · have hexec : exec value (run value ops init) ⟨.swap, operandsOf dest (p :: stack) source k⟩ =
        exchange (run value ops init) (dest p) (dest k) := by
      simp [exec, operandsOf, hk, hx]
    rw [run_append, run, foldl_cons, hexec]
    exact h.resolves.swap hinj hx (h.path.live (mem_cons_of_mem k (mem_cons_self ..)))

lemma finishMove_continues (h : Stage value goal init dest (k :: stack) source ops)
    (hfree : ∀ j, j ∉ k :: stack → source j ≠ some (.place (dest k))) :
    ∃ source', source' k = none ∧ Continues value goal init dest stack source
    (Resolver.finishMove k (some (.place (dest k))) ⟨render dest (k :: stack) source, ops⟩) source' := by
  have hk : k ∉ stack := (nodup_cons.1 h.path.nodup).1
  obtain ⟨x, hx⟩ := Option.ne_none_iff_exists'.1 (h.path.live (mem_cons_self ..))
  have hpen : (operandsOf dest (k :: stack) source k).isPending = true :=
    (isPending_iff k).2 ⟨mem_cons_self .., by simp [hx]⟩
  have hsrc : (operandsOf dest (k :: stack) source k).src = source k := rfl
  simp only [Resolver.finishMove, getElem?_render, Option.bind_eq_bind, Option.bind_some,
    hpen, guard_true, Option.pure_def, Resolver.set, render_clearPending hk hx, hsrc]
  by_cases hself : source k = some (.place (dest k))
  · refine ⟨update source k none, update_self .., ops, ?_, ⟨h.path.update, h.resolves.eliminate hself⟩, .update hself⟩
    rw [if_pos hself, render_eliminate]
  rw [if_neg hself]
  cases hf : (render dest stack source).find? (·.blocks (some (.place (dest k)))) with
  | none =>
    refine ⟨_, update_self .., addMoveToSchedule_continues hinj h fun j hj => ?_⟩
    have hnone := find?_eq_none.1 hf (operandsOf dest stack source j) (by simp [render])
    exact hnone ((blocks_iff _ _).2 hj)
  | some other =>
    -- The blocking move is pending, so that there is a caller to swap with.
    obtain ⟨j, rfl⟩ : ∃ j, operandsOf dest stack source j = other := by simpa [render] using mem_of_find?_eq_some hf
    have hb : (operandsOf dest stack source j).blocks (some (.place (dest k))) = true := by simpa using find?_some hf
    have hj : source j = some (.place (dest k)) := (blocks_iff _ _).1 hb
    have hmem : j ∈ stack := by
      by_contra hn
      refine hfree j (fun hm => ?_) hj
      rcases mem_cons.1 hm with rfl | hm
      · exact hself hj
      · exact hn hm
    have hp : (operandsOf dest stack source j).isPending = true := (isPending_iff j).2 ⟨hmem, by simp [hj]⟩
    cases stack with
    | nil => simp at hmem
    | cons p stack =>
      refine ⟨swapped dest source p k, by simp [swapped], ?_⟩
      simpa only [hp, guard_true, Option.pure_def, Option.bind_some] using addSwapToSchedule_continues hinj h hfree

omit hinj in
omit [DecidableEq C] in
lemma foldlM_continues (achieved : Fin n → (Fin n → Option (Operand C L)) → Prop)
    {body : Resolver C L → ℕ → Option (Resolver C L)}
    (hbody : ∀ (i : Fin n) source ops, Stage value goal init dest stack source ops →
    ∃ source', Continues value goal init dest stack source
    (body ⟨render dest stack source, ops⟩ i) source' ∧ achieved i source')
    (hlat : ∀ i source source', Later dest stack source source' → achieved i source → achieved i source')
    (h : Stage value goal init dest stack source ops) : ∃ source', Continues value goal init dest stack source
    ((range n).foldlM body ⟨render dest stack source, ops⟩) source' ∧ ∀ i, achieved i source' := by
  suffices hall : ∀ is : List (Fin n), ∃ source', Continues value goal init dest stack source
      ((is.map Fin.val).foldlM body ⟨render dest stack source, ops⟩) source' ∧
      ∀ i ∈ is, achieved i source' by
    obtain ⟨source', hc, hs⟩ := hall (finRange n)
    rw [map_coe_finRange_eq_range] at hc
    exact ⟨source', hc, fun i => hs i (mem_finRange i)⟩
  intro is
  induction is generalizing source ops with
  | nil => exact ⟨source, ⟨ops, rfl, h, .refl⟩, by simp⟩
  | cons i is ih =>
    obtain ⟨source₁, ⟨ops₁, hrun₁, h₁, hl₁⟩, hi⟩ := hbody i source ops h
    obtain ⟨source₂, ⟨ops₂, hrun₂, h₂, hl₂⟩, his⟩ := ih h₁
    refine ⟨source₂, ⟨ops₂, ?_, h₂, hl₁.trans hl₂⟩, ?_⟩
    · rw [map_cons, foldlM_cons, hrun₁]
      exact hrun₂
    · intro j hj
      rcases mem_cons.1 hj with rfl | hj
      · exact hlat _ _ _ hl₂ hi
      · exact his j hj

omit hinj in
lemma performIfBlocking_continues {perform : ℕ → Resolver C L → Option (Resolver C L)} {i : Fin n}
    (hper : i ∉ k :: stack → source i = some (.place (dest k)) →
    ∃ source', source' i = none ∧ Continues value goal init dest (k :: stack) source
    (perform i ⟨render dest (k :: stack) source, ops⟩) source')
    (h : Stage value goal init dest (k :: stack) source ops) :
    ∃ source', Continues value goal init dest (k :: stack) source
    (performIfBlocking perform (some (.place (dest k))) ⟨render dest (k :: stack) source, ops⟩ i) source' ∧
    (i ∉ k :: stack → source' i ≠ some (.place (dest k))) := by
  simp only [performIfBlocking, getElem?_render, some_bind]
  split_ifs with hc
  · simp only [and_eq_true, not_eq_true', ← not_eq_true, blocks_iff, isPending_iff] at hc
    have hb : source i = some (.place (dest k)) := hc.1
    obtain ⟨source', hn, hc'⟩ := hper (fun hm => hc.2 ⟨hm, by simp [hb]⟩) hb
    exact ⟨source', hc', by simp [hn]⟩
  · refine ⟨source, ⟨ops, rfl, h, .refl⟩, fun hi hb => hc ?_⟩
    simp only [and_eq_true, not_eq_true', ← not_eq_true, blocks_iff, isPending_iff]
    exact ⟨hb, fun hp => hi hp.1⟩

lemma performMove_continues (fuel : ℕ) (h : Stage value goal init dest stack source ops)
    (hk : k ∉ stack) (hs : source k ≠ none) (hlink : ∀ p ∈ stack.head?, source k = some (.place (dest p)))
    (hn : n ≤ stack.length + fuel) : ∃ source', source' k = none ∧ Continues value goal init dest stack source
    (Resolver.performMove fuel k ⟨render dest stack source, ops⟩) source' := by
  have hpush := h.path.push hk hs hlink
  induction fuel generalizing stack source ops k with
  | zero =>
    have hlen := hpush.nodup.length_le_card
    rw [Fintype.card_fin, length_cons] at hlen
    omega
  | succ fuel ih =>
    obtain ⟨x, hx⟩ := Option.ne_none_iff_exists'.1 hs
    have hdest : (operandsOf dest stack source k).dest = some (.place (dest k)) := by simp [operandsOf, hk, hx]
    have hpen : (operandsOf dest stack source k).isPending = false := by simp [isPending, hdest]
    have hred : (operandsOf dest stack source k).isRedundant = false := by
      have hsrc : (operandsOf dest stack source k).src = source k := rfl
      have hpro := h.path.proper hk
      simpa [isRedundant, isEliminated, hdest, hsrc, hx] using hpro
    obtain ⟨source₁, ⟨ops₁, hrun₁, h₁, hl₁⟩, hfree⟩ := foldlM_continues
      (fun j source => j ∉ k :: stack → source j ≠ some (.place (dest k)))
      (fun i source ops hst => performIfBlocking_continues (fun hi hb =>
        ih hst hi (by simp [hb]) (by simpa using hb) (by rw [length_cons]; omega)
          (hst.path.push hi (by simp [hb]) (by simpa using hb))) hst)
      (fun j _ _ hl hj hjs hb => hj hjs (hl.blocked hjs (mem_cons_self ..) hb))
      ⟨hpush, h.resolves⟩
    obtain ⟨source₂, hn₂, ops₂, hrun₂, h₂, hl₂⟩ := finishMove_continues hinj h₁ hfree
    refine ⟨source₂, hn₂, ops₂, ?_, h₂, hl₁.pop hl₂ hn₂⟩
    simp only [Resolver.performMove, getElem?_render, some_bind,
      hpen, hred, Bool.not_false, guard_true, Option.pure_def, Resolver.set,
      render_markPending, hdest, length_render, hrun₁, hrun₂]

lemma performUnlessConstant_continues {i : Fin n} (h : Stage value goal init dest [] source ops) :
    ∃ source', Continues value goal init dest [] source (performUnlessConstant ⟨render dest [] source, ops⟩ i) source' ∧
    (source' i = none ∨ ∃ c, source' i = some (.constant c)) := by
  have hsrc : (operandsOf dest [] source i).src = source i := rfl
  simp only [performUnlessConstant, getElem?_render, some_bind, length_render, isEliminated, hsrc]
  split_ifs with hc
  · have hs : source i ≠ none := by
      intro hn
      simp [hn] at hc
    obtain ⟨source', hn, hc'⟩ := performMove_continues hinj n h not_mem_nil hs (by simp) (by simp)
    exact ⟨source', hc', .inl hn⟩
  · refine ⟨source, ⟨ops, rfl, h, .refl⟩, ?_⟩
    cases hs : source i with
    | none => exact .inl rfl
    | some x =>
      cases x with
      | constant c => exact .inr ⟨c, rfl⟩
      | place l => simp [hs, Location.isConstant] at hc

omit [DecidableEq C] in
lemma run_constants {σ : L → V} (is : List (Fin n)) (hnod : is.Nodup) (h : Resolves value dest goal init source σ)
    (hconst : ∀ i, source i = none ∨ ∃ c, source i = some (.constant c)) (hrest : ∀ i, i ∉ is → source i = none) :
    Resolves value dest goal init (fun _ => none) (run value ((is.filter fun i => (source i).isSome).map fun i =>
        ⟨.move, operandsOf dest [] source i⟩) σ) := by
  induction is generalizing source σ with
  | nil =>
    have hnone : source = fun _ => none := funext fun i => hrest i not_mem_nil
    rw [hnone] at h
    exact h
  | cons i is ih =>
    obtain ⟨hi, hnod⟩ := nodup_cons.1 hnod
    rcases hconst i with hn | ⟨c, hc⟩
    · rw [filter_cons_of_neg (by simp [hn])]
      refine ih hnod h hconst fun j hj => ?_
      by_cases hji : j = i
      · rw [hji, hn]
      · exact hrest j (not_mem_cons_of_ne_of_not_mem hji hj)
    · have hstep : exec value σ ⟨.move, operandsOf dest [] source i⟩ = update σ (dest i) (value c) := by
        simp [exec, operandsOf, hc, Operand.eval]
      have hmove := h.move hinj hc fun j _ hj => by rcases hconst j with hn | ⟨c, hc⟩ <;> simp_all
      have hsame : ∀ j ∈ is, update source i none j = source j := fun j hj =>
        update_of_ne (ne_of_mem_of_not_mem hj hi) _ _
      have hrun := ih hnod hmove (fun j => ?_) fun j hj => ?_
      · have hops : ((is.filter fun j => (update source i none j).isSome).map fun j =>
            (⟨.move, operandsOf dest [] (update source i none) j⟩ : Op C L)) =
            (is.filter fun j => (source j).isSome).map fun j =>
              ⟨.move, operandsOf dest [] source j⟩ := by
          rw [filter_congr fun j hj => by rw [hsame j hj]]
          refine map_congr_left fun j hj => ?_
          simp only [operandsOf, hsame j (mem_of_mem_filter hj)]
        rw [hops] at hrun
        rw [filter_cons_of_pos (by simp [hc]), map_cons]
        unfold run at hrun ⊢
        rw [foldl_cons, hstep]
        exact hrun
      · by_cases hji : j = i
        · exact .inl (by simp [hji])
        · rw [update_of_ne hji]
          exact hconst j
      · by_cases hji : j = i
        · simp [hji]
        · rw [update_of_ne hji]
          exact hrest j (not_mem_cons_of_ne_of_not_mem hji hj)

end Perform

section

structure ParallelMove (C L : Type) where
  moves : List (MoveOperands C L)
  destPlace : ∀ m ∈ moves, ∀ c, m.dest ≠ some (.constant c)
  distinct : moves.Pairwise fun a b => a.dest = none ∨ a.dest ≠ b.dest

variable {m : MoveOperands C L} {moves : List (MoveOperands C L)}

lemma mem_buildInitialMoveList : m ∈ buildInitialMoveList moves ↔ m ∈ moves ∧ m.isRedundant = false := by
  simp [buildInitialMoveList]

lemma exists_operands (pm : ParallelMove C L) (h : m ∈ buildInitialMoveList pm.moves) :
    ∃ (d : L) (x : Operand C L), m = ⟨some (.place d), some x⟩ ∧ x ≠ .place d := by
  obtain ⟨hm, hr⟩ := mem_buildInitialMoveList.1 h
  have hc := pm.destPlace m hm
  rcases m with ⟨_ | d, _ | x⟩
  case some.some =>
    cases d with
    | constant c => exact absurd rfl (hc c)
    | place l =>
      refine ⟨l, x, rfl, fun he => ?_⟩
      simp [isRedundant, he] at hr
  all_goals simp [isRedundant, isEliminated] at hr

lemma exists_render (pm : ParallelMove C L) :
    ∃ (n : ℕ) (dest : Fin n → L) (operand : Fin n → Operand C L), Function.Injective dest ∧
      (∀ i, operand i ≠ .place (dest i)) ∧
      buildInitialMoveList pm.moves = render dest [] fun i => some (operand i) := by
  have hmem : ∀ i : Fin (buildInitialMoveList pm.moves).length,
      ∃ (d : L) (x : Operand C L), (buildInitialMoveList pm.moves)[i.1] = ⟨some (.place d), some x⟩ ∧ x ≠ .place d :=
    fun i => exists_operands pm (getElem_mem i.isLt)
  choose dest operand hmove hne using hmem
  refine ⟨_, dest, operand, ?_, hne, ?_⟩
  · have hdist : (buildInitialMoveList pm.moves).Pairwise
      fun a b => a.dest = none ∨ a.dest ≠ b.dest := pm.distinct.sublist filter_sublist
    rw [pairwise_iff_getElem] at hdist
    have hlt : ∀ i j, i < j → dest i ≠ dest j := by
      intro i j hij he
      have h := hdist i j i.isLt j.isLt hij
      rw [hmove i, hmove j, he] at h
      simp at h
    intro i j he
    by_contra hij
    rcases lt_or_gt_of_ne hij with h | h
    · exact hlt i j h he
    · exact hlt j i h he.symm
  · refine ext_getElem (by simp) fun i hi _ => ?_
    simp [render, operandsOf, hmove ⟨i, hi⟩]

lemma resolve_eq {n : ℕ} {dest : Fin n → L} {source source' : Fin n → Option (Operand C L)} {ops : List (Op C L)}
    (hmoves : buildInitialMoveList moves = render dest [] source)
    (hrun : (range n).foldlM performUnlessConstant ⟨render dest [] source, []⟩ =
      some ⟨render dest [] source', ops⟩) (hconst : ∀ i, source' i = none ∨ ∃ c, source' i = some (.constant c)) :
    resolve moves = some (moveSchedule (ops ++ ((finRange n).filter fun i => (source' i).isSome).map fun i =>
        ⟨.move, operandsOf dest [] source' i⟩)) := by
  have hrest : (render dest [] source').filter (!·.isEliminated) =
      ((finRange n).filter fun i => (source' i).isSome).map (operandsOf dest [] source') := by
    rw [render, ofFn_eq_map, filter_map]
    congr 1
    refine filter_congr fun i _ => ?_
    simp [operandsOf, isEliminated]
  have hall : (((finRange n).filter fun i => (source' i).isSome).map
      (operandsOf dest [] source')).all (·.src.isConstant) = true := by
    simp only [all_map, all_eq_true]
    intro i hi
    rcases hconst i with hn | ⟨c, hc⟩
    · simp [hn] at hi
    · simp [operandsOf, hc, Location.isConstant]
  simp only [resolve, hmoves, length_render, hrun, some_bind, hrest,
    hall, guard_true, Option.pure_def, map_map, comp_def]

theorem resolve_correct (pm : ParallelMove C L) (value : C → V) (σ : L → V) :
    ∃ schedule, resolve pm.moves = some schedule ∧
      (∀ m ∈ pm.moves, m.isRedundant = false → ∀ d x, m.dest = some (.place d) →
        m.src = some x → run value schedule σ d = x.eval value σ) ∧
      ∀ l, (∀ m ∈ pm.moves, m.isRedundant = false → m.dest ≠ some (.place l)) → run value schedule σ l = σ l := by
  obtain ⟨n, dest, operand, hinj, hne, hmoves⟩ := exists_render pm
  have hstart : Stage value (fun i => (operand i).eval value σ) σ dest [] (fun i => some (operand i)) [] :=
    ⟨⟨nodup_nil, by simp, trivial, fun {i} _ he => hne i (Option.some.inj he)⟩, .initial value dest σ operand⟩
  obtain ⟨source, ⟨ops, hrun, hstage, -⟩, hconst⟩ := foldlM_continues
    (fun i source => source i = none ∨ ∃ c, source i = some (.constant c))
    (fun i _ _ h => performUnlessConstant_continues hinj h)
    (fun i _ _ hl hi => by
      rcases hi with hn | ⟨c, hc⟩
      · exact .inl (hl.done hn)
      · exact (hl.constant hc).symm.imp id fun h => ⟨c, h⟩) hstart
  have hfinal := run_constants hinj (finRange n) (nodup_finRange n) hstage.resolves
    hconst fun i hi => absurd (mem_finRange i) hi
  have hmem : ∀ m, m ∈ render dest [] (fun i => some (operand i)) ↔ m ∈ pm.moves ∧ m.isRedundant = false := by
    intro m
    rw [← hmoves, mem_buildInitialMoveList]
  refine ⟨_, resolve_eq hmoves hrun hconst, ?_, ?_⟩
  · intro m hm hr d x hd hx
    obtain ⟨i, rfl⟩ := mem_ofFn.1 ((hmem m).2 ⟨hm, hr⟩)
    obtain rfl : dest i = d := by simpa [operandsOf] using hd
    obtain rfl : operand i = x := by simpa [operandsOf] using hx
    rw [run_moveSchedule, run_append]
    exact hfinal.done rfl
  · intro l hl
    rw [run_moveSchedule, run_append]
    refine hfinal.frame fun i he => ?_
    obtain ⟨hm, hr⟩ := (hmem (operandsOf dest [] (fun i => some (operand i)) i)).1 (mem_ofFn.2 ⟨i, rfl⟩)
    exact hl _ hm hr (by simp [operandsOf, he])

/-- The places `0`, `1` and `2` are rotated, `3` takes a copy of `0`, and `4` a constant. -/
def rotation : ParallelMove ℕ ℕ where
  moves := [⟨some (.place 1), some (.place 0)⟩, ⟨some (.place 2), some (.place 1)⟩, ⟨some (.place 0), some (.place 2)⟩,
    ⟨some (.place 3), some (.place 0)⟩, ⟨some (.place 4), some (.constant 7)⟩]
  destPlace := by simp
  distinct := by simp

theorem resolve_correct_rotation : ∃ schedule, resolve rotation.moves = some schedule ∧
    ∀ σ : ℕ → ℕ, (List.range 6).map (run id schedule σ) = [σ 2, σ 0, σ 1, σ 0, 7, σ 5] := by
  obtain ⟨schedule, hres, -⟩ := resolve_correct rotation id id
  refine ⟨schedule, hres, fun σ => ?_⟩
  obtain ⟨schedule', hres', hmoved, hframe⟩ := resolve_correct rotation id σ
  obtain rfl := Option.some.inj (hres.symm.trans hres')
  simp only [rotation, forall_mem_cons] at hmoved hframe
  obtain ⟨h1, h2, h0, h3, h4, -⟩ := hmoved
  have h5 := hframe 5 (by simp)
  simp [range_succ, h1 rfl 1 _ rfl rfl, h2 rfl 2 _ rfl rfl, h0 rfl 0 _ rfl rfl, h3 rfl 3 _ rfl rfl, h4 rfl 4 _ rfl rfl,
    h5, Operand.eval]

end
end DartSdk.Moves
