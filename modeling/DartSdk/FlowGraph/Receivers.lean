import DartSdk.Library.Simulation
import Mathlib.Data.Fin.VecNotation
import Mathlib.Data.Fintype.Card
import Mathlib.Logic.Relation

/-!
The phis that stand for the receiver of a method: `FlowGraph::ComputeIsReceiver` and `IsReceiver`.
-/

namespace DartSdk.Receivers
open List Function Relation Simulation

inductive ReceiverType
  | unknownReceiver
  | notReceiver
  | receiver
deriving DecidableEq

inductive Definition (P : Type)
  | parameter (index : ℕ)
  | phi (p : P)
  | redefinition (value : Definition P)
  | other
deriving DecidableEq

def Definition.originalDefinition {P : Type} : Definition P → Definition P
  | redefinition value => value.originalDefinition
  | d => d

/-- `uses p` are the instructions on the use list of `p`, `none` for one that is not a phi. -/
structure PhiGraph (P : Type) where
  inputs : P → List (Definition P)
  uses : P → List (Option P)
  mem_uses : ∀ {p q}, some q ∈ uses p ↔ .phi p ∈ inputs q

/-- The list `unmark` starts with the phi that was added last. -/
structure State (P : Type) where
  isReceiver : P → ReceiverType
  unmark : List P

open ReceiverType
variable {P : Type} [DecidableEq P] (G : PhiGraph P)

def State.set (s : State P) (p : P) (type : ReceiverType) : State P :=
  { s with isReceiver := update s.isReceiver p type }

def visitInputs (recurse : P → State P → Option (State P)) (p : P) : List (Definition P) → State P → Option (State P)
  | [], s => some s
  | d :: ds, s =>
    if d = .parameter 0 then visitInputs recurse p ds s
    else match d with
      | .phi d => do
        let s ← recurse d s
        if s.isReceiver d = notReceiver then some (s.set p notReceiver) else visitInputs recurse p ds s
      | _ => some (s.set p notReceiver)

def computeIsReceiverRecursive : ℕ → P → State P → Option (State P)
  | 0, _, _ => none
  | fuel + 1, p, s =>
    if s.isReceiver p ≠ unknownReceiver then some s
    else do
      -- a phi of a cycle is taken for a receiver until an input refutes it
      let s ← visitInputs (computeIsReceiverRecursive fuel) p (G.inputs p) (s.set p receiver)
      some (if s.isReceiver p = notReceiver then { s with unmark := p :: s.unmark } else s)

def visitUse (s : State P) : Option P → State P
  | none => s
  | some use => if s.isReceiver use = receiver then { s.set use notReceiver with unmark := use :: s.unmark } else s

def drain : ℕ → State P → Option (State P)
  | 0, _ => none
  | fuel + 1, s =>
    match s.unmark with
    | [] => some s
    | p :: unmark => drain fuel ((G.uses p).foldl visitUse { s with unmark })

def computeIsReceiver [Fintype P] (marks : P → ReceiverType) (p : P) : Option (P → ReceiverType) := do
  let s ← computeIsReceiverRecursive G (Fintype.card P + 1) p ⟨marks, []⟩
  let s ← drain G (s.unmark.length + Fintype.card P + 1) s
  some s.isReceiver

/-- Every definition reached from `p` that is not a phi is parameter 0. -/
def OnlyReceiver (p : P) : Prop :=
  ∀ q, ReflTransGen (fun p q => .phi q ∈ G.inputs p) p q → ∀ d ∈ G.inputs q, d = .parameter 0 ∨ ∃ r, d = .phi r

@[grind] def Good (s : State P) (d : Definition P) : Prop :=
  d = .parameter 0 ∨ ∃ q, d = .phi q ∧ (s.isReceiver q = receiver ∨ q ∈ s.unmark)

@[grind] def Refuted (s : State P) : Prop := ∀ p, s.isReceiver p = notReceiver ∨ p ∈ s.unmark → ¬OnlyReceiver G p

/-- The phis of `unmark` are refuted, but their uses may still be marked. -/
structure Inv (s : State P) : Prop where
  refuted : Refuted G s
  closed : ∀ p, s.isReceiver p = receiver → ∀ d ∈ G.inputs p, Good s d

/-- Marks stay as they are, and what is marked in between is refuted or has good inputs. -/
structure Visited (s s' : State P) : Prop where
  keeps : ∀ p, s.isReceiver p ≠ unknownReceiver → s'.isReceiver p = s.isReceiver p
  unmark : s.unmark ⊆ s'.unmark
  refuted : Refuted G s'
  closed : ∀ p, s.isReceiver p = unknownReceiver → s'.isReceiver p = receiver → ∀ d ∈ G.inputs p, Good s' d

variable {G} {p q : P} {s s' t : State P} {n : ℕ} {type type' : ReceiverType}

@[simp, grind =] lemma isReceiver_set : (s.set p type).isReceiver q = if q = p then type else s.isReceiver q :=
  update_apply ..

@[simp, grind =] lemma unmark_set : (s.set p type).unmark = s.unmark := rfl

omit [DecidableEq P] in
lemma OnlyReceiver.input (h : OnlyReceiver G p) (hq : .phi q ∈ G.inputs p) : OnlyReceiver G q :=
  fun r hr => h r (.head hq hr)

omit [DecidableEq P] in
lemma Inv.exact (h : Inv G s) (hs : s.unmark = []) (hp : s.isReceiver p ≠ unknownReceiver) :
    s.isReceiver p = receiver ↔ OnlyReceiver G p := by
  constructor
  · intro hrec q hq
    have hmark : s.isReceiver q = receiver := by
      induction hq with
      | refl => exact hrec
      | tail _ hin ih => grind [h.closed _ ih _ hin]
    exact fun d hd => (h.closed q hmark d hd).imp_right fun ⟨r, hr, _⟩ => ⟨r, hr⟩
  · intro honly
    cases hmark : s.isReceiver p with
    | receiver => rfl
    | _ => grind [h.refuted p]

omit [DecidableEq P] in
lemma Refuted.visited (h : Refuted G s) : Visited G s s :=
  ⟨fun _ _ => rfl, Subset.refl _, h, fun _ hp hp' => by simp [hp] at hp'⟩

omit [DecidableEq P] in
lemma Visited.good {d : Definition P} (h : Visited G s s') (hd : Good s d) : Good s' d := by
  have hkeeps := h.keeps
  have hunmark := h.unmark
  grind

omit [DecidableEq P] in
lemma Visited.trans (h : Visited G s s') (h' : Visited G s' t) : Visited G s t := by
  refine ⟨fun p hp => ?_, Subset.trans h.unmark h'.unmark, h'.refuted, fun p hp hrec => ?_⟩
  · exact (h'.keeps p (h.keeps p hp ▸ hp)).trans (h.keeps p hp)
  · by_cases hp' : s'.isReceiver p = unknownReceiver
    · exact h'.closed p hp' hrec
    · exact fun d hd => h'.good (h.closed p hp (h'.keeps p hp' ▸ hrec) d hd)

variable [Fintype P]

def count (type : ReceiverType) (s : State P) : ℕ := (Finset.univ.filter (s.isReceiver · = type)).card

omit [DecidableEq P] in
lemma count_le (h : ∀ q, s'.isReceiver q = type → s.isReceiver q = type) : count type s' ≤ count type s :=
  Finset.card_le_card (Finset.monotone_filter_right _ fun q _ => h q)

lemma count_set (h : s.isReceiver p = type) (hne : type' ≠ type) : count type (s.set p type') < count type s := by
  refine Finset.card_lt_card ((Finset.ssubset_iff_of_subset fun q hq => ?_).2 ⟨p, ?_, ?_⟩)
  · grind
  · grind
  · grind

lemma visitInputs_spec {recurse : P → State P → Option (State P)} {done ds : List (Definition P)}
    (hrec : ∀ d s, Refuted G s → count unknownReceiver s < n → ∃ s', recurse d s = some s' ∧ Visited G s s' ∧
    s'.isReceiver d ≠ unknownReceiver)
    (h : Refuted G s) (hn : count unknownReceiver s < n) (hinputs : G.inputs p = done ++ ds)
    (hdone : ∀ d ∈ done, Good s d) :
    ∃ s', Visited G s s' ∧ (visitInputs recurse p ds s = some s' ∧ (∀ d ∈ G.inputs p, Good s' d) ∨
    visitInputs recurse p ds s = some (s'.set p notReceiver) ∧ ¬OnlyReceiver G p) := by
  induction ds generalizing s done with
  | nil => exact ⟨s, h.visited, .inl ⟨rfl, by simpa [hinputs] using hdone⟩⟩
  | cons d ds ih =>
    have hd : d ∈ G.inputs p := by simp [hinputs]
    rw [append_cons] at hinputs
    rw [visitInputs.eq_def]
    dsimp only
    split_ifs with hzero
    · exact ih h hn hinputs (forall_mem_append.2 ⟨hdone, by simp [hzero, Good]⟩)
    · cases d with
      | phi d =>
        obtain ⟨s1, hs1, h1, hmarked⟩ := hrec d s h hn
        dsimp only
        rw [hs1, some_bind]
        split_ifs with hnot
        · exact ⟨s1, h1, .inr ⟨rfl, fun honly => h1.refuted d (.inl hnot) (honly.input hd)⟩⟩
        · have hcount : count unknownReceiver s1 ≤ count unknownReceiver s := count_le (by grind [h1.keeps])
          have hd1 : Good s1 (.phi d) := .inr ⟨d, rfl, .inl (by cases hd1 : s1.isReceiver d <;> simp_all)⟩
          obtain ⟨s', h', hend⟩ := ih h1.refuted (hcount.trans_lt hn) hinputs
            (forall_mem_append.2 ⟨fun d hd => h1.good (hdone d hd), by simpa using hd1⟩)
          exact ⟨s', h1.trans h', hend⟩
      | _ => exact ⟨s, h.visited, .inr ⟨rfl, fun honly => (honly p .refl _ hd).elim hzero nofun⟩⟩

lemma computeIsReceiverRecursive_spec (h : Refuted G s) (hn : count unknownReceiver s < n) :
    ∃ s', computeIsReceiverRecursive G n p s = some s' ∧ Visited G s s' ∧ s'.isReceiver p ≠ unknownReceiver := by
  induction n generalizing p s with
  | zero => omega
  | succ n ih =>
    rw [computeIsReceiverRecursive]
    split_ifs with hp
    · exact ⟨s, rfl, h.visited, hp⟩
    · have hp := not_not.1 hp
      have hcount : count unknownReceiver (s.set p receiver) < n :=
        (count_set hp (by decide)).trans_le (Nat.le_of_lt_succ hn)
      obtain ⟨s', ⟨hkeeps, hunmark, hrefuted, hclosed⟩, hs'⟩ :=
        visitInputs_spec (fun d s => ih) (by grind) hcount (nil_append _).symm nofun
      rcases hs' with ⟨hs', hgood⟩ | ⟨hs', hbad⟩ <;> rw [hs', some_bind]
      · rw [if_neg (by grind)]
        exact ⟨s', rfl, ⟨by grind, hunmark, hrefuted, by grind⟩, by grind⟩
      · rw [if_pos (by grind)]
        exact ⟨_, rfl, ⟨by grind, by grind, by grind, by grind⟩, by grind⟩

lemma foldl_visitUse {us : List (Option P)} (h : Refuted G s) (hp : ¬OnlyReceiver G p) (hus : us ⊆ G.uses p)
    (ht : us.foldl visitUse s = t) :
    Refuted G t ∧ t.unmark.length + count receiver t ≤ s.unmark.length + count receiver s ∧
    (∀ q, t.isReceiver q = receiver → s.isReceiver q = receiver ∧ some q ∉ us) ∧
    (∀ q, s.isReceiver q = receiver ∨ q ∈ s.unmark → t.isReceiver q = receiver ∨ q ∈ t.unmark) ∧
    ∀ q, t.isReceiver q = unknownReceiver → s.isReceiver q = unknownReceiver := by
  induction us generalizing s with
  | nil =>
    subst ht
    exact ⟨h, le_rfl, fun q hq => ⟨hq, not_mem_nil⟩, fun _ hq => hq, fun _ hq => hq⟩
  | cons u us ih =>
    have hrest : us ⊆ G.uses p := fun u hu => hus (mem_cons_of_mem _ hu)
    rw [foldl_cons] at ht
    by_cases hu : ∃ use, u = some use ∧ s.isReceiver use = receiver
    · obtain ⟨use, rfl, hrec⟩ := hu
      have hbad : ¬OnlyReceiver G use := fun honly => hp (honly.input (G.mem_uses.1 (hus mem_cons_self)))
      have hcount : count receiver { s.set use notReceiver with unmark := use :: s.unmark } < _ :=
        count_set hrec (by decide)
      rw [visitUse, if_pos hrec] at ht
      obtain ⟨ht, hsize, huses, hgood, hmarked⟩ := ih (by grind) hrest ht
      refine ⟨ht, ?_, by grind, by grind, by grind⟩
      rw [length_cons] at hsize
      omega
    · have hsame : visitUse s u = s := by
        cases u with
        | none => rfl
        | some use => exact if_neg fun hrec => hu ⟨use, rfl, hrec⟩
      obtain ⟨ht, hsize, huses, hgood, hmarked⟩ := ih h hrest (hsame ▸ ht)
      exact ⟨ht, hsize, by grind, hgood, hmarked⟩

lemma drain_spec (h : Inv G s) (hn : s.unmark.length + count receiver s < n) : ∃ s', drain G n s = some s' ∧
    Inv G s' ∧ s'.unmark = [] ∧ ∀ q, s'.isReceiver q = unknownReceiver → s.isReceiver q = unknownReceiver := by
  induction n generalizing s with
  | zero => omega
  | succ n ih =>
    rw [drain]
    cases hs : s.unmark with
    | nil => exact ⟨s, rfl, h, hs, fun _ hq => hq⟩
    | cons p unmark =>
      dsimp only
      generalize ht : (G.uses p).foldl visitUse { s with unmark } = t
      obtain ⟨ht, hsize, huses, hgood, hmarked⟩ :=
        foldl_visitUse (fun q hq => h.refuted q (by grind)) (h.refuted p (by simp [hs])) (Subset.refl _) ht
      -- no phi that is still marked uses `p`, so the inputs of these are good without it
      have hclosed : ∀ q, t.isReceiver q = receiver → ∀ d ∈ G.inputs q, Good t d := by
        intro q hq d hd
        have hd' := h.closed q (huses q hq).1 d hd
        have huse := mt G.mem_uses.2 (huses q hq).2
        grind
      have hn' : unmark.length + count receiver { s with unmark } < n := by
        rw [hs, length_cons] at hn
        exact Nat.lt_of_succ_lt_succ (Nat.succ_add .. ▸ hn)
      obtain ⟨s', hs', hinv, hempty, hmarked'⟩ := ih ⟨ht, hclosed⟩ (hsize.trans_lt hn')
      exact ⟨s', hs', hinv, hempty, fun q hq => hmarked q (hmarked' q hq)⟩

lemma computeIsReceiver_spec {marks : P → ReceiverType} (h : Inv G ⟨marks, []⟩) (p : P) : ∃ marks',
    computeIsReceiver G marks p = some marks' ∧ Inv G ⟨marks', []⟩ ∧
    ∀ q, marks' q = unknownReceiver → q ≠ p ∧ marks q = unknownReceiver := by
  have hcard (type) (s : State P) : count type s < Fintype.card P + 1 := Nat.lt_succ_of_le (Finset.card_filter_le _ _)
  obtain ⟨s, hs, hvisited, hp⟩ := computeIsReceiverRecursive_spec (p := p) h.refuted (hcard _ _)
  have hinv : Inv G s := by
    refine ⟨hvisited.refuted, fun q hq d hd => ?_⟩
    by_cases hun : marks q = unknownReceiver
    · exact hvisited.closed q hun hq d hd
    · exact hvisited.good (h.closed q ((hvisited.keeps q hun).symm.trans hq) d hd)
  obtain ⟨⟨marks', unmark⟩, hs', hinv', rfl, hmarked⟩ := drain_spec hinv (Nat.add_lt_add_left (hcard _ _) _)
  have hkeeps := hvisited.keeps
  exact ⟨marks', by simp [computeIsReceiver, hs, Nat.add_assoc, hs'], hinv', by grind⟩

theorem computeIsReceiver_exact (G : PhiGraph P) (queries : List P) : ∃ marks,
    queries.foldlM (computeIsReceiver G) (fun _ => unknownReceiver) = some marks ∧
      (∀ q ∈ queries, marks q ≠ unknownReceiver) ∧
      ∀ p, marks p ≠ unknownReceiver → (marks p = receiver ↔ OnlyReceiver G p) := by
  have hrun (marks : P → ReceiverType) (h : Inv G ⟨marks, []⟩) : ∃ marks',
      queries.foldlM (computeIsReceiver G) marks = some marks' ∧ Inv G ⟨marks', []⟩ ∧
        ∀ q, marks' q = unknownReceiver → q ∉ queries ∧ marks q = unknownReceiver := by
    induction queries generalizing marks with
    | nil => exact ⟨marks, rfl, h, fun q hq => ⟨not_mem_nil, hq⟩⟩
    | cons p queries ih =>
      obtain ⟨marks1, hstep, h1, hmarked⟩ := computeIsReceiver_spec h p
      obtain ⟨marks', hrest, h', hqueries⟩ := ih marks1 h1
      exact ⟨marks', by rw [foldlM_cons, hstep]; exact hrest, h', by grind⟩
  obtain ⟨marks, hmarks, h, hqueries⟩ := hrun (fun _ => unknownReceiver) ⟨by simp [Refuted], nofun⟩
  exact ⟨marks, hmarks, fun q hq hun => (hqueries q hun).1 hq, fun p => h.exact rfl⟩

/-- Two cycles of phis; the second one also takes a value that is not the receiver. -/
def cycles : PhiGraph (Fin 4) where
  inputs := ![[.parameter 0, .phi 1], [.phi 0], [.parameter 0, .phi 3], [.phi 2, .other]]
  uses := ![[some 1, none], [some 0], [some 3], [none, some 2]]
  mem_uses {p q} := by revert p q; decide

theorem computeIsReceiver_exact_cycles :
    ([3, 1].foldlM (computeIsReceiver cycles) fun _ => unknownReceiver).map ofFn =
        some [receiver, receiver, notReceiver, notReceiver] ∧
      ∃ marks, [3, 1].foldlM (computeIsReceiver cycles) (fun _ => unknownReceiver) = some marks ∧
        ∀ p, marks p ≠ unknownReceiver → (marks p = receiver ↔ OnlyReceiver cycles p) := by
  obtain ⟨marks, hmarks, -, hexact⟩ := computeIsReceiver_exact cycles [3, 1]
  exact ⟨by decide +kernel, marks, hmarks, hexact⟩

/-- The marks after `IsReceiver` and its answer. -/
def isReceiver (G : PhiGraph P) (hasSingleEntryPoint : Bool) (marks : P → ReceiverType) (d : Definition P) :
    Option ((P → ReceiverType) × Bool) :=
  match d.originalDefinition with
  | .parameter index => some (marks, index = 0)
  | .phi p =>
    if hasSingleEntryPoint then some (marks, false)
    else if marks p ≠ unknownReceiver then some (marks, marks p = receiver)
    else do
      let marks ← computeIsReceiver G marks p
      some (marks, marks p = receiver)
  | _ => some (marks, false)

def Answers (G : PhiGraph P) (single : Bool) (d : Definition P) (answer : Bool) : Prop :=
  answer = true ↔ d.originalDefinition = .parameter 0 ∨
    single = false ∧ ∃ p, d.originalDefinition = .phi p ∧ OnlyReceiver G p

lemma isReceiver_spec {marks : P → ReceiverType} (h : Inv G ⟨marks, []⟩) (single : Bool) (d : Definition P) :
    ∃ marks' answer, isReceiver G single marks d = some (marks', answer) ∧ Answers G single d answer ∧
      Inv G ⟨marks', []⟩ := by
  unfold isReceiver Answers
  cases d.originalDefinition with
  | parameter | redefinition | other => exact ⟨marks, _, rfl, by simp, h⟩
  | phi p =>
    dsimp only
    split_ifs with hs hp
    · exact ⟨marks, _, rfl, by simp [hs], h⟩
    · exact ⟨marks, _, rfl, by simpa [hs] using h.exact rfl hp, h⟩
    · obtain ⟨marks', hc, h', hmarked⟩ := computeIsReceiver_spec h p
      have hp' : marks' p ≠ unknownReceiver := fun hq => (hmarked p hq).1 rfl
      exact ⟨marks', _, by rw [hc, some_bind], by simpa [hs] using h'.exact rfl hp', h'⟩

theorem isReceiver_answers (G : PhiGraph P) (single : Bool) (queries : List (Definition P)) : ∃ marks answers,
    run (isReceiver G single) (fun _ => unknownReceiver) queries = some (marks, answers) ∧
      Forall₂ (Answers G single) queries answers := by
  have hrun (marks : P → ReceiverType) (h : Inv G ⟨marks, []⟩) : ∃ marks' answers,
      run (isReceiver G single) marks queries = some (marks', answers) ∧
        Forall₂ (Answers G single) queries answers := by
    induction queries generalizing marks with
    | nil => exact ⟨marks, [], rfl, .nil⟩
    | cons d queries ih =>
      obtain ⟨marks1, answer, hstep, hanswer, h1⟩ := isReceiver_spec h single d
      obtain ⟨marks', answers, hrest, hanswers⟩ := ih marks1 h1
      exact ⟨marks', answer :: answers, by rw [run_cons hstep, hrest]; rfl, .cons hanswer hanswers⟩
  exact hrun _ ⟨by simp [Refuted], nofun⟩

theorem isReceiver_answers_cycles :
    (run (isReceiver cycles false) (fun _ => unknownReceiver)
        [.phi 3, .redefinition (.phi 0), .phi 2, .redefinition (.parameter 0), .parameter 1]).map Prod.snd =
        some [false, true, false, true, false] ∧
      ∃ marks answers, run (isReceiver cycles false) (fun _ => unknownReceiver)
          [.phi 3, .redefinition (.phi 0), .phi 2, .redefinition (.parameter 0), .parameter 1] =
          some (marks, answers) ∧
        Forall₂ (Answers cycles false)
          [.phi 3, .redefinition (.phi 0), .phi 2, .redefinition (.parameter 0), .parameter 1] answers :=
  ⟨by decide +kernel, isReceiver_answers cycles false _⟩

end DartSdk.Receivers
