import DartSdk.LoadOptimizer.LazyInitialization
import Mathlib.Algebra.Ring.Nat
import Mathlib.Data.Finset.Lattice.Lemmas

namespace DartSdk.LoadOptimizer
open Function List FlowGraph Option
variable {D F S B Obj : Type}
variable {all : Finset (Place D F S)} {b : B}

section

structure Memory (D F S Obj : Type) where
  env : D → Obj
  field : Obj → F → Prop
  static : S → Prop

def Memory.Initialized (m : Memory D F S Obj) : Place D F S → Prop
  | .instanceField d slot => m.field (m.env d) slot
  | .staticField field => m.static field

structure InstrStep (i : Instr D F S) (m m' : Memory D F S Obj) : Prop where
  env : ∀ d, i.dest ≠ some d → m'.env d = m.env d
  loaded : i.isLoad = true → i.callsInitializer = true → ∀ d slot, i.place = some (.instanceField d slot) →
    m'.field (m.env d) slot
  loadedStatic : i.isLoad = true → i.callsInitializer = true → ∀ field, i.place = some (.staticField field) →
    m'.static field
  stored : i.isStore = true → ∀ d slot, i.place = some (.instanceField d slot) →
    (m'.field (m.env d) slot ↔ i.isSentinelStore = false)
  storedStatic : i.isStore = true → ∀ field, i.place = some (.staticField field) →
    (m'.static field ↔ i.isSentinelStore = false)
  frame : i.callsInitializer = false → i.place ≠ none → (∀ o slot,
      (∀ d, i.isStore = true → i.place = some (.instanceField d slot) → o ≠ m.env d) →
        (m'.field o slot ↔ m.field o slot)) ∧
    ∀ field, (i.isStore = true → i.place ≠ some (.staticField field)) → (m'.static field ↔ m.static field)

structure EdgeStep (b : Block D F S B) (j : ℕ) (m m' : Memory D F S Obj) : Prop where
  phi : ∀ phi ∈ b.phis, ∀ input, phi.inputs[j]? = some input → m'.env phi.dest = m.env input
  env : ∀ d, (∀ phi ∈ b.phis, phi.dest ≠ d) → m'.env d = m.env d
  field : m'.field = m.field
  static : m'.static = m.static

/-- The places read or stored through the present value of their receiver, after one more instruction. -/
def touch (i : Instr D F S) (touched : Set (Place D F S)) : Set (Place D F S) :=
  {place | i.place = some place ∧ i.isSentinelStore = false ∨
    place ∈ touched ∧ ∀ d slot, place = .instanceField d slot → i.dest ≠ some d}

/-- The touched places after the edge from `p` to `b`: a phi still names what it named before, and it names what its
input names, one phi after the other. -/
inductive Carried (G : FlowGraph D F S B) (p b : B) (touched : Set (Place D F S)) : Place D F S → Prop
  | old {place : Place D F S} : place ∈ touched → Carried G p b touched place
  | move {phi : Phi D} {j : ℕ} {input : D} {slot : F} : phi ∈ (G.block b).phis →
      (G.block b).predecessors[j]? = some p → phi.inputs[j]? = some input →
      Carried G p b touched (.instanceField input slot) → Carried G p b touched (.instanceField phi.dest slot)

def carry (G : FlowGraph D F S B) (p b : B) (touched : Set (Place D F S)) : Set (Place D F S) :=
  {place | Carried G p b touched place}

/-- The states of a run, each with the places touched so far. -/
inductive Reaches (G : FlowGraph D F S B)
    (instrMeets : Set (Place D F S) → Instr D F S → Memory D F S Obj → Memory D F S Obj → Prop)
    (edgeMeets : Set (Place D F S) → B → ℕ → Memory D F S Obj → Prop) :
    B → ℕ → Memory D F S Obj → Set (Place D F S) → Prop
  | start {m : Memory D F S Obj} : (∀ o slot, ¬m.field o slot) → (∀ field, ¬m.static field) →
      Reaches G instrMeets edgeMeets G.graphEntry 0 m ∅
  | instr {b : B} {k : ℕ} {m m' : Memory D F S Obj} {i : Instr D F S} {touched : Set (Place D F S)} :
      Reaches G instrMeets edgeMeets b k m touched → (G.block b).instrs[k]? = some i → InstrStep i m m' →
      instrMeets touched i m m' → Reaches G instrMeets edgeMeets b (k + 1) m' (touch i touched)
  | edge {p b : B} {j : ℕ} {m m' : Memory D F S Obj} {touched : Set (Place D F S)} :
      Reaches G instrMeets edgeMeets p (G.block p).instrs.length m touched → (G.block b).predecessors[j]? = some p →
      EdgeStep (G.block b) j m m' → edgeMeets (carry G p b touched) b j m →
      Reaches G instrMeets edgeMeets b 0 m' (carry G p b touched)

def Cleared (G : FlowGraph D F S B) (result : FlowGraph.Optimized D F S B) (b : B) (k : ℕ) (i : Instr D F S) : Prop :=
  (G.block b).instrs[k]? = some i ∧ i.callsInitializer = true ∧
    ∃ i', (result.instrs b)[k]? = some i' ∧ i'.callsInitializer = false

def Late (G : FlowGraph D F S B) : Place D F S → Prop
  | .instanceField _ slot => ∃ b, ∃ i ∈ (G.block b).instrs, i.callsInitializer = true ∧
      ∃ d, i.place = some (.instanceField d slot)
  | .staticField field => ∃ b, ∃ i ∈ (G.block b).instrs, i.callsInitializer = true ∧
      i.place = some (.staticField field)

/-- The instruction does not reset the field of a touched place, and reads no late field that is not initialized,
unless it initializes it. -/
structure InstrMeets (G : FlowGraph D F S B) (touched : Set (Place D F S)) (i : Instr D F S)
    (m m' : Memory D F S Obj) : Prop where
  field : ∀ d slot, .instanceField d slot ∈ touched → Late G (.instanceField d slot) → m.field (m.env d) slot →
    m'.field (m.env d) slot
  static : ∀ field, .staticField field ∈ touched → Late G (.staticField field) → m.static field → m'.static field
  read : i.isLoad = true → i.callsInitializer = false → ∀ place, i.place = some place → Late G place →
    m.Initialized place

/-- The objects that the phis of `b` take have the touched late fields initialized. -/
def EdgeMeets (G : FlowGraph D F S B) (touched : Set (Place D F S)) (b : B) (j : ℕ) (m : Memory D F S Obj) : Prop :=
  ∀ phi ∈ (G.block b).phis, ∀ input, phi.inputs[j]? = some input → ∀ slot,
    .instanceField phi.dest slot ∈ touched → Late G (.instanceField input slot) → m.field (m.env input) slot

end

variable {place : Place D F S} {i : Instr D F S} {k : ℕ}

section
variable [DecidableEq D] [DecidableEq F] [DecidableEq S]

def localGen (gen : Finset (Place D F S)) (is : List (Instr D F S)) (k : ℕ) : Finset (Place D F S) :=
  (considerInstrs gen (is.take k)).2.1

variable (gen : Finset (Place D F S))

lemma localGen_zero (is : List (Instr D F S)) : localGen gen is 0 = gen := rfl

lemma localGen_length (is : List (Instr D F S)) : localGen gen is is.length = (considerInstrs gen is).2.1 := by
  rw [localGen, take_length]

variable {gen : Finset (Place D F S)} {is : List (Instr D F S)}

lemma considerInstrs_getElem? (h : is[k]? = some i) :
    (considerInstrs gen is).1[k]? = some (considerInstr (localGen gen is k) i).1 ∧
    localGen gen is (k + 1) = (considerInstr (localGen gen is k) i).2.1 := by
  induction is generalizing gen k with
  | nil => simp at h
  | cons j is ih =>
    cases k with
    | zero =>
      obtain rfl : j = i := by simpa using h
      exact ⟨rfl, rfl⟩
    | succ k => exact ih (by simpa using h)

lemma mem_considerInstr (h : place ∈ (considerInstr gen i).2.1) : place ∈ gen ∨ i.place = some place ∧
    (i.isStore = true ∧ i.isSentinelStore = false ∨ i.isLoad = true) := by
  rw [considerInstr] at h
  cases hplace : i.place with
  | none =>
    rw [hplace] at h
    exact .inl h
  | some other =>
    rw [hplace] at h
    dsimp only at h
    have hins (hhow : i.isStore = true ∧ i.isSentinelStore = false ∨ i.isLoad = true) (h : place ∈ insert other gen) :
        place ∈ gen ∨ some other = some place ∧ (i.isStore = true ∧ i.isSentinelStore = false ∨ i.isLoad = true) := by
      rcases Finset.mem_insert.1 h with rfl | hmem
      · exact .inr ⟨rfl, hhow⟩
      · exact .inl hmem
    split_ifs at h with hsto hload hcalls hmarked
    · exact hins (.inl (by simpa using hsto)) h
    · exact hins (.inr hload) h
    · exact hins (.inr hload) h
    · exact hins (.inr hload) h
    · exact .inl h

lemma mem_localGen (h : place ∈ localGen ∅ is k) : ∃ n < k, ∃ i, is[n]? = some i ∧ i.place = some place := by
  induction k with
  | zero => simp [localGen_zero] at h
  | succ k ih =>
    have hold : place ∈ localGen ∅ is k → ∃ n < k + 1, ∃ i, is[n]? = some i ∧ i.place = some place := by
      intro h
      obtain ⟨n, hn, i, hi, hplace⟩ := ih h
      exact ⟨n, by omega, i, hi, hplace⟩
    cases hi : is[k]? with
    | none =>
      have hlen : is.length ≤ k := getElem?_eq_none_iff.1 hi
      rw [localGen, take_of_length_le (by omega), ← take_of_length_le hlen] at h
      exact hold h
    | some i =>
      rw [(considerInstrs_getElem? hi).2] at h
      rcases mem_considerInstr h with hmem | ⟨hplace, -⟩
      · exact hold hmem
      · exact ⟨k, by omega, i, hi, hplace⟩

lemma mem_spreadThroughPhis {moves : List (Move D F S)}
    (h : place ∈ spreadThroughPhis gen moves) : place ∈ gen ∨ ∃ move ∈ moves, move.2 = place := by
  induction moves generalizing gen with
  | nil => exact .inl h
  | cons move moves ih =>
    rcases ih h with hmem | ⟨other, hoth, hplace⟩
    · dsimp only at hmem
      split_ifs at hmem
      · rcases Finset.mem_insert.1 hmem with rfl | hmem
        · exact .inr ⟨move, mem_cons_self, rfl⟩
        · exact .inl hmem
      · exact .inl hmem
    · exact .inr ⟨other, mem_cons_of_mem _ hoth, hplace⟩

lemma spreadThroughPhis_induction {P : Place D F S → Prop} {moves : List (Move D F S)} (hgen : ∀ place ∈ gen, P place)
    (hmove : ∀ move ∈ moves, P move.1 → P move.2) (h : place ∈ spreadThroughPhis gen moves) : P place := by
  induction moves generalizing gen with
  | nil => exact hgen place h
  | cons move moves ih =>
    obtain ⟨hfirst, hmove⟩ := forall_mem_cons.1 hmove
    refine ih (fun other hother => ?_) hmove h
    dsimp only at hother
    split_ifs at hother with hcond
    · rcases Finset.mem_insert.1 hother with rfl | hother
      · exact hfirst (hgen _ hcond.2)
      · exact hgen other hother
    · exact hgen other hother

lemma considerInstr_cleared (hcalls : i.callsInitializer = true)
    (h : (considerInstr gen i).1.callsInitializer = false) : ∃ place, i.place = some place ∧ place ∈ gen := by
  rw [considerInstr] at h
  cases hplace : i.place with
  | none =>
    rw [hplace] at h
    rw [hcalls] at h
    cases h
  | some place =>
    rw [hplace] at h
    dsimp only at h
    refine ⟨place, rfl, ?_⟩
    by_contra hnot
    split_ifs at h <;> rw [hcalls] at h <;> cases h

end

variable {fuel : ℕ}

section

def MovesToPhis (G : FlowGraph D F S B) (moves : List (B × Move D F S)) : Prop :=
  ∀ move ∈ moves, ∃ b, ∃ phi ∈ (G.block b).phis, ∃ (j : ℕ) (input : D) (slot : F),
    (G.block b).predecessors[j]? = some move.1 ∧ phi.inputs[j]? = some input ∧
      move.2 = (.instanceField input slot, .instanceField phi.dest slot)

lemma movesInto_toPhis [DecidableEq D] (G : FlowGraph D F S B) (place : Place D F S) :
    MovesToPhis G (G.movesInto place) := by
  intro move hmove
  cases place with
  | staticField field => exact absurd hmove not_mem_nil
  | instanceField d slot =>
    rw [movesInto, mem_flatMap] at hmove
    obtain ⟨⟨b, phi⟩, hphi, hmove⟩ := hmove
    rw [phisOf, mem_flatMap] at hphi
    obtain ⟨c, -, hphi⟩ := hphi
    obtain ⟨phi', hphi', heq⟩ := mem_map.1 hphi
    obtain ⟨rfl, rfl⟩ := Prod.mk.inj heq
    obtain ⟨hmem, hdest⟩ := mem_filter.1 hphi'
    dsimp only at hmove
    rw [← map_uncurry_zip_eq_zipWith] at hmove
    obtain ⟨⟨p, input⟩, hzip, rfl⟩ := mem_map.1 hmove
    obtain ⟨j, hj⟩ := mem_iff_getElem?.1 hzip
    obtain ⟨hp, hinput⟩ := getElem?_zip_eq_some.1 hj
    refine ⟨c, phi', hmem, j, input, slot, hp, hinput, ?_⟩
    rw [of_decide_eq_true hdest]
    rfl

lemma foldl_inter_subset [DecidableEq D] [DecidableEq F] [DecidableEq S]
    (gen : B → Finset (Place D F S)) (ps : List B) (all : Finset (Place D F S)) :
    ps.foldl (fun temp p => temp ∩ gen p) all ⊆ all ∧ ∀ p ∈ ps, ps.foldl (fun temp p => temp ∩ gen p) all ⊆ gen p := by
  induction ps generalizing all with
  | nil => exact ⟨Finset.Subset.refl _, nofun⟩
  | cons q ps ih =>
    obtain ⟨hall, hps⟩ := ih (all ∩ gen q)
    refine ⟨hall.trans Finset.inter_subset_left, fun p hp => ?_⟩
    rcases mem_cons.1 hp with rfl | hp
    · exact hall.trans Finset.inter_subset_right
    · exact hps p hp

lemma computePhiMoves_toPhis [DecidableEq D] [DecidableEq F] [DecidableEq S] {G : FlowGraph D F S B}
    {moves : List (B × Move D F S)} {done places : List (Place D F S)}
    (h : G.computePhiMoves fuel done places = some moves) : MovesToPhis G moves := by
  induction fuel generalizing done places moves with
  | zero =>
    cases places with
    | nil =>
      obtain rfl : [] = moves := by simpa [computePhiMoves] using h
      exact nofun
    | cons place places => cases h
  | succ fuel ih =>
    cases places with
    | nil =>
      obtain rfl : [] = moves := by simpa [computePhiMoves] using h
      exact nofun
    | cons place places =>
      obtain ⟨rest, hrest, h⟩ := bind_eq_some_iff.1 h
      obtain rfl := some.inj h
      intro move hmove
      rcases mem_append.1 hmove with hmove | hmove
      · exact movesInto_toPhis G place move hmove
      · exact ih hrest move hmove

end

variable {G : FlowGraph D F S B} {moves : List (B × Move D F S)} {sets : FlowGraph.Sets D F S B}

section
variable [DecidableEq D] [DecidableEq F] [DecidableEq S] [DecidableEq B]

structure SetsInv (G : FlowGraph D F S B) (moves : List (B × Move D F S)) (sets : FlowGraph.Sets D F S B) : Prop where
  entry : sets.inn G.graphEntry = ∅
  inn : ∀ b, b ≠ G.graphEntry → ∀ p ∈ (G.block b).predecessors, sets.inn b ⊆ sets.gen p
  gen : ∀ b, sets.gen b = sets.inn b ∪ G.initialGen moves b

lemma incoming_subset {b p : B} (hb : b ≠ G.graphEntry)
    (hp : p ∈ (G.block b).predecessors) : G.incoming all sets b ⊆ sets.gen p := by
  rw [incoming, if_neg hb]
  exact (foldl_inter_subset sets.gen _ all).2 p hp

lemma SetsInv.propagateBlock (h : SetsInv G moves sets) (all : Finset (Place D F S)) (b : B) (changed : Bool) :
    SetsInv G moves (G.propagateBlock all b (sets, changed)).1 := by
  rw [FlowGraph.propagateBlock]
  split_ifs with heq
  · exact h
  · -- The sets only grow.
    have hgrow : ∀ p, sets.gen p ⊆ update sets.gen b (sets.gen b ∪ G.incoming all sets b) p := by
      intro p
      by_cases hpb : p = b
      · rw [hpb, update_self]
        exact Finset.subset_union_left
      · rw [update_of_ne hpb]
    refine ⟨?_, fun c hc p hp => ?_, fun c => ?_⟩ <;> dsimp only
    · by_cases hb : G.graphEntry = b
      · subst hb
        rw [update_self, h.entry, FlowGraph.incoming, if_pos rfl, Finset.union_empty]
      · rw [update_of_ne hb]
        exact h.entry
    · refine Finset.Subset.trans ?_ (hgrow p)
      by_cases hcb : c = b
      · subst hcb
        rw [update_self]
        exact Finset.union_subset (h.inn c hc p hp) (incoming_subset hc hp)
      · rw [update_of_ne hcb]
        exact h.inn c hc p hp
    · by_cases hcb : c = b
      · subst hcb
        rw [update_self, update_self, h.gen c, Finset.union_right_comm]
      · rw [update_of_ne hcb, update_of_ne hcb]
        exact h.gen c

lemma SetsInv.foldl (all : Finset (Place D F S)) (bs : List B) (state : FlowGraph.Sets D F S B × Bool)
    (h : SetsInv G moves state.1) :
    SetsInv G moves (bs.foldl (fun state b => G.propagateBlock all b state) state).1 := by
  induction bs generalizing state with
  | nil => exact h
  | cons b bs ih => exact ih _ (h.propagateBlock all b state.2)

lemma SetsInv.propagate {result : FlowGraph.Sets D F S B}
    (h : SetsInv G moves sets) (hresult : G.propagate all fuel sets = some result) : SetsInv G moves result := by
  induction fuel generalizing sets with
  | zero => cases hresult
  | succ fuel ih =>
    rw [propagate] at hresult
    have hfold := SetsInv.foldl all G.reversePostorder (sets, false) h
    dsimp only at hresult
    split_ifs at hresult with hcha
    · exact ih hfold hresult
    · obtain rfl := some.inj hresult
      exact hfold

lemma SetsInv.mem_gen (h : SetsInv G moves sets) (hmoves : MovesToPhis G moves) (hplace : place ∈ sets.gen b) :
    place ∈ sets.inn b ∨ place ∈ localGen ∅ (G.block b).instrs (G.block b).instrs.length ∨
    ∃ c, b ∈ (G.block c).predecessors ∧ ∃ phi ∈ (G.block c).phis, ∃ slot, place = .instanceField phi.dest slot := by
  rw [h.gen, Finset.mem_union] at hplace
  rcases hplace with hplace | hplace
  · exact .inl hplace
  · rcases mem_spreadThroughPhis hplace with hplace | ⟨move, hmove, rfl⟩
    · rw [localGen_length]
      exact .inr (.inl hplace)
    · obtain ⟨⟨p, move'⟩, hmove', rfl⟩ := mem_map.1 hmove
      obtain ⟨hmem, hp⟩ := mem_filter.1 hmove'
      obtain rfl : p = b := of_decide_eq_true hp
      obtain ⟨c, phi, hphi, j, input, slot, hpred, -, heq⟩ := hmoves _ hmem
      exact .inr (.inr ⟨c, mem_of_getElem? hpred, phi, hphi, slot, congrArg Prod.snd heq⟩)

/-- The marks at the end of a block are carried over an edge if those before its phi moves were touched. -/
lemma SetsInv.carried (h : SetsInv G moves sets) (hmoves : MovesToPhis G moves) {p : B} {j : ℕ}
    (hp : (G.block b).predecessors[j]? = some p) {touched : Set (Place D F S)}
    (htouched : ∀ place, place ∈ sets.inn p ∨ place ∈ localGen ∅ (G.block p).instrs (G.block p).instrs.length →
      place ∈ touched) (hplace : place ∈ sets.gen p) : place ∈ carry G p b touched := by
  rw [h.gen, Finset.mem_union] at hplace
  rcases hplace with hplace | hplace
  · exact .old (htouched place (.inl hplace))
  · refine spreadThroughPhis_induction (P := Carried G p b touched) (fun place hplace => ?_)
      (fun move hmove hfrom => ?_) hplace
    · exact .old (htouched place (.inr (by rwa [localGen_length])))
    · obtain ⟨⟨q, move'⟩, hmove', rfl⟩ := mem_map.1 hmove
      obtain ⟨hmem, hq⟩ := mem_filter.1 hmove'
      obtain rfl : q = p := of_decide_eq_true hq
      obtain ⟨c, phi, hphi, j', input, slot, hpred, hinput, heq⟩ := hmoves _ hmem
      obtain rfl := G.goto_join c b q (ne_nil_of_mem hphi) (mem_of_getElem? hpred) (mem_of_getElem? hp)
      dsimp only at heq hfrom ⊢
      rw [heq] at hfrom ⊢
      exact .move hphi hpred hinput hfrom

end

section
variable {block : B → Block D F S B} {graphEntry b c : B} {visited : List B}

lemma Path.of_mem (h : Path block graphEntry c visited) (hb : b ∈ visited) :
    ∃ visited', Path block graphEntry b visited' ∧ visited'.length ≤ visited.length := by
  induction h with
  | entry =>
    rw [mem_singleton.1 hb]
    exact ⟨_, .entry, le_rfl⟩
  | edge h hp ih =>
    rcases mem_cons.1 hb with rfl | hb
    · exact ⟨_, .edge h hp, le_rfl⟩
    · obtain ⟨visited', hpath, hlen⟩ := ih hb
      exact ⟨visited', hpath, hlen.trans (Nat.le_succ _)⟩

lemma Path.first (h : Path block graphEntry b visited) :
    b = graphEntry ∨ ∃ p ∈ (block b).predecessors, ∃ visited', Path block graphEntry p visited' ∧ b ∉ visited' := by
  induction hn : visited.length using Nat.strong_induction_on generalizing visited with
  | _ n ih =>
    cases h with
    | entry => exact .inl rfl
    | @edge p _ visited h hp =>
      by_cases hb : b ∈ visited
      · obtain ⟨visited', hpath, hlen⟩ := h.of_mem hb
        exact ih visited'.length (by rw [length_cons] at hn; omega) hpath rfl
      · exact .inr ⟨p, hp, visited, h, hb⟩

end

section

variable {touched : Set (Place D F S)}

lemma Reaches.path {instrMeets : Set (Place D F S) → Instr D F S → Memory D F S Obj → Memory D F S Obj → Prop}
    {edgeMeets : Set (Place D F S) → B → ℕ → Memory D F S Obj → Prop} {m : Memory D F S Obj}
    (h : Reaches G instrMeets edgeMeets b k m touched) : ∃ visited, Path G.block G.graphEntry b visited := by
  induction h with
  | start => exact ⟨_, .entry⟩
  | instr _ _ _ _ ih => exact ih
  | edge _ hp _ _ ih =>
    obtain ⟨visited, hpath⟩ := ih
    exact ⟨_, .edge hpath (mem_of_getElem? hp)⟩

section
variable {m m' : Memory D F S Obj} (hstep : InstrStep i m m') (hmee : InstrMeets G touched i m m')
  (hdest : ∀ d slot, place = .instanceField d slot → i.dest ≠ some d) (hlate : Late G place)

include hstep hmee hdest hlate

lemma Memory.Initialized.step (htouched : place ∈ touched) (h : m.Initialized place) : m'.Initialized place := by
  cases place with
  | instanceField d slot =>
    rw [Memory.Initialized, hstep.env d (hdest d slot rfl)]
    exact hmee.field d slot htouched hlate h
  | staticField field => exact hmee.static field htouched hlate h

lemma initialized_of_marked (hplace : i.place = some place)
    (h : i.isStore = true ∧ i.isSentinelStore = false ∨ i.isLoad = true) : m'.Initialized place := by
  rcases h with ⟨hsto, hsen⟩ | hload
  · cases place with
    | instanceField d slot =>
      rw [Memory.Initialized, hstep.env d (hdest d slot rfl)]
      exact (hstep.stored hsto d slot hplace).2 hsen
    | staticField field => exact (hstep.storedStatic hsto field hplace).2 hsen
  · cases hcalls : i.callsInitializer with
    | false =>
      have hread := hmee.read hload hcalls place hplace hlate
      have hframe := hstep.frame hcalls (by rw [hplace]; exact Option.some_ne_none _)
      have hstore : i.isStore = false := by cases i <;> simp_all [Instr.isLoad, Instr.isStore]
      cases place with
      | instanceField d slot =>
        rw [Memory.Initialized, hstep.env d (hdest d slot rfl)]
        exact (hframe.1 _ _ fun d hs => by rw [hstore] at hs; cases hs).2 hread
      | staticField field => exact (hframe.2 field fun hs => by rw [hstore] at hs; cases hs).2 hread
    | true =>
      cases place with
      | instanceField d slot =>
        rw [Memory.Initialized, hstep.env d (hdest d slot rfl)]
        exact hstep.loaded hload hcalls d slot hplace
      | staticField field => exact hstep.loadedStatic hload hcalls field hplace

end

lemma late_of_calls (hi : i ∈ (G.block b).instrs) (hcalls : i.callsInitializer = true)
    (hplace : i.place = some place) : Late G place := by
  cases place with
  | instanceField d slot => exact ⟨b, i, hi, hcalls, d, hplace⟩
  | staticField field => exact ⟨b, i, hi, hcalls, hplace⟩

lemma clearCallsInitializer_place (i : Instr D F S) : i.clearCallsInitializer.place = i.place := by cases i <;> rfl

end

section
variable [DecidableEq D] [DecidableEq F] [DecidableEq S] [DecidableEq B]

lemma SetsInv.mem_inn (h : SetsInv G moves sets) {b p : B} (hp : p ∈ (G.block b).predecessors)
    (hplace : place ∈ sets.inn b) : place ∈ sets.gen p := by
  by_cases hb : b = G.graphEntry
  · rw [hb, h.entry] at hplace
    exact absurd hplace (Finset.notMem_empty _)
  · exact h.inn b hb p hp hplace

section
variable {b : B} {d : D} (h : SetsInv G moves sets) (hmoves : MovesToPhis G moves)
  (hi : (G.block b).instrs[k]? = some i) (hd : i.dest = some d)

include h hmoves hi hd

lemma SetsInv.not_mem_gen {c : B}
    {visited : List B} (hpath : Path G.block G.graphEntry c visited) (hb : b ∉ visited) (slot : F) :
    .instanceField d slot ∉ sets.gen c := by
  have hloc : ∀ c visited, Path G.block G.graphEntry c visited → b ∉ visited →
      .instanceField d slot ∈ sets.gen c → .instanceField d slot ∈ sets.inn c := by
    intro c visited hpath hb hmem
    rcases h.mem_gen hmoves hmem with hinn | hgen | ⟨c', -, phi, hphi, slot', heq⟩
    · exact hinn
    · obtain ⟨n, -, j, hj, hplace⟩ := mem_localGen hgen
      rcases G.dominated b k i d hi hd c n j slot hj hplace with ⟨rfl, -⟩ | ⟨-, hdom⟩
      · cases hpath with
        | entry | edge => exact absurd mem_cons_self hb
      · exact absurd (hdom visited hpath) hb
    · cases heq
      exact absurd rfl (G.not_phi b i _ (mem_of_getElem? hi) hd c' phi hphi)
  induction hpath with
  | entry =>
    intro hmem
    have hinn := hloc _ _ .entry hb hmem
    rw [h.entry] at hinn
    exact absurd hinn (Finset.notMem_empty _)
  | @edge p c visited hpath hp ih =>
    intro hmem
    exact ih (fun hmem => hb (mem_cons_of_mem _ hmem)) (h.mem_inn hp (hloc _ _ (.edge hpath hp) hb hmem))

lemma SetsInv.not_mem_inn {visited : List B} (hpath : Path G.block G.graphEntry b visited) (slot : F) :
    .instanceField d slot ∉ sets.inn b := by
  intro hmem
  rcases hpath.first with rfl | ⟨p, hp, visited', hpath', hb⟩
  · rw [h.entry] at hmem
    exact absurd hmem (Finset.notMem_empty _)
  · exact h.not_mem_gen hmoves hi hd hpath' hb slot (h.mem_inn hp hmem)

end

variable {result : FlowGraph.Optimized D F S B}

/-- A definition that an instruction makes is marked only after it. -/
lemma SetsInv.dest_ne (hsets : SetsInv G moves sets) (hmoves : MovesToPhis G moves)
    {visited : List B} (hpath : Path G.block G.graphEntry b visited) (hi : (G.block b).instrs[k]? = some i)
    (hplace : place ∈ sets.inn b ∨ place ∈ localGen ∅ (G.block b).instrs (k + 1)) :
    ∀ d slot, place = .instanceField d slot → i.dest ≠ some d := by
  rintro d slot rfl hd
  rcases hplace with hinn | hgen
  · exact hsets.not_mem_inn hmoves hi hd hpath slot hinn
  · obtain ⟨n, hn, j, hj, hjpl⟩ := mem_localGen hgen
    rcases G.dominated b k i d hi hd b n j slot hj hjpl with ⟨-, hlt⟩ | ⟨hne, -⟩
    · omega
    · exact hne rfl

lemma Reaches.touched (hsets : SetsInv G moves sets) (hmoves : MovesToPhis G moves) {m : Memory D F S Obj}
    {instrMeets : Set (Place D F S) → Instr D F S → Memory D F S Obj → Memory D F S Obj → Prop}
    {edgeMeets : Set (Place D F S) → B → ℕ → Memory D F S Obj → Prop} {touched : Set (Place D F S)}
    (h : Reaches G instrMeets edgeMeets b k m touched)
    (hplace : place ∈ sets.inn b ∨ place ∈ localGen ∅ (G.block b).instrs k) : place ∈ touched := by
  induction h generalizing place with
  | start =>
    rw [hsets.entry, localGen_zero] at hplace
    simp at hplace
  | @instr b k m m' i touched hreaches hi hstep hmee ih =>
    obtain ⟨visited, hpath⟩ := hreaches.path
    have hdest := hsets.dest_ne hmoves hpath hi hplace
    rcases hplace with hinn | hgen
    · exact .inr ⟨ih (.inl hinn), hdest⟩
    · rw [(considerInstrs_getElem? hi).2] at hgen
      rcases mem_considerInstr hgen with hgen | ⟨hipl, ⟨-, hsen⟩ | hload⟩
      · exact .inr ⟨ih (.inr hgen), hdest⟩
      · exact .inl ⟨hipl, hsen⟩
      · exact .inl ⟨hipl, by cases i <;> simp_all [Instr.isLoad, Instr.isSentinelStore]⟩
  | @edge p b j m m' touched hreaches hp hstep hmee ih =>
    have hinn : place ∈ sets.inn b := by
      rcases hplace with hinn | hgen
      · exact hinn
      · exact absurd hgen (Finset.notMem_empty _)
    exact hsets.carried hmoves hp (fun place => ih) (hsets.mem_inn (mem_of_getElem? hp) hinn)

lemma Reaches.initialized (hsets : SetsInv G moves sets) (hmoves : MovesToPhis G moves) {m : Memory D F S Obj}
    {touched : Set (Place D F S)} (h : Reaches G (InstrMeets G) (EdgeMeets G) b k m touched)
    (hplace : place ∈ sets.inn b ∨ place ∈ localGen ∅ (G.block b).instrs k) (hlate : Late G place) :
    m.Initialized place := by
  induction h generalizing place with
  | start =>
    rw [hsets.entry, localGen_zero] at hplace
    simp at hplace
  | @instr b k m m' i touched hreaches hi hstep hmee ih =>
    obtain ⟨visited, hpath⟩ := hreaches.path
    have hdest := hsets.dest_ne hmoves hpath hi hplace
    have hkept (hold : place ∈ sets.inn b ∨ place ∈ localGen ∅ (G.block b).instrs k) : m'.Initialized place :=
      (ih hold hlate).step hstep hmee hdest hlate (hreaches.touched hsets hmoves hold)
    rcases hplace with hinn | hgen
    · exact hkept (.inl hinn)
    · rw [(considerInstrs_getElem? hi).2] at hgen
      rcases mem_considerInstr hgen with hgen | ⟨hipl, hkind⟩
      · exact hkept (.inr hgen)
      · exact initialized_of_marked hstep hmee hdest hlate hipl hkind
  | @edge p b j m m' touched hreaches hp hstep hmee ih =>
    have hinn : place ∈ sets.inn b := by
      rcases hplace with hinn | hgen
      · exact hinn
      · exact absurd hgen (Finset.notMem_empty _)
    have hpred := mem_of_getElem? hp
    have hgen := hsets.mem_inn hpred hinn
    cases place with
    | staticField field =>
      rw [Memory.Initialized, hstep.static]
      rcases hsets.mem_gen hmoves hgen with hold | hold | ⟨c, -, phi, -, slot, heq⟩
      · exact ih (.inl hold) hlate
      · exact ih (.inr hold) hlate
      · cases heq
    | instanceField d slot =>
      by_cases hphi : ∃ phi ∈ (G.block b).phis, phi.dest = d
      · -- The phi takes an object whose field is initialized.
        obtain ⟨phi, hphi, rfl⟩ := hphi
        have hlt : j < phi.inputs.length := by
          rw [G.inputs_length b phi hphi]
          exact (List.getElem?_eq_some_iff.1 hp).1
        have hinput := List.getElem?_eq_getElem hlt
        rw [Memory.Initialized, hstep.phi phi hphi _ hinput, hstep.field]
        exact hmee phi hphi _ hinput slot
          (hsets.carried hmoves hp (fun place => hreaches.touched hsets hmoves) hgen) hlate
      · have hnot : ∀ phi ∈ (G.block b).phis, phi.dest ≠ d := fun phi hmem heq => hphi ⟨phi, hmem, heq⟩
        rw [Memory.Initialized, hstep.env d hnot, hstep.field]
        rcases hsets.mem_gen hmoves hgen with hold | hold | ⟨c, hc, phi, hmem, slot', heq⟩
        · exact ih (.inl hold) hlate
        · exact ih (.inr hold) hlate
        · obtain rfl := G.goto_join c b p (ne_nil_of_mem hmem) hc hpred
          cases heq
          exact absurd rfl (hnot phi hmem)

lemma considerInstr_place (gen : Finset (Place D F S)) (i : Instr D F S) : (considerInstr gen i).1.place = i.place := by
  rw [considerInstr]
  cases hplace : i.place with
  | none => exact hplace
  | some place =>
    dsimp only
    split_ifs
    all_goals first | exact hplace | rw [clearCallsInitializer_place, hplace]

lemma cleared_marked (h : G.optimizeLazyInitialization fuel = some result) :
    ∃ moves, MovesToPhis G moves ∧ SetsInv G moves result.sets ∧ ∀ b k i, Cleared G result b k i →
    ∃ place, i.place = some place ∧ (place ∈ result.sets.inn b ∨ place ∈ localGen ∅ (G.block b).instrs k) := by
  obtain ⟨moves, hmoves, h⟩ := bind_eq_some_iff.1 h
  have hini : SetsInv G moves ⟨fun _ => ∅, G.initialGen moves⟩ :=
    ⟨rfl, fun _ _ _ _ => Finset.empty_subset _, fun _ => (Finset.empty_union _).symm⟩
  have hfir : ∀ b k i i', (G.block b).instrs[k]? = some i → i.callsInitializer = true →
      (considerInstrs ∅ (G.block b).instrs).1[k]? = some i' →
      i'.place = i.place ∧ (i'.callsInitializer = false →
        ∃ place, i.place = some place ∧ place ∈ localGen ∅ (G.block b).instrs k) := by
    intro b k i i' hi hcalls hi'
    rw [(considerInstrs_getElem? hi).1] at hi'
    obtain rfl := some.inj hi'
    exact ⟨considerInstr_place _ _, considerInstr_cleared hcalls⟩
  refine ⟨moves, computePhiMoves_toPhis hmoves, ?_⟩
  split_ifs at h with hlazy
  · obtain ⟨sets, hsets, h⟩ := bind_eq_some_iff.1 h
    obtain rfl := some.inj h
    refine ⟨hini.propagate hsets, ?_⟩
    rintro b k i ⟨hi, hcalls, i', hi', hcleared⟩
    rw [getElem?_map, (considerInstrs_getElem? hi).1] at hi'
    obtain ⟨hplace, hloc⟩ := hfir b k i _ hi hcalls (considerInstrs_getElem? hi).1
    cases hcalls' : (considerInstr (localGen ∅ (G.block b).instrs k) i).1.callsInitializer with
    | false =>
      obtain ⟨place, hipl, hmem⟩ := hloc hcalls'
      exact ⟨place, hipl, .inr hmem⟩
    | true =>
      obtain rfl := some.inj hi'
      dsimp only at hcleared
      split_ifs at hcleared with hmarked
      · obtain ⟨-, place, hmem, hinn⟩ := hmarked
        exact ⟨place, hplace ▸ hmem, .inl hinn⟩
      · rw [hcalls'] at hcleared
        cases hcleared
  · obtain rfl := some.inj h
    refine ⟨hini, ?_⟩
    rintro b k i ⟨hi, hcalls, i', hi', hcleared⟩
    obtain ⟨-, hloc⟩ := hfir b k i i' hi hcalls hi'
    obtain ⟨place, hplace, hmem⟩ := hloc hcleared
    exact ⟨place, hplace, .inr hmem⟩

end

theorem optimizeLazyInitialization_sound [DecidableEq D] [DecidableEq F] [DecidableEq S] [DecidableEq B]
    (G : FlowGraph D F S B) {fuel : ℕ} {result : FlowGraph.Optimized D F S B}
    (h : G.optimizeLazyInitialization fuel = some result) {b : B} {k : ℕ} {m : Memory D F S Obj}
    {touched : Set (Place D F S)} (hreaches : Reaches G (InstrMeets G) (EdgeMeets G) b k m touched) {i : Instr D F S}
    (hcleared : Cleared G result b k i) : ∃ place, i.place = some place ∧ m.Initialized place := by
  obtain ⟨moves, hmoves, hsets, hmarked⟩ := cleared_marked h
  obtain ⟨place, hplace, hmem⟩ := hmarked b k i hcleared
  exact ⟨place, hplace, hreaches.initialized hsets hmoves hmem
    (late_of_calls (mem_of_getElem? hcleared.1) hcleared.2.1 hplace)⟩

namespace ListLoop

-- The literals of the graph below refer to these, instead of to proofs of their own.
scoped instance two_neZero : NeZero 2 := ⟨by decide⟩

scoped instance four_neZero : NeZero 4 := ⟨by decide⟩

scoped instance five_neZero : NeZero 5 := ⟨by decide⟩

end ListLoop

section

open ListLoop

def listBlock (b : Fin 4) : Block (Fin 5) (Fin 2) Empty (Fin 4) :=
  [⟨[], [], []⟩, ⟨[0], [], [.loadField 3 0 0 true]⟩,
   ⟨[1, 3], [⟨1, [0, 2]⟩], [.loadField 4 1 0 true, .loadField 2 1 1 false]⟩,
   ⟨[2], [], []⟩].get b

def listGraph : FlowGraph (Fin 5) (Fin 2) Empty (Fin 4) where
  block := listBlock
  reversePostorder := [0, 1, 2, 3]
  graphEntry := 0
  inputs_length := by decide
  dominated := by
    -- The receivers are a parameter and the phi.
    have hdest : ∀ b, ∀ i ∈ (listBlock b).instrs, ∀ d, i.dest = some d → ¬d < 2 := by decide
    have hreceiver : ∀ b, ∀ i ∈ (listBlock b).instrs, ∀ d slot, i.place = some (.instanceField d slot) → d < 2 := by
      decide
    intro b m i d hi hd c n j slot hj hplace
    exact absurd (hreceiver c j (mem_of_getElem? hj) d slot hplace) (hdest b i (mem_of_getElem? hi) d hd)
  not_phi := by
    have hnone : ∀ b, ∀ i ∈ (listBlock b).instrs, ∀ d, i.dest = some d → ∀ c, ∀ phi ∈ (listBlock c).phis,
        phi.dest ≠ d := by decide
    exact fun b i d hi => hnone b i hi d
  goto_join := by decide

lemma listGraph_cleared : ∃ result, listGraph.optimizeLazyInitialization 10 = some result ∧
    Cleared listGraph result 2 0 (.loadField 4 1 0 true) := by
  have hinst : (listGraph.optimizeLazyInitialization 10).map (fun result => result.instrs 2) =
    some [.loadField 4 1 0 false, .loadField 2 1 1 false] := by decide +kernel
  obtain ⟨result, hresult, heq⟩ := map_eq_some_iff.1 hinst
  exact ⟨result, hresult, rfl, rfl, .loadField 4 1 0 false, by rw [heq]; rfl, rfl⟩

def listMemory (phi next : Fin 2) (read : Prop) : Memory (Fin 5) (Fin 2) Empty (Fin 2) where
  env d := if d = 1 then phi else if d = 2 then next else 0
  field o slot := read ∧ o = 0 ∧ slot = 0
  static field := field.elim

/-- The run into the second iteration, in which the phi takes the object `next`. -/
lemma listGraph_loops (instrMeets : Set (Place (Fin 5) (Fin 2) Empty) → Instr (Fin 5) (Fin 2) Empty →
    Memory (Fin 5) (Fin 2) Empty (Fin 2) → Memory (Fin 5) (Fin 2) Empty (Fin 2) → Prop)
    (edgeMeets : Set (Place (Fin 5) (Fin 2) Empty) → Fin 4 → ℕ → Memory (Fin 5) (Fin 2) Empty (Fin 2) → Prop)
    (next : Fin 2) (hinstr : ∀ t, instrMeets t (.loadField 3 0 0 true) (listMemory 0 0 False) (listMemory 0 0 True) ∧
      instrMeets t (.loadField 4 1 0 true) (listMemory 0 0 True) (listMemory 0 0 True) ∧
      instrMeets t (.loadField 2 1 1 false) (listMemory 0 0 True) (listMemory 0 next True))
    (hedge : ∀ t, edgeMeets t 1 0 (listMemory 0 0 False) ∧ edgeMeets t 2 0 (listMemory 0 0 True) ∧
      edgeMeets t 3 0 (listMemory 0 next True) ∧ edgeMeets t 2 1 (listMemory 0 next True)) :
    ∃ touched, Reaches listGraph instrMeets edgeMeets 2 0 (listMemory next next True) touched := by
  have hreads (dest receiver : Fin 5) (read : Prop) (hreceiver : (listMemory 0 0 read).env receiver = 0) :
      InstrStep (.loadField dest receiver 0 true) (listMemory 0 0 read) (listMemory 0 0 True) := by
    refine ⟨fun d _ => rfl, ?_, fun _ _ field => field.elim, nofun, nofun, nofun⟩
    rintro - - d slot h
    cases h
    exact ⟨trivial, hreceiver, rfl⟩
  have hphi (input phi : Fin 2) (j : ℕ) (hinput : ∀ i, [0, 2][j]? = some i → (listMemory phi input True).env i = input) :
      EdgeStep (listGraph.block 2) j (listMemory phi input True) (listMemory input input True) := by
    refine ⟨fun p hp i hi => ?_, fun d hd => ?_, rfl, rfl⟩
    · obtain rfl := mem_singleton.1 hp
      exact (hinput i hi).symm
    · have hne : d ≠ 1 := fun h => hd _ mem_cons_self h.symm
      simp [listMemory, hne]
  have hstart : Reaches listGraph instrMeets edgeMeets 0 0 (listMemory 0 0 False) ∅ :=
    .start (fun o slot h => h.1) fun field => field.elim
  have hfunction := Reaches.edge (b := 1) (j := 0) hstart rfl ⟨nofun, fun d _ => rfl, rfl, rfl⟩ (hedge _).1
  have hentry := hfunction.instr rfl (hreads 3 0 False rfl) (hinstr _).1
  have hjoin := Reaches.edge (b := 2) (j := 0) hentry rfl (hphi 0 0 0 (by decide)) (hedge _).2.1
  have hread := hjoin.instr rfl (hreads 4 1 True rfl) (hinstr _).2.1
  have hnext : InstrStep (.loadField 2 1 1 false) (listMemory 0 0 True) (listMemory 0 next True) := by
    refine ⟨fun d hd => ?_, nofun, nofun, nofun, nofun, fun _ _ => ⟨fun o slot _ => Iff.rfl, fun field => field.elim⟩⟩
    have hne : d ≠ 2 := fun h => hd (by rw [h]; rfl)
    simp [listMemory, hne]
  have hend := hread.instr rfl hnext (hinstr _).2.2
  have hback := Reaches.edge (b := 3) (j := 0) hend rfl ⟨nofun, fun d _ => rfl, rfl, rfl⟩ (hedge _).2.2.1
  exact ⟨_, .edge (j := 1) hback rfl (hphi next 0 1 fun i hi => by cases hi; rfl) (hedge _).2.2.2⟩

/-- A list of one object, which is its own successor. -/
theorem optimizeLazyInitialization_sound_list : ∃ touched,
    Reaches listGraph (InstrMeets listGraph) (EdgeMeets listGraph) 2 0 (listMemory 0 0 True) touched ∧
      ∃ place, (Instr.loadField 4 1 0 true : Instr (Fin 5) (Fin 2) Empty).place = some place ∧
        (listMemory 0 0 True).Initialized place := by
  have hslot : ∀ b, ∀ i ∈ (listBlock b).instrs, i.callsInitializer = true → ∀ d slot,
      i.place = some (.instanceField d slot) → slot = 0 := by decide
  have hlate : ∀ d slot, Late listGraph (.instanceField d slot) → slot = 0 := by
    rintro d slot ⟨b, i, hi, hcalls, d', hplace⟩
    exact hslot b i hi hcalls d' slot hplace
  obtain ⟨result, hresult, hcleared⟩ := listGraph_cleared
  have hphi (t : Set (Place (Fin 5) (Fin 2) Empty)) (j : ℕ) : EdgeMeets listGraph t 2 j (listMemory 0 0 True) := by
    intro phi hphi input hinput slot _ hl
    obtain rfl := mem_singleton.1 hphi
    refine ⟨trivial, ?_, hlate _ slot hl⟩
    simp [listMemory]
  obtain ⟨touched, hreaches⟩ := listGraph_loops (InstrMeets listGraph) (EdgeMeets listGraph) 0
    (fun t => ⟨⟨fun d slot _ _ h => absurd h.1 id, fun field => field.elim, nofun⟩,
      ⟨fun d slot _ _ h => h, fun field => field.elim, nofun⟩, fun d slot _ _ h => h, fun field => field.elim,
        fun _ _ place hplace hl => by cases hplace; exact absurd (hlate 1 1 hl) (by decide)⟩)
    (fun t => ⟨nofun, hphi t 0, nofun, hphi t 1⟩)
  exact ⟨touched, hreaches, optimizeLazyInitialization_sound listGraph hresult hreaches hcleared⟩

theorem optimizeLazyInitialization_stale : ∃ result, listGraph.optimizeLazyInitialization 10 = some result ∧
    ∃ (m : Memory (Fin 5) (Fin 2) Empty (Fin 2)) (touched : Set (Place (Fin 5) (Fin 2) Empty)),
      Reaches listGraph (fun _ _ _ _ => True) (fun _ _ _ _ => True) 2 0 m touched ∧
        Cleared listGraph result 2 0 (.loadField 4 1 0 true) ∧ ¬m.Initialized (.instanceField 1 0) := by
  obtain ⟨result, hresult, hcleared⟩ := listGraph_cleared
  obtain ⟨touched, hreaches⟩ := listGraph_loops (fun _ _ _ _ => True) (fun _ _ _ _ => True) 1
    (fun _ => ⟨trivial, trivial, trivial⟩) (fun _ => ⟨trivial, trivial, trivial, trivial⟩)
  exact ⟨result, hresult, _, touched, hreaches, hcleared, fun h => absurd h.2.1 (by decide)⟩

end
end DartSdk.LoadOptimizer
