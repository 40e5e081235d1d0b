import DartSdk.Liveness.Analysis
import Mathlib.Algebra.Order.BigOperators.Group.Finset

namespace DartSdk.Liveness
open List Function Definition Finset
variable {n : ℕ} {M : Type}
variable {inputs : List (EnvValue M)} {s₀ : Sets n M} {after : ℕ → Prop}

section
variable (g : FlowGraph n M)

def Nests (m inner : M) : Prop := .materialize inner ∈ g.materialization m

def Refers (i : Instruction M) (m : M) : Prop :=
  ∃ root, .materialize root ∈ i.env ∧ Relation.ReflTransGen (Nests g) root m

def UsesWith (own : Definition → Finset ℕ) (i : Instruction M) (v : ℕ) : Prop :=
  (∃ d ∈ i.inputs, v ∈ d.vregs) ∨ (∃ d, .value d ∈ i.env ∧ v ∈ d.vregs) ∨
    ∃ m, Refers g i m ∧ ∃ d, .value d ∈ g.materialization m ∧ v ∈ own d

def Uses : Instruction M → ℕ → Prop := UsesWith g vregs

def Records : Instruction M → ℕ → Prop := UsesWith g fun d => {d.vreg 0}

def SecondOfPair (i : Instruction M) (v : ℕ) : Prop :=
  ∃ m, Refers g i m ∧ ∃ d, .value d ∈ g.materialization m ∧ d.hasPairRepresentation = true ∧ v = d.vreg 1

def Enters (b : Fin n) (v : ℕ) : Prop :=
  (∃ phi ∈ (g.block b).phis, v ∈ phi.definition.vregs) ∨ ∃ d ∈ (g.block b).initialDefinitions, v ∈ d.vregs

def EdgeUse (b s : Fin n) (v : ℕ) : Prop := ∃ phi ∈ (g.block s).phis, ∃ d,
  (b, some d) ∈ (g.block s).predecessors.zip phi.inputs ∧ v ∈ d.vregs

inductive LiveAt (uses : Instruction M → ℕ → Prop) (v : ℕ) : Fin n → List (Instruction M) → Prop
  | use {b : Fin n} {i : Instruction M} {rest : List (Instruction M)} : uses i v → LiveAt uses v b (i :: rest)
  | step {b : Fin n} {i : Instruction M} {rest : List (Instruction M)} : v ∉ definedBy i → LiveAt uses v b rest →
      LiveAt uses v b (i :: rest)
  | phi {b s : Fin n} : EdgeUse g b s v → LiveAt uses v b []
  | edge {b s : Fin n} : s ∈ (g.block b).successors → ¬Enters g s v → LiveAt uses v s (g.block s).instructions →
      LiveAt uses v b []

def Live (uses : Instruction M → ℕ → Prop) (b : Fin n) (v : ℕ) : Prop :=
  ¬Enters g b v ∧ LiveAt g uses v b (g.block b).instructions

end

section
variable [DecidableEq M] {g : FlowGraph n M} {own : Definition → Finset ℕ}

structure Visits (g : FlowGraph n M) (own : Definition → Finset ℕ) (inputs : List (EnvValue M))
    (s s' : Finset M × Finset ℕ) : Prop where
  grows : s.1 ⊆ s'.1
  covers : ∀ m, .materialize m ∈ inputs → m ∈ s'.1
  closed : ∀ m ∈ s'.1, m ∉ s.1 → ∀ inner, Nests g m inner → inner ∈ s'.1
  source : ∀ m ∈ s'.1, m ∉ s.1 → ∃ root, .materialize root ∈ inputs ∧ Relation.ReflTransGen (Nests g) root m
  live : ∀ v, v ∈ s'.2 ↔ v ∈ s.2 ∨ (∃ d, .value d ∈ inputs ∧ v ∈ own d) ∨
    ∃ m ∈ s'.1, m ∉ s.1 ∧ ∃ d, .value d ∈ g.materialization m ∧ v = d.vreg 0

lemma Visits.cons {input : EnvValue M} {s s1 s2 : Finset M × Finset ℕ}
    (h : Visits g own [input] s s1) (h' : Visits g own inputs s1 s2) : Visits g own (input :: inputs) s s2 := by
  refine ⟨h.grows.trans h'.grows, fun m hm => ?_, fun m hm hnew inner hnes => ?_, fun m hm hnew => ?_, fun v => ?_⟩
  · rcases mem_cons.1 hm with rfl | hm
    · exact h'.grows (h.covers m (List.mem_singleton_self _))
    · exact h'.covers m hm
  · by_cases hm1 : m ∈ s1.1
    · exact h'.grows (h.closed m hm1 hnew inner hnes)
    · exact h'.closed m hm hm1 inner hnes
  · by_cases hm1 : m ∈ s1.1
    · obtain ⟨root, hroot, hpath⟩ := h.source m hm1 hnew
      exact ⟨root, mem_cons.2 (.inl (List.mem_singleton.1 hroot)), hpath⟩
    · obtain ⟨root, hroot, hpath⟩ := h'.source m hm hm1
      exact ⟨root, mem_cons_of_mem _ hroot, hpath⟩
  · rw [h'.live, h.live]
    constructor
    · rintro ((hv | ⟨d, hd, hv⟩ | ⟨m, hm, hnew, hd⟩) | ⟨d, hd, hv⟩ | ⟨m, hm, hnew, hd⟩)
      · exact .inl hv
      · exact .inr (.inl ⟨d, mem_cons.2 (.inl (List.mem_singleton.1 hd)), hv⟩)
      · exact .inr (.inr ⟨m, h'.grows hm, hnew, hd⟩)
      · exact .inr (.inl ⟨d, mem_cons_of_mem _ hd, hv⟩)
      · exact .inr (.inr ⟨m, hm, fun hold => hnew (h.grows hold), hd⟩)
    · rintro (hv | ⟨d, hd, hv⟩ | ⟨m, hm, hnew, hd⟩)
      · exact .inl (.inl hv)
      · rcases mem_cons.1 hd with rfl | hd
        · exact .inl (.inr (.inl ⟨d, List.mem_singleton_self _, hv⟩))
        · exact .inr (.inl ⟨d, hd, hv⟩)
      · by_cases hm1 : m ∈ s1.1
        · exact .inl (.inr (.inr ⟨m, hm1, hnew, hd⟩))
        · exact .inr (.inr ⟨m, hm, hm1, hd⟩)

omit [DecidableEq M] in
lemma visits_same {s s' : Finset M × Finset ℕ} (hsame : s'.1 = s.1) (hcov : ∀ m, .materialize m ∈ inputs → m ∈ s.1)
    (hlive : ∀ v, v ∈ s'.2 ↔ v ∈ s.2 ∨ ∃ d, .value d ∈ inputs ∧ v ∈ own d) : Visits g own inputs s s' := by
  refine ⟨hsame ▸ subset_rfl, fun m hm => hsame ▸ hcov m hm, fun m hm hnew => absurd (hsame ▸ hm) hnew,
    fun m hm hnew => absurd (hsame ▸ hm) hnew, fun v => ?_⟩
  rw [hlive, hsame]
  constructor
  · rintro (hv | hv)
    · exact .inl hv
    · exact .inr (.inl hv)
  · rintro (hv | hv | ⟨m, hm, hnew, -⟩)
    · exact .inl hv
    · exact .inr hv
    · exact absurd hm hnew

variable [Fintype M]

lemma visits_foldl {fuel : ℕ} {deep : M → Finset M × Finset ℕ → Finset M × Finset ℕ}
    (hdeep : ∀ m s, s.1ᶜ.card < fuel → Visits g own [.materialize m] s (deep m s)) (inputs : List (EnvValue M))
    {s : Finset M × Finset ℕ} (hs : s.1ᶜ.card < fuel) :
    Visits g own inputs s (inputs.foldl (visitValue own deep) s) := by
  induction inputs generalizing s with
  | nil => exact visits_same rfl (by simp) (by simp)
  | cons input inputs ih =>
    have hstep : Visits g own [input] s (visitValue own deep s input) := by
      cases input with
      | value d => exact visits_same rfl (by simp) (by simp [visitValue])
      | materialize m => exact hdeep m s hs
      | other => exact visits_same rfl (by simp) (by simp [visitValue])
    refine hstep.cons (ih (lt_of_le_of_lt (card_le_card ?_) hs))
    exact compl_subset_compl.2 hstep.grows

lemma deepLiveness_visits (fuel : ℕ) (m : M) {s : Finset M × Finset ℕ} (hs : s.1ᶜ.card < fuel) :
    Visits g own [.materialize m] s (deepLiveness g fuel m s) := by
  induction fuel generalizing m s own with
  | zero => omega
  | succ fuel ih =>
    rw [deepLiveness]
    split_ifs with hm
    · exact visits_same rfl (by simpa using hm) (by simp)
    · have hcard : (insert m s.1)ᶜ.card < fuel := by
        have hlt : (insert m s.1)ᶜ.card < s.1ᶜ.card := card_lt_card (compl_ssubset_compl.2 (ssubset_insert hm))
        omega
      have hfold := visits_foldl (fun m s => @ih (fun d => {d.vreg 0}) m s) (g.materialization m)
        (s := (insert m s.1, s.2)) hcard
      have hself := hfold.grows (Finset.mem_insert_self m s.1)
      have hnew {x : M} (hx : x ≠ m) (hnew : x ∉ s.1) : x ∉ insert m s.1 := by simp [hx, hnew]
      refine ⟨(Finset.subset_insert _ _).trans hfold.grows, by simpa using hself, fun x hx hx' inner hnes => ?_,
        fun x hx hx' => ?_, fun v => ?_⟩
      · by_cases hxm : x = m
        · exact hfold.covers inner (hxm ▸ hnes)
        · exact hfold.closed x hx (hnew hxm hx') inner hnes
      · refine ⟨m, List.mem_singleton_self _, ?_⟩
        by_cases hxm : x = m
        · rw [hxm]
        · obtain ⟨root, hroot, hpath⟩ := hfold.source x hx (hnew hxm hx')
          exact .head hroot hpath
      · rw [hfold.live]
        constructor
        · rintro (hv | ⟨d, hd, hv⟩ | ⟨x, hx, hx', hd⟩)
          · exact .inl hv
          · exact .inr (.inr ⟨m, hself, hm, d, hd, Finset.mem_singleton.1 hv⟩)
          · exact .inr (.inr ⟨x, hx, fun hold => hx' (Finset.mem_insert_of_mem hold), hd⟩)
        · rintro (hv | ⟨d, hd, -⟩ | ⟨x, hx, hx', d, hd, hv⟩)
          · exact .inl hv
          · simp at hd
          · by_cases hxm : x = m
            · exact .inr (.inl ⟨d, hxm ▸ hd, Finset.mem_singleton.2 hv⟩)
            · exact .inr (.inr ⟨x, hx, hnew hxm hx', d, hd, hv⟩)

end

variable {is : List (Instruction M)} {b : Fin n} {uses : Instruction M → ℕ → Prop} {v : ℕ}

section Blocks

def Scan (uses : Instruction M → ℕ → Prop) (after : ℕ → Prop) : List (Instruction M) → ℕ → Prop
  | [], v => after v
  | i :: rest, v => uses i v ∨ Scan uses after rest v ∧ v ∉ definedBy i

def DefinedIn (is : List (Instruction M)) (v : ℕ) : Prop := ∃ i ∈ is, v ∈ definedBy i

lemma definedIn_cons {i : Instruction M} : DefinedIn (i :: is) v ↔ v ∈ definedBy i ∨ DefinedIn is v := by
  simp [DefinedIn]

lemma scan_or {after after' : ℕ → Prop} (is : List (Instruction M)) (v : ℕ) :
    Scan uses (fun v => after v ∨ after' v) is v ↔ Scan uses after is v ∨ after' v ∧ ¬DefinedIn is v := by
  induction is with
  | nil => simp [Scan, DefinedIn]
  | cons i is ih =>
    rw [Scan, Scan, definedIn_cons]
    tauto

lemma foldl_addUse (uses : List (Fin n × ℕ)) (s : Sets n M) :
    (uses.foldl addUse s).kill = s.kill ∧ (uses.foldl addUse s).visited = s.visited ∧
    (uses.foldl addUse s).liveOut = s.liveOut ∧
    ∀ c v, v ∈ (uses.foldl addUse s).liveIn c ↔ v ∈ s.liveIn c ∨ (c, v) ∈ uses ∧ v ∉ s.kill c := by
  induction uses generalizing s with
  | nil => simp
  | cons use uses ih =>
    obtain ⟨hkill, hvis, hout, hlive⟩ := ih (addUse s use)
    rw [foldl_cons]
    have hstep : (addUse s use).kill = s.kill ∧ (addUse s use).visited = s.visited ∧ (addUse s use).liveOut = s.liveOut ∧
        ∀ c v, v ∈ (addUse s use).liveIn c ↔ v ∈ s.liveIn c ∨ (c, v) = use ∧ v ∉ s.kill c := by
      rw [addUse]
      split_ifs with hmem
      · refine ⟨rfl, rfl, rfl, fun c v => ⟨.inl, ?_⟩⟩
        rintro (hv | ⟨rfl, hv⟩)
        · exact hv
        · exact absurd hmem hv
      · refine ⟨rfl, rfl, rfl, fun c v => ?_⟩
        obtain ⟨c', v'⟩ := use
        by_cases hc : c = c'
        · subst hc
          by_cases hv : v = v'
          · subst hv
            simp [hmem]
          · simp [hv]
        · simp [hc]
    obtain ⟨hkill', hvis', hout', hlive'⟩ := hstep
    refine ⟨hkill.trans hkill', hvis.trans hvis', hout.trans hout', fun c v => ?_⟩
    rw [hlive, hlive', hkill', List.mem_cons]
    tauto

lemma foldl_visitPhi (b : Fin n) (predecessors : List (Fin n)) (phis : List Phi) (s : Sets n M) :
    (phis.foldl (visitPhi b predecessors) s).visited = s.visited ∧
    (phis.foldl (visitPhi b predecessors) s).liveOut = s.liveOut ∧
    (∀ c v, v ∈ (phis.foldl (visitPhi b predecessors) s).kill c ↔
    v ∈ s.kill c ∨ c = b ∧ ∃ phi ∈ phis, v ∈ phi.definition.vregs) ∧
    ∀ c v, v ∈ (phis.foldl (visitPhi b predecessors) s).liveIn c ↔ ¬(c = b ∧ ∃ phi ∈ phis, v ∈ phi.definition.vregs) ∧
    (v ∈ s.liveIn c ∨ (∃ phi ∈ phis, (c, v) ∈ phi.uses predecessors) ∧ v ∉ s.kill c) := by
  induction phis generalizing s with
  | nil => simp
  | cons phi phis ih =>
    obtain ⟨hvis, hout, hkill, hlive⟩ := ih (visitPhi b predecessors s phi)
    have hstep : (visitPhi b predecessors s phi).visited = s.visited ∧ (visitPhi b predecessors s phi).liveOut = s.liveOut ∧
        (∀ c v, v ∈ (visitPhi b predecessors s phi).kill c ↔ v ∈ s.kill c ∨ c = b ∧ v ∈ phi.definition.vregs) ∧
        ∀ c v, v ∈ (visitPhi b predecessors s phi).liveIn c ↔ ¬(c = b ∧ v ∈ phi.definition.vregs) ∧
          (v ∈ s.liveIn c ∨ (c, v) ∈ phi.uses predecessors ∧ v ∉ s.kill c) := by
      obtain ⟨hkill, hvis, hout, hlive⟩ := foldl_addUse (phi.uses predecessors) (kill b phi.definition.vregs s)
      refine ⟨hvis, hout, fun c v => ?_, fun c v => ?_⟩
      · rw [visitPhi, hkill]
        by_cases hc : c = b
        · simp [kill, hc]
        · simp [kill, hc]
      · rw [visitPhi, hlive]
        by_cases hc : c = b
        · subst hc
          simp only [kill, update_self, mem_sdiff, mem_union, true_and]
          tauto
        · simp [kill, hc]
    obtain ⟨hvis', hout', hkill', hlive'⟩ := hstep
    rw [foldl_cons]
    refine ⟨hvis.trans hvis', hout.trans hout', fun c v => ?_, fun c v => ?_⟩
    · rw [hkill, hkill']
      simp only [List.mem_cons, exists_eq_or_imp]
      tauto
    · rw [hlive, hlive', hkill']
      simp only [List.mem_cons, exists_eq_or_imp]
      generalize (∃ phi ∈ phis, v ∈ phi.definition.vregs) = defined
      generalize (∃ phi ∈ phis, (c, v) ∈ phi.uses predecessors) = used
      tauto

variable [DecidableEq M] [Fintype M] {g : FlowGraph n M}
variable {s : Finset M × Finset ℕ × Finset ℕ}

lemma visitInstruction_spec (i : Instruction M) (hs : ∀ m ∈ s.1, ¬Refers g i m) :
    (∀ m ∈ (visitInstruction g i s).1, m ∈ s.1 ∨ Refers g i m) ∧ (visitInstruction g i s).2.1 = s.2.1 ∪ definedBy i ∧
    ∀ v, v ∈ (visitInstruction g i s).2.2 ↔ Records g i v ∨ v ∈ s.2.2 ∧ v ∉ definedBy i := by
  have hinp (live : Finset ℕ) (v : ℕ) : v ∈ i.inputs.foldl (fun live d => live ∪ d.vregs) live ↔
      v ∈ live ∨ ∃ d ∈ i.inputs, v ∈ d.vregs := by
    induction i.inputs generalizing live with
    | nil => simp
    | cons d ds ih => simp [ih, or_assoc]
  have hvisi : Visits g vregs i.env _ _ := visits_foldl (fun m s => deepLiveness_visits (Fintype.card M + 1) m) i.env
    (s := (s.1, i.inputs.foldl (fun live d => live ∪ d.vregs) (s.2.2 \ definedBy i)))
    (Nat.lt_succ_of_le (card_le_univ _))
  rw [visitInstruction]
  generalize foldl _ _ i.env = r at hvisi ⊢
  -- the objects that are new are those that the instruction refers to
  have hnew (m : M) : m ∈ r.1 ∧ m ∉ s.1 ↔ Refers g i m := by
    refine ⟨fun h => hvisi.source m h.1 h.2, fun h => ⟨?_, fun hold => hs m hold h⟩⟩
    obtain ⟨root, hroot, hpath⟩ := h
    induction hpath with
    | refl => exact hvisi.covers root hroot
    | tail hpath hnes ih => exact hvisi.closed _ ih (fun hold => hs _ hold ⟨root, hroot, hpath⟩) _ hnes
  refine ⟨fun m hm => (em (m ∈ s.1)).imp_right fun hm' => (hnew m).1 ⟨hm, hm'⟩, rfl, fun v => ?_⟩
  rw [hvisi.live, hinp, Finset.mem_sdiff, Records, UsesWith]
  simp only [← hnew, Finset.mem_singleton, and_assoc, or_assoc, or_comm]

lemma foldr_visitInstruction (hs : ∀ i ∈ is, ∀ m ∈ s.1, ¬Refers g i m)
    (href : is.Pairwise fun i j => ∀ m, Refers g i m → ¬Refers g j m) :
    (∀ m ∈ (is.foldr (visitInstruction g) s).1, m ∈ s.1 ∨ ∃ i ∈ is, Refers g i m) ∧
      (∀ v, v ∈ (is.foldr (visitInstruction g) s).2.1 ↔ v ∈ s.2.1 ∨ DefinedIn is v) ∧
      ∀ v, v ∈ (is.foldr (visitInstruction g) s).2.2 ↔ Scan (Records g) (· ∈ s.2.2) is v := by
  induction is with
  | nil => simp [Scan, DefinedIn]
  | cons i is ih =>
    rw [List.pairwise_cons] at href
    obtain ⟨hvis, hkill, hlive⟩ := ih (fun j hj => hs j (mem_cons_of_mem _ hj)) href.2
    obtain ⟨hvis', hkill', hlive'⟩ := visitInstruction_spec i fun m hm => by
      rcases hvis m hm with hm | ⟨j, hj, hm⟩
      · exact hs i mem_cons_self m hm
      · exact fun hm' => href.1 j hj m hm' hm
    rw [foldr_cons]
    refine ⟨fun m hm => ?_, fun v => ?_, fun v => ?_⟩
    · rcases hvis' m hm with hm | hm
      · exact (hvis m hm).imp_right fun ⟨j, hj, hm⟩ => ⟨j, mem_cons_of_mem _ hj, hm⟩
      · exact .inr ⟨i, mem_cons_self, hm⟩
    · rw [hkill', mem_union, hkill]
      rw [definedIn_cons]
      tauto
    · rw [hlive', hlive, Scan]

variable (g) in
def ReferredOnce : Prop := ((finRange n).flatMap fun b => (g.block b).instructions).Pairwise fun i j =>
  ∀ m, Refers g i m → ¬Refers g j m

variable (g) in
def SameRepresentation : Prop := ∀ b, ∀ phi ∈ (g.block b).phis, ∀ d, some d ∈ phi.inputs →
  d.hasPairRepresentation = phi.definition.hasPairRepresentation

def entering (b : Block n M) : List Phi := b.phis ++ b.initialDefinitions.map (⟨·, []⟩)

omit [DecidableEq M] [Fintype M] in
lemma enters_iff (b : Fin n) (v : ℕ) : Enters g b v ↔ ∃ phi ∈ entering (g.block b), v ∈ phi.definition.vregs := by
  simp [Enters, entering, or_and_right, exists_or]

omit [DecidableEq M] [Fintype M] in
lemma edgeUse_iff (hrep : SameRepresentation g) (c b : Fin n) (v : ℕ) :
    EdgeUse g c b v ↔ ∃ phi ∈ entering (g.block b), (c, v) ∈ phi.uses (g.block b).predecessors := by
  have huses (phi : Phi) (hphi : phi ∈ (g.block b).phis) : (c, v) ∈ phi.uses (g.block b).predecessors ↔
      ∃ d, (c, some d) ∈ (g.block b).predecessors.zip phi.inputs ∧ v ∈ d.vregs := by
    rw [Phi.uses, mem_flatMap]
    constructor
    · rintro ⟨⟨pred, input⟩, hmem, hv⟩
      cases input with
      | none => cases hv
      | some d =>
        have hd := hrep b phi hphi d (of_mem_zip hmem).2
        dsimp only at hv
        rw [← hd] at hv
        have hvre : c = pred ∧ v ∈ d.vregs := by
          rw [vregs]
          split_ifs at hv ⊢
          · simpa [← and_or_left] using hv
          · simpa using hv
        exact ⟨d, hvre.1 ▸ hmem, hvre.2⟩
    · rintro ⟨d, hmem, hv⟩
      refine ⟨(c, some d), hmem, ?_⟩
      have hd := hrep b phi hphi d (of_mem_zip hmem).2
      dsimp only
      rw [← hd]
      rw [vregs] at hv
      split_ifs at hv ⊢ <;> simpa using hv
  have hini (d : Definition) : (⟨d, []⟩ : Phi).uses (g.block b).predecessors = [] := by simp [Phi.uses]
  simp only [EdgeUse, entering, mem_append, List.mem_map, or_and_right, exists_or]
  rw [or_iff_left]
  · exact exists_congr fun phi => and_congr_right fun hphi => (huses phi hphi).symm
  · rintro ⟨phi, ⟨d, -, rfl⟩, hmem⟩
    rw [hini] at hmem
    cases hmem

lemma visitBlock_eq (s : Sets n M) (b : Fin n) : visitBlock g s b =
    (entering (g.block b)).foldl (visitPhi b (g.block b).predecessors) { s with
      visited := ((g.block b).instructions.foldr (visitInstruction g) (s.visited, s.kill b, s.liveIn b)).1
      kill := update s.kill b ((g.block b).instructions.foldr (visitInstruction g) (s.visited, s.kill b, s.liveIn b)).2.1
      liveIn := update s.liveIn b
        ((g.block b).instructions.foldr (visitInstruction g) (s.visited, s.kill b, s.liveIn b)).2.2 } := by
  rw [visitBlock, entering, foldl_append, foldl_map]
  congr 1
  funext s d
  simp [visitPhi, Phi.uses]

variable (g) in
structure Visited (done : List (Fin n)) (s : Sets n M) : Prop where
  visited : ∀ m ∈ s.visited, ∃ c ∈ done, ∃ i ∈ (g.block c).instructions, Refers g i m
  liveOut : ∀ c, s.liveOut c = ∅
  kill : ∀ c v, v ∈ s.kill c ↔ c ∈ done ∧ (Enters g c v ∨ DefinedIn (g.block c).instructions v)
  liveIn : ∀ c ∈ done, ∀ v, v ∈ s.liveIn c ↔ ¬Enters g c v ∧
    Scan (Records g) (fun v => ∃ t ∈ done, EdgeUse g c t v) (g.block c).instructions v
  waiting : ∀ c, c ∉ done → ∀ v, v ∈ s.liveIn c ↔ ∃ t ∈ done, EdgeUse g c t v

lemma Visited.step (hrep : SameRepresentation g) {done : List (Fin n)} {s : Sets n M}
    (h : Visited g done s) (hb : b ∉ done)
    (hold : ∀ c ∈ done, ∀ i ∈ (g.block c).instructions, ∀ j ∈ (g.block b).instructions, ∀ m, Refers g i m → ¬Refers g j m)
    (href : (g.block b).instructions.Pairwise fun i j => ∀ m, Refers g i m → ¬Refers g j m) :
    Visited g (done ++ [b]) (visitBlock g s b) := by
  have hkill : s.kill b = ∅ := eq_empty_of_forall_notMem fun v hv => hb ((h.kill b v).1 hv).1
  obtain ⟨hvis, hdef, hscan⟩ := foldr_visitInstruction (s := (s.visited, s.kill b, s.liveIn b)) (fun j hj m hm hj' => by
      obtain ⟨c, hc, i, hi, hm⟩ := h.visited m hm
      exact hold c hc i hi j hj m hm hj') href
  rw [visitBlock_eq]
  generalize (g.block b).instructions.foldr (visitInstruction g) (s.visited, s.kill b, s.liveIn b) = r
    at hvis hdef hscan ⊢
  obtain ⟨hvis', hout, hkill', hlive⟩ := foldl_visitPhi b (g.block b).predecessors (entering (g.block b))
    { s with visited := r.1, kill := update s.kill b r.2.1, liveIn := update s.liveIn b r.2.2 }
  have hedge (c : Fin n) (v : ℕ) : (∃ t ∈ done ++ [b], EdgeUse g c t v) ↔
      (∃ t ∈ done, EdgeUse g c t v) ∨ EdgeUse g c b v := by
    simp [or_and_right, exists_or]
  have hwait : (fun v => v ∈ s.liveIn b) = fun v => ∃ t ∈ done, EdgeUse g b t v :=
    funext fun v => propext (h.waiting b hb v)
  simp only [← enters_iff, ← edgeUse_iff hrep] at hkill' hlive
  simp only [hkill, notMem_empty, false_or] at hdef
  refine ⟨fun m hm => ?_, fun c => (congrFun hout c).trans (h.liveOut c), fun c v => ?_, fun c hc v => ?_, fun c hc v => ?_⟩
  · rw [hvis'] at hm
    rcases hvis m hm with hm | ⟨i, hi, hm⟩
    · obtain ⟨c, hc, hm⟩ := h.visited m hm
      exact ⟨c, mem_append_left _ hc, hm⟩
    · exact ⟨b, mem_append_right _ (List.mem_singleton_self b), i, hi, hm⟩
  · rw [hkill']
    by_cases hcb : c = b
    · subst hcb
      simp only [update_self, hdef, true_and, mem_append, List.mem_singleton, or_true]
      tauto
    · simp only [update_of_ne hcb, h.kill, hcb, false_and, or_false, mem_append, List.mem_singleton]
  · rw [hlive]
    simp only [hedge, scan_or]
    by_cases hcb : c = b
    · subst hcb
      simp only [update_self, hdef, hscan, true_and]
      rw [hwait]
    · have hc : c ∈ done := by simpa [hcb] using hc
      simp only [update_of_ne hcb, h.kill, h.liveIn c hc, hcb, false_and, not_false_eq_true, true_and, hc]
      tauto
  · rw [mem_append, List.mem_singleton, not_or] at hc
    rw [hlive, hedge]
    simp only [update_of_ne hc.2, h.kill, h.waiting c hc.1, hc.1, hc.2, false_and, not_false_eq_true, and_true, true_and]

lemma computeInitialSets_visited (hrep : SameRepresentation g) (href : ReferredOnce g) :
    Visited g (finRange n) (computeInitialSets g) := by
  have hfold (todo done : List (Fin n)) (s : Sets n M) (hnod : (done ++ todo).Nodup)
      (href : ((done ++ todo).flatMap fun b => (g.block b).instructions).Pairwise fun i j =>
        ∀ m, Refers g i m → ¬Refers g j m) (h : Visited g done s) :
      Visited g (done ++ todo) (todo.foldl (visitBlock g) s) := by
    induction todo generalizing done s with
    | nil => simpa using h
    | cons b todo ih =>
      have hpair := pairwise_flatMap.1 href
      have hstep := h.step hrep (fun hb => (nodup_append.1 hnod).2.2 b hb b mem_cons_self rfl)
        (fun c hc i hi j hj => (pairwise_append.1 hpair.2).2.2 c hc b mem_cons_self i hi j hj)
        (hpair.1 b (by simp))
      rw [append_cons]
      rw [append_cons] at hnod href
      exact ih (done ++ [b]) _ hnod href hstep
  exact hfold (finRange n) [] {} (nodup_finRange n) href ⟨by simp, by simp, by simp, by simp, by simp⟩

end Blocks

section Fixpoint
variable {g : FlowGraph n M}

lemma liveAt_of_not_definedIn (h : LiveAt g uses v b []) (hdef : ¬DefinedIn is v) : LiveAt g uses v b is := by
  induction is with
  | nil => exact h
  | cons i is ih =>
    rw [definedIn_cons, not_or] at hdef
    exact .step hdef.1 (ih hdef.2)

lemma liveAt_of_scan (haft : after v → LiveAt g uses v b []) (h : Scan uses after is v) :
    LiveAt g uses v b is := by
  induction is with
  | nil => exact haft h
  | cons i is ih =>
    rcases h with h | ⟨h, hdef⟩
    · exact .use h
    · exact .step hdef (ih h)

lemma scan_mono {uses uses' : Instruction M → ℕ → Prop} (h : ∀ i, uses i v → uses' i v)
    (hscan : Scan uses after is v) : Scan uses' after is v := by
  induction is with
  | nil => exact hscan
  | cons i is ih => exact hscan.imp (h i) fun ⟨hscan, hdef⟩ => ⟨ih hscan, hdef⟩

variable (g) in
structure Approximates (s₀ s : Sets n M) : Prop where
  kill : ∀ b v, v ∈ s.kill b ↔ Enters g b v ∨ DefinedIn (g.block b).instructions v
  initial : ∀ b, s₀.liveIn b ⊆ s.liveIn b
  transfer : ∀ b, s.liveOut b \ s.kill b ⊆ s.liveIn b
  live : ∀ b, ∀ v ∈ s.liveIn b, Live g (Records g) b v
  out : ∀ b, ∀ v ∈ s.liveOut b, ∃ succ ∈ (g.block b).successors, v ∈ s.liveIn succ
  bound : ∀ b, s.liveIn b ⊆ Finset.univ.biUnion s₀.liveIn

variable (g) in
structure Updates (blocks : List (Fin n)) (s s' : Sets n M × Bool) : Prop where
  liveIn : ∀ c, s.1.liveIn c ⊆ s'.1.liveIn c
  liveOut : ∀ c, s.1.liveOut c ⊆ s'.1.liveOut c
  unchanged : s'.2 = false → s.2 = false ∧ s'.1.liveIn = s.1.liveIn ∧
    ∀ b ∈ blocks, ∀ succ ∈ (g.block b).successors, s.1.liveIn succ ⊆ s'.1.liveOut b
  changed : s'.2 = true → s.2 = true ∨ ∑ c, (s.1.liveIn c).card < ∑ c, (s'.1.liveIn c).card

lemma Updates.cons {blocks : List (Fin n)} {s s1 s2 : Sets n M × Bool} (h : Updates g [b] s s1)
    (h' : Updates g blocks s1 s2) : Updates g (b :: blocks) s s2 := by
  refine ⟨fun c => (h.liveIn c).trans (h'.liveIn c), fun c => (h.liveOut c).trans (h'.liveOut c), fun hflag => ?_,
    fun hflag => ?_⟩
  · obtain ⟨hflag1, hsame', hout'⟩ := h'.unchanged hflag
    obtain ⟨hflag, hsame, hout⟩ := h.unchanged hflag1
    refine ⟨hflag, hsame'.trans hsame, fun c hc succ hsucc => ?_⟩
    rcases mem_cons.1 hc with rfl | hc
    · exact (hout c (List.mem_singleton_self c) succ hsucc).trans (h'.liveOut c)
    · exact hsame ▸ hout' c hc succ hsucc
  · rcases h'.changed hflag with hflag1 | hlt
    · refine (h.changed hflag1).imp_right fun hlt => lt_of_lt_of_le hlt ?_
      exact Finset.sum_le_sum fun c _ => Finset.card_le_card (h'.liveIn c)
    · exact .inr (lt_of_le_of_lt (Finset.sum_le_sum fun c _ => Finset.card_le_card (h.liveIn c)) hlt)

lemma mem_foldl_liveIn (succs : List (Fin n)) (liveIn : Fin n → Finset ℕ) (out : Finset ℕ) (v : ℕ) :
    v ∈ succs.foldl (fun out succ => out ∪ liveIn succ) out ↔ v ∈ out ∨ ∃ succ ∈ succs, v ∈ liveIn succ := by
  induction succs generalizing out with
  | nil => simp
  | cons succ succs ih => simp [ih, or_assoc]

lemma subset_update (liveIn : Fin n → Finset ℕ) {more : Finset ℕ} (h : liveIn b ⊆ more) (c : Fin n) :
    liveIn c ⊆ update liveIn b more c := by
  by_cases hc : c = b
  · subst hc
    rwa [update_self]
  · rw [update_of_ne hc]

variable {s : Sets n M}

lemma Approximates.update (h : Approximates g s₀ s) {out : Finset ℕ}
    (hsucc : ∀ v ∈ out, ∃ succ ∈ (g.block b).successors, v ∈ s.liveIn succ) : Approximates g s₀ { s with
      liveOut := update s.liveOut b out
      liveIn := update s.liveIn b (s.liveIn b ∪ (out \ s.kill b)) } := by
  have hin := subset_update s.liveIn (@subset_union_left _ _ (s.liveIn b) (out \ s.kill b))
  refine ⟨h.kill, fun c => (h.initial c).trans (hin c), fun c => ?_, fun c v hv => ?_, fun c v hv => ?_, fun c => ?_⟩
  · by_cases hc : c = b
    · subst hc
      simp
    · simpa [hc] using h.transfer c
  · by_cases hc : c = b
    · subst hc
      dsimp only at hv
      rw [update_self, mem_union, mem_sdiff, h.kill, not_or] at hv
      rcases hv with hv | ⟨hv, henters, hdef⟩
      · exact h.live c v hv
      · obtain ⟨succ, hs, hv⟩ := hsucc v hv
        obtain ⟨henters', hlive⟩ := h.live succ v hv
        exact ⟨henters, liveAt_of_not_definedIn (.edge hs henters' hlive) hdef⟩
    · exact h.live c v (by simpa [hc] using hv)
  · have hv' : ∃ succ ∈ (g.block c).successors, v ∈ s.liveIn succ := by
      by_cases hc : c = b
      · subst hc
        exact hsucc v (by simpa using hv)
      · exact h.out c v (by simpa [hc] using hv)
    obtain ⟨succ, hs, hv⟩ := hv'
    exact ⟨succ, hs, hin succ hv⟩
  · by_cases hc : c = b
    · subst hc
      dsimp only
      rw [update_self]
      refine union_subset (h.bound c) fun v hv => ?_
      obtain ⟨succ, -, hv⟩ := hsucc v (mem_sdiff.1 hv).1
      exact h.bound succ hv
    · simpa [hc] using h.bound c

lemma updateBlock_spec {s : Sets n M × Bool} (h : Approximates g s₀ s.1) (b : Fin n) :
    Approximates g s₀ (updateBlock g s b).1 ∧ Updates g [b] s (updateBlock g s b) := by
  have hmem := mem_foldl_liveIn (g.block b).successors s.1.liveIn (s.1.liveOut b)
  rw [updateBlock]
  generalize (g.block b).successors.foldl (fun out succ => out ∪ s.1.liveIn succ) (s.1.liveOut b) = out at hmem ⊢
  have hsucc (v : ℕ) (hv : v ∈ out) : ∃ succ ∈ (g.block b).successors, v ∈ s.1.liveIn succ := by
    rcases (hmem v).1 hv with hv | hv
    · exact h.out b v hv
    · exact hv
  split_ifs with hout
  · refine ⟨h, ⟨fun c => subset_rfl, fun c => subset_rfl, fun hflag => ⟨hflag, rfl, ?_⟩, .inl⟩⟩
    rintro c hc succ hs v hv
    rw [List.mem_singleton.1 hc] at hs ⊢
    exact hout ▸ (hmem v).2 (.inr ⟨succ, hs, hv⟩)
  · have hin := subset_update s.1.liveIn (@Finset.subset_union_left _ _ (s.1.liveIn b) (out \ s.1.kill b))
    refine ⟨h.update hsucc, ⟨hin, subset_update s.1.liveOut fun v hv => (hmem v).2 (.inl hv),
      fun hflag => ?_, fun hflag => ?_⟩⟩
    · simp only [Bool.or_eq_false_iff, decide_eq_false_iff_not, not_not] at hflag
      dsimp only
      refine ⟨hflag.1, by rw [hflag.2, update_eq_self], fun c hc succ hs v hv => ?_⟩
      rw [List.mem_singleton.1 hc] at hs ⊢
      rw [update_self]
      exact (hmem v).2 (.inr ⟨succ, hs, hv⟩)
    · simp only [Bool.or_eq_true, decide_eq_true_eq] at hflag
      refine hflag.imp_right fun hne => sum_lt_sum (fun c _ => card_le_card (hin c)) ⟨b, mem_univ b, ?_⟩
      apply card_lt_card
      dsimp only
      rw [update_self]
      exact Finset.ssubset_iff_subset_ne.2 ⟨Finset.subset_union_left, hne.symm⟩

lemma foldl_updateBlock (blocks : List (Fin n)) {s : Sets n M × Bool} (h : Approximates g s₀ s.1) :
    Approximates g s₀ (blocks.foldl (updateBlock g) s).1 ∧ Updates g blocks s (blocks.foldl (updateBlock g) s) := by
  induction blocks generalizing s with
  | nil => exact ⟨h, ⟨fun c => subset_rfl, fun c => subset_rfl, fun hflag => ⟨hflag, rfl, by simp⟩, .inl⟩⟩
  | cons b blocks ih =>
    obtain ⟨hstep, hupd⟩ := updateBlock_spec h b
    obtain ⟨hrun, hupd'⟩ := ih hstep
    exact ⟨hrun, hupd.cons hupd'⟩

lemma computeLiveInAndLiveOutSets_spec (fuel : ℕ) {s : Sets n M} (h : Approximates g s₀ s)
    (hfuel : n * (Finset.univ.biUnion s₀.liveIn).card < fuel + ∑ c, (s.liveIn c).card) :
    ∃ s', computeLiveInAndLiveOutSets g fuel s = some s' ∧ Approximates g s₀ s' ∧
    ∀ b, ∀ succ ∈ (g.block b).successors, s'.liveIn succ ⊆ s'.liveOut b := by
  induction fuel generalizing s with
  | zero =>
    have hle := sum_le_card_nsmul univ (fun c => (s.liveIn c).card) _ fun c _ => card_le_card (h.bound c)
    simp at hle
    omega
  | succ fuel ih =>
    obtain ⟨hrun, hupd⟩ := foldl_updateBlock (s := (s, false)) (finRange n) h
    rw [computeLiveInAndLiveOutSets]
    generalize (finRange n).foldl (updateBlock g) (s, false) = r at hrun hupd ⊢
    split_ifs with hflag
    · have hlt := (hupd.changed hflag).resolve_left (by simp)
      exact ih hrun (by dsimp only at hlt; omega)
    · obtain ⟨-, hsame, hout⟩ := hupd.unchanged (by simpa using hflag)
      exact ⟨r.1, rfl, hrun, fun b succ hs => hsame ▸ hout b (mem_finRange b) succ hs⟩

lemma uses_iff (i : Instruction M) (v : ℕ) : Uses g i v ↔ Records g i v ∨ SecondOfPair g i v := by
  have hvre (d : Definition) : v ∈ d.vregs ↔ v = d.vreg 0 ∨ d.hasPairRepresentation = true ∧ v = d.vreg 1 := by
    rw [vregs]
    split_ifs with h <;> simp [h]
  simp only [Uses, Records, SecondOfPair, UsesWith, hvre, Finset.mem_singleton, and_or_left, exists_or, or_assoc]

lemma Approximates.mem_liveIn (h : Approximates g s₀ s) (hini : Visited g (finRange n) s₀)
    (henters : ¬Enters g b v) (hscan : Scan (Records g)
      (fun v => (∃ t ∈ finRange n, EdgeUse g b t v) ∨ v ∈ s.liveOut b) (g.block b).instructions v) :
    v ∈ s.liveIn b := by
  rcases (scan_or _ _).1 hscan with hscan | ⟨hout, hdef⟩
  · exact h.initial b ((hini.liveIn b (mem_finRange b) v).2 ⟨henters, hscan⟩)
  · refine h.transfer b (mem_sdiff.2 ⟨hout, ?_⟩)
    rw [h.kill]
    exact not_or.2 ⟨henters, hdef⟩

variable {rest : List (Instruction M)}

lemma scan_of_liveAt (hini : Visited g (finRange n) s₀) (h : Approximates g s₀ s)
    (hclo : ∀ b, ∀ succ ∈ (g.block b).successors, s.liveIn succ ⊆ s.liveOut b)
    (hlive : LiveAt g (Records g) v b rest) :
    Scan (Records g) (fun v => (∃ t ∈ finRange n, EdgeUse g b t v) ∨ v ∈ s.liveOut b) rest v := by
  induction hlive with
  | use huse => exact .inl huse
  | step hdef _ ih => exact .inr ⟨ih, hdef⟩
  | @phi b t hedge => exact .inl ⟨t, mem_finRange t, hedge⟩
  | @edge b t hsucc henters _ ih => exact .inr (hclo b t hsucc (h.mem_liveIn hini henters ih))

lemma computeLiveInAndLiveOutSets_add {fuel : ℕ} {s s' : Sets n M} (h : computeLiveInAndLiveOutSets g fuel s = some s')
    (more : ℕ) : computeLiveInAndLiveOutSets g (fuel + more) s = some s' := by
  induction fuel generalizing s with
  | zero => cases h
  | succ fuel ih =>
    rw [Nat.add_right_comm, computeLiveInAndLiveOutSets]
    rw [computeLiveInAndLiveOutSets] at h
    split_ifs at h ⊢
    · exact ih h
    · exact h

lemma liveAt_records
    (hseconds : ∀ b v, ¬Enters g b v → Scan (SecondOfPair g) (fun _ => False) (g.block b).instructions v →
      Live g (Records g) b v) (h : LiveAt g (Uses g) v b rest) :
    LiveAt g (Records g) v b rest ∨ Scan (SecondOfPair g) (fun _ => False) rest v := by
  induction h with
  | use huse => exact ((uses_iff _ _).1 huse).imp .use .inl
  | step hdef _ ih => exact ih.imp (.step hdef) fun hscan => .inr ⟨hscan, hdef⟩
  | phi hedge => exact .inl (.phi hedge)
  | @edge b t hsucc henters _ ih =>
    rcases ih with hlive | hscan
    · exact .inl (.edge hsucc henters hlive)
    · exact .inl (.edge hsucc henters (hseconds t v henters hscan).2)

lemma liveAt_uses (h : LiveAt g (Records g) v b rest) : LiveAt g (Uses g) v b rest := by
  induction h with
  | use huse => exact .use ((uses_iff _ _).2 (.inl huse))
  | step hdef _ ih => exact .step hdef ih
  | phi hedge => exact .phi hedge
  | edge hsucc henters _ ih => exact .edge hsucc henters ih

end Fixpoint

section
variable [DecidableEq M] [Fintype M]

lemma analyze_records (g : FlowGraph n M) (hrep : SameRepresentation g) (href : ReferredOnce g) :
    ∃ s, (∃ enough, ∀ fuel, enough ≤ fuel → analyze g fuel = some s) ∧
    (∀ b v, v ∈ s.liveOut b ↔ ∃ succ ∈ (g.block b).successors, v ∈ s.liveIn succ) ∧
    ∀ b v, v ∈ s.liveIn b ↔ Live g (Records g) b v := by
  have hini := computeInitialSets_visited hrep href
  have hsta : Approximates g (computeInitialSets g) (computeInitialSets g) := by
    refine ⟨fun b v => ?_, fun b => subset_rfl, fun b => ?_, fun b v hv => ?_, fun b v hv => ?_, fun b => ?_⟩
    · simp [hini.kill]
    · simp [hini.liveOut]
    · obtain ⟨henters, hscan⟩ := (hini.liveIn b (mem_finRange b) v).1 hv
      exact ⟨henters, liveAt_of_scan (fun ⟨t, _, hedge⟩ => .phi hedge) hscan⟩
    · rw [hini.liveOut] at hv
      cases hv
    · exact subset_biUnion_of_mem _ (mem_univ b)
  obtain ⟨enough, heno⟩ : ∃ enough, enough = n * (univ.biUnion (computeInitialSets g).liveIn).card + 1 := ⟨_, rfl⟩
  obtain ⟨s, hresult, hs, hclo⟩ := computeLiveInAndLiveOutSets_spec enough hsta (by omega)
  refine ⟨s, ⟨enough, fun fuel hfuel => ?_⟩, fun b v => ⟨hs.out b v, fun ⟨succ, hsucc, hv⟩ => hclo b succ hsucc hv⟩,
    fun b v => ⟨hs.live b v, fun ⟨henters, hlive⟩ => ?_⟩⟩
  · rw [← Nat.add_sub_cancel' hfuel]
    exact computeLiveInAndLiveOutSets_add hresult _
  · exact hs.mem_liveIn hini henters (scan_of_liveAt hini hs hclo hlive)

theorem analyze_exact (g : FlowGraph n M) (hrep : SameRepresentation g) (href : ReferredOnce g) :
    ∃ s, (∃ enough, ∀ fuel, enough ≤ fuel → analyze g fuel = some s) ∧
      (∀ b v, v ∈ s.liveOut b ↔ ∃ succ ∈ (g.block b).successors, v ∈ s.liveIn succ) ∧
      ((∀ b v, v ∈ s.liveIn b ↔ Live g (Uses g) b v) ↔ ∀ b v, ¬Enters g b v →
        Scan (SecondOfPair g) (fun _ => False) (g.block b).instructions v → Live g (Records g) b v) := by
  obtain ⟨s, hresult, hout, hlive⟩ := analyze_records g hrep href
  refine ⟨s, hresult, hout, fun h b v henters hscan => ?_, fun hseconds b v => ?_⟩
  · have huses : Scan (Uses g) (fun _ => False) (g.block b).instructions v :=
      scan_mono (fun i hi => (uses_iff i v).2 (.inr hi)) hscan
    exact (hlive b v).1 ((h b v).2 ⟨henters, liveAt_of_scan False.elim huses⟩)
  · rw [hlive]
    refine ⟨fun h => ⟨h.1, liveAt_uses h.2⟩, fun h => ?_⟩
    rcases liveAt_records hseconds h.2 with hrecords | hscan
    · exact ⟨h.1, hrecords⟩
    · exact hseconds b v h.1 hscan

def loopGraph : FlowGraph 2 Bool where
  block := fun b => if b.val = 0 then
    { predecessors := []
      successors := [Fin.last 1]
      phis := []
      initialDefinitions := [⟨0, false⟩]
      instructions := [⟨some ⟨1, false⟩, [⟨0, false⟩], []⟩] } else
    { predecessors := [⟨0, Nat.two_pos⟩, Fin.last 1]
      successors := [Fin.last 1]
      phis := [⟨⟨2, false⟩, [some ⟨0, false⟩, some ⟨3, false⟩]⟩]
      initialDefinitions := []
      instructions := [⟨some ⟨3, false⟩, [⟨2, false⟩], [.materialize false]⟩] }
  materialization := fun m => bif m then [.value ⟨1, false⟩] else [.materialize true]

theorem analyze_exact_loop : ∃ s, (∃ enough, ∀ fuel, enough ≤ fuel → analyze loopGraph fuel = some s) ∧
    (∀ b v, v ∈ s.liveOut b ↔ ∃ succ ∈ (loopGraph.block b).successors, v ∈ s.liveIn succ) ∧
    ∀ b v, v ∈ s.liveIn b ↔ Live loopGraph (Uses loopGraph) b v := by
  have hrep : SameRepresentation loopGraph := by
    simp [SameRepresentation, loopGraph]
  have href : ReferredOnce loopGraph := by
    simp [ReferredOnce, loopGraph, finRange_succ, Refers]
  have hpair (i : Instruction Bool) (v : ℕ) : ¬SecondOfPair loopGraph i v := by
    rintro ⟨m, -, d, hd, hpair, -⟩
    cases m <;> simp [loopGraph] at hd
    simp [hd] at hpair
  obtain ⟨s, hresult, hout, hexact⟩ := analyze_exact loopGraph hrep href
  refine ⟨s, hresult, hout, hexact.2 fun b v _ hscan => ?_⟩
  have hnone : Scan (fun _ _ => False) (fun _ => False) (loopGraph.block b).instructions v :=
    scan_mono (fun i hi => hpair i v hi) hscan
  by_cases hb : b = 0 <;> simp [loopGraph, hb, Scan] at hnone

def pairGraph : FlowGraph 2 Unit where
  block := fun b => if b.val = 0 then
    { predecessors := []
      successors := [Fin.last 1]
      phis := []
      initialDefinitions := []
      instructions := [⟨some ⟨0, true⟩, [], []⟩] } else
    { predecessors := [⟨0, Nat.two_pos⟩]
      successors := []
      phis := []
      initialDefinitions := []
      instructions := [⟨none, [], [.materialize ()]⟩] }
  materialization := fun _ => [.value ⟨0, true⟩]

theorem analyze_pair : SameRepresentation pairGraph ∧ ReferredOnce pairGraph ∧
    (analyze pairGraph 3).map (fun s => s.liveIn 1) = some {0} ∧ Live pairGraph (Uses pairGraph) 1 1 := by
  refine ⟨?_, ?_, ?_, ?_, ?_⟩
  · simp [SameRepresentation, pairGraph]
  · simp [ReferredOnce, pairGraph, finRange_succ, Refers]
  · decide +kernel
  · simp [Enters, pairGraph]
  · exact LiveAt.use (.inr (.inr ⟨(), ⟨(), by simp, .refl⟩, ⟨0, true⟩, by simp [pairGraph], by decide⟩))

end
end DartSdk.Liveness
