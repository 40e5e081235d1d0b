import Mathlib.Data.Fintype.Card
import Mathlib.Data.Finset.Lattice.Fold

/-!
`SSALivenessAnalysis` of `backend/linearscan.cc` with the fixpoint of `LivenessAnalysis` in `backend/flow_graph.cc`.
Blocks are named by their postorder numbers.
-/

namespace DartSdk.Liveness
open Function

structure Definition where
  ssaTempIndex : ℕ
  hasPairRepresentation : Bool
deriving DecidableEq

namespace Definition

def vreg (d : Definition) (index : ℕ) : ℕ := d.ssaTempIndex * 2 + index

def vregs (d : Definition) : Finset ℕ := if d.hasPairRepresentation then {d.vreg 0, d.vreg 1} else {d.vreg 0}

end Definition

inductive EnvValue (M : Type)
  | value (d : Definition)
  | materialize (m : M)
  | other

structure Instruction (M : Type) where
  definition : Option Definition
  inputs : List Definition
  env : List (EnvValue M)

structure Phi where
  definition : Definition
  inputs : List (Option Definition)

structure Block (n : ℕ) (M : Type) where
  instructions : List (Instruction M)
  phis : List Phi
  initialDefinitions : List Definition
  successors : List (Fin n)
  predecessors : List (Fin n)

structure FlowGraph (n : ℕ) (M : Type) where
  block : Fin n → Block n M
  materialization : M → List (EnvValue M)

structure Sets (n : ℕ) (M : Type) where
  kill : Fin n → Finset ℕ := fun _ => ∅
  liveIn : Fin n → Finset ℕ := fun _ => ∅
  liveOut : Fin n → Finset ℕ := fun _ => ∅
  visited : Finset M := ∅

variable {n : ℕ} {M : Type} [DecidableEq M]

def visitValue (own : Definition → Finset ℕ) (deep : M → Finset M × Finset ℕ → Finset M × Finset ℕ)
    (s : Finset M × Finset ℕ) : EnvValue M → Finset M × Finset ℕ
  | .value d => (s.1, s.2 ∪ own d)
  | .materialize m => deep m s
  | .other => s

def deepLiveness (g : FlowGraph n M) : ℕ → M → Finset M × Finset ℕ → Finset M × Finset ℕ
  | 0, _, s => s
  | fuel + 1, m, s =>
    if m ∈ s.1 then s
    else (g.materialization m).foldl (visitValue (fun d => {d.vreg 0}) (deepLiveness g fuel)) (insert m s.1, s.2)

def definedBy (i : Instruction M) : Finset ℕ := (i.definition.map Definition.vregs).getD ∅

def visitInstruction [Fintype M] (g : FlowGraph n M) (i : Instruction M) (s : Finset M × Finset ℕ × Finset ℕ) :
    Finset M × Finset ℕ × Finset ℕ :=
  let live := i.inputs.foldl (fun live d => live ∪ d.vregs) (s.2.2 \ definedBy i)
  let r := i.env.foldl (visitValue Definition.vregs (deepLiveness g (Fintype.card M + 1))) (s.1, live)
  (r.1, s.2.1 ∪ definedBy i, r.2)

def kill (b : Fin n) (vregs : Finset ℕ) (s : Sets n M) : Sets n M :=
  { s with
    kill := update s.kill b (s.kill b ∪ vregs)
    liveIn := update s.liveIn b (s.liveIn b \ vregs) }

def addUse (s : Sets n M) (use : Fin n × ℕ) : Sets n M :=
  if use.2 ∈ s.kill use.1 then s
  else { s with liveIn := update s.liveIn use.1 (insert use.2 (s.liveIn use.1)) }

def Phi.uses (phi : Phi) (predecessors : List (Fin n)) : List (Fin n × ℕ) :=
  (predecessors.zip phi.inputs).flatMap fun (pred, input) =>
    match input with
    | none => []
    | some d =>
      if phi.definition.hasPairRepresentation then [(pred, d.vreg 0), (pred, d.vreg 1)] else [(pred, d.vreg 0)]

def visitPhi (b : Fin n) (predecessors : List (Fin n)) (s : Sets n M) (phi : Phi) : Sets n M :=
  (phi.uses predecessors).foldl addUse (kill b phi.definition.vregs s)

def visitBlock [Fintype M] (g : FlowGraph n M) (s : Sets n M) (b : Fin n) : Sets n M :=
  let r := (g.block b).instructions.foldr (visitInstruction g) (s.visited, s.kill b, s.liveIn b)
  let s := { s with
    visited := r.1
    kill := update s.kill b r.2.1
    liveIn := update s.liveIn b r.2.2 }
  let s := (g.block b).phis.foldl (visitPhi b (g.block b).predecessors) s
  (g.block b).initialDefinitions.foldl (fun s d => kill b d.vregs s) s

def computeInitialSets [Fintype M] (g : FlowGraph n M) : Sets n M := (List.finRange n).foldl (visitBlock g) {}

def updateBlock (g : FlowGraph n M) (s : Sets n M × Bool) (b : Fin n) : Sets n M × Bool :=
  let liveOut := (g.block b).successors.foldl (fun out succ => out ∪ s.1.liveIn succ) (s.1.liveOut b)
  if liveOut = s.1.liveOut b then s
  else
    let liveIn := s.1.liveIn b ∪ (liveOut \ s.1.kill b)
    ({ s.1 with
      liveOut := update s.1.liveOut b liveOut
      liveIn := update s.1.liveIn b liveIn }, s.2 || decide (liveIn ≠ s.1.liveIn b))

def computeLiveInAndLiveOutSets (g : FlowGraph n M) : ℕ → Sets n M → Option (Sets n M)
  | 0, _ => none
  | fuel + 1, s =>
    let r := (List.finRange n).foldl (updateBlock g) (s, false)
    if r.2 then computeLiveInAndLiveOutSets g fuel r.1 else some r.1

def analyze [Fintype M] (g : FlowGraph n M) (fuel : ℕ) : Option (Sets n M) :=
  computeLiveInAndLiveOutSets g fuel (computeInitialSets g)

end DartSdk.Liveness
