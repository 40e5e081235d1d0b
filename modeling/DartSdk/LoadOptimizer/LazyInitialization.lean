import Mathlib.Data.Finset.Basic

/-!
The pass of the load optimizer that removes calls of lazy initializers: it marks the places that are
initialized in each block, spreads the marks through phis and along edges, and clears the calls of
the loads from marked places.
-/

namespace DartSdk.LoadOptimizer

inductive Place (D F S : Type) where
  | instanceField (receiver : D) (slot : F)
  | staticField (field : S)
  deriving DecidableEq

inductive Instr (D F S : Type) where
  | loadField (dest receiver : D) (slot : F) (callsInitializer : Bool)
  | storeField (receiver : D) (slot : F) (sentinel : Bool)
  | loadStaticField (dest : D) (field : S) (callsInitializer : Bool)
  | storeStaticField (field : S) (sentinel : Bool)
  | other (dest : Option D)
  deriving DecidableEq

section
variable {D F S : Type}

namespace Instr

def place : Instr D F S → Option (Place D F S)
  | .loadField _ receiver slot _ => some (.instanceField receiver slot)
  | .storeField receiver slot _ => some (.instanceField receiver slot)
  | .loadStaticField _ field _ => some (.staticField field)
  | .storeStaticField field _ => some (.staticField field)
  | .other _ => none

def isLoad : Instr D F S → Bool
  | .loadField .. | .loadStaticField .. => true
  | _ => false

def isStore : Instr D F S → Bool
  | .storeField .. | .storeStaticField .. => true
  | _ => false

def isSentinelStore : Instr D F S → Bool
  | .storeField _ _ sentinel | .storeStaticField _ sentinel => sentinel
  | _ => false

def callsInitializer : Instr D F S → Bool
  | .loadField _ _ _ calls | .loadStaticField _ _ calls => calls
  | _ => false

def clearCallsInitializer : Instr D F S → Instr D F S
  | .loadField dest receiver slot _ => .loadField dest receiver slot false
  | .loadStaticField dest field _ => .loadStaticField dest field false
  | i => i

def dest : Instr D F S → Option D
  | .loadField dest .. | .loadStaticField dest .. => some dest
  | .other dest => dest
  | _ => none

end Instr

structure Phi (D : Type) where
  dest : D
  /-- One input for each predecessor. -/
  inputs : List D

structure Block (D F S B : Type) where
  predecessors : List B
  phis : List (Phi D)
  instrs : List (Instr D F S)

end

variable {D F S B : Type}

inductive Path (block : B → Block D F S B) (graphEntry : B) : B → List B → Prop
  | entry : Path block graphEntry graphEntry [graphEntry]
  | edge {p b : B} {visited : List B} : Path block graphEntry p visited → p ∈ (block b).predecessors →
      Path block graphEntry b (b :: visited)

/-- A flow graph in SSA form: a definition made by an instruction comes before the accesses of its
fields on every path, and is no phi; the predecessors of a join end with a jump to it. -/
structure FlowGraph (D F S B : Type) where
  block : B → Block D F S B
  reversePostorder : List B
  graphEntry : B
  inputs_length : ∀ b, ∀ phi ∈ (block b).phis, phi.inputs.length = (block b).predecessors.length
  dominated : ∀ b (m : ℕ) (i : Instr D F S) d, (block b).instrs[m]? = some i → i.dest = some d →
    ∀ c (n : ℕ) (j : Instr D F S) slot,
    (block c).instrs[n]? = some j → j.place = some (.instanceField d slot) →
    c = b ∧ m < n ∨ c ≠ b ∧ ∀ visited, Path block graphEntry c visited → b ∈ visited
  not_phi : ∀ b (i : Instr D F S) d, i ∈ (block b).instrs → i.dest = some d → ∀ c, ∀ phi ∈ (block c).phis, phi.dest ≠ d
  goto_join : ∀ b c p, (block b).phis ≠ [] → p ∈ (block b).predecessors → p ∈ (block c).predecessors → c = b

section
variable [DecidableEq D] [DecidableEq F] [DecidableEq S] [DecidableEq B]

def considerInstr (gen : Finset (Place D F S)) (i : Instr D F S) : Instr D F S × Finset (Place D F S) × Bool :=
  match i.place with
  | none => (i, gen, false)
  | some place =>
    if i.isStore && !i.isSentinelStore then (i, insert place gen, false)
    else if i.isLoad then
      if i.callsInitializer then
        if place ∈ gen then (i.clearCallsInitializer, insert place gen, false)
        else (i, insert place gen, true)
      else (i, insert place gen, false)
    else (i, gen, false)

def considerInstrs : Finset (Place D F S) → List (Instr D F S) → List (Instr D F S) × Finset (Place D F S) × Bool
  | gen, [] => ([], gen, false)
  | gen, i :: is =>
    let (i', gen', left) := considerInstr gen i
    let (is', gen'', left') := considerInstrs gen' is
    (i' :: is', gen'', left || left')

abbrev Move (D F S : Type) := Place D F S × Place D F S

def spreadThroughPhis (gen : Finset (Place D F S)) (moves : List (Move D F S)) : Finset (Place D F S) :=
  moves.foldl (fun gen move => if move.1 ≠ move.2 ∧ move.1 ∈ gen then insert move.2 gen else gen) gen

def distinct {α : Type} [DecidableEq α] (as : List α) : List α := as.reverse.dedup.reverse

namespace FlowGraph
variable (G : FlowGraph D F S B)

def phisOf (d : D) : List (B × Phi D) :=
  G.reversePostorder.flatMap fun b => ((G.block b).phis.filter fun phi => phi.dest = d).map fun phi => (b, phi)

def movesInto : Place D F S → List (B × Move D F S)
  | .instanceField d slot => (G.phisOf d).flatMap fun (b, phi) =>
      List.zipWith (fun p input => (p, (.instanceField input slot, .instanceField d slot)))
        (G.block b).predecessors phi.inputs
  | .staticField _ => []

/-- The loop of `ComputePhiMoves`, which adds the places of phi inputs to the list it goes through.
The fuel bounds the number of places. -/
def computePhiMoves : ℕ → List (Place D F S) → List (Place D F S) → Option (List (B × Move D F S))
  | _, _, [] => some []
  | 0, _, _ :: _ => none
  | fuel + 1, done, place :: places => do
    let moves := G.movesInto place
    let inputs := (distinct (moves.map fun move => move.2.1)).filter fun input => input ∉ done ++ place :: places
    let rest ← computePhiMoves fuel (done ++ [place]) (places ++ inputs)
    some (moves ++ rest)

def numberPlaces : List (Place D F S) :=
  distinct (G.reversePostorder.flatMap fun b => (G.block b).instrs.filterMap Instr.place)

structure Sets (D F S B : Type) where
  inn : B → Finset (Place D F S)
  gen : B → Finset (Place D F S)

def incoming (all : Finset (Place D F S)) (sets : Sets D F S B) (b : B) : Finset (Place D F S) :=
  if b = G.graphEntry then ∅ else (G.block b).predecessors.foldl (fun temp p => temp ∩ sets.gen p) all

def propagateBlock (all : Finset (Place D F S)) (b : B) (state : Sets D F S B × Bool) : Sets D F S B × Bool :=
  let (sets, changed) := state
  let temp := G.incoming all sets b
  if temp = sets.inn b then (sets, changed)
  else (⟨Function.update sets.inn b (sets.inn b ∪ temp), Function.update sets.gen b (sets.gen b ∪ temp)⟩, true)

def propagate (all : Finset (Place D F S)) : ℕ → Sets D F S B → Option (Sets D F S B)
  | 0, _ => none
  | fuel + 1, sets =>
    let (sets, changed) := G.reversePostorder.foldl (fun state b => G.propagateBlock all b state) (sets, false)
    if changed then propagate all fuel sets else some sets

structure Optimized (D F S B : Type) where
  instrs : B → List (Instr D F S)
  sets : Sets D F S B

def initialGen (moves : List (B × Move D F S)) (b : B) : Finset (Place D F S) :=
  spreadThroughPhis (considerInstrs ∅ (G.block b).instrs).2.1
    ((moves.filter fun move => move.1 = b).map fun move => move.2)

def optimizeLazyInitialization (fuel : ℕ) : Option (Optimized D F S B) := do
  let places := G.numberPlaces
  let moves ← G.computePhiMoves fuel [] places
  let all := (places ++ moves.map fun move => move.2.1).toFinset
  let instrs := fun b => (considerInstrs ∅ (G.block b).instrs).1
  let initial : Sets D F S B := ⟨fun _ => ∅, G.initialGen moves⟩
  if G.reversePostorder.any fun b => (considerInstrs ∅ (G.block b).instrs).2.2 then
    let sets ← G.propagate all fuel initial
    some ⟨fun b => (instrs b).map fun i =>
      if i.callsInitializer ∧ ∃ place ∈ i.place, place ∈ sets.inn b then i.clearCallsInitializer else i, sets⟩
  else some ⟨instrs, initial⟩

end FlowGraph
end
end DartSdk.LoadOptimizer
