import DartSdk.Library.ParallelAssign

/-!
`ParallelMoveResolver`: a parallel move becomes a schedule of single moves and swaps.
-/

namespace DartSdk.Moves
open ParallelAssign
variable {C L V : Type} [DecidableEq C] [DecidableEq L]

abbrev Location (C L : Type) := Option (Operand C L)

def Location.isConstant : Location C L → Bool
  | some (.constant _) => true
  | _ => false

structure MoveOperands (C L : Type) where
  dest : Location C L
  src : Location C L
deriving DecidableEq

namespace MoveOperands
variable (m : MoveOperands C L)

def isEliminated : Bool := m.src.isNone

def isPending : Bool := m.dest.isNone && !m.src.isNone

def markPending : MoveOperands C L := { m with dest := none }

def clearPending (dest : Location C L) : MoveOperands C L := { m with dest := dest }

def eliminate : MoveOperands C L := ⟨none, none⟩

def blocks (loc : Location C L) : Bool := !m.isEliminated && m.src = loc

def isRedundant : Bool := m.isEliminated || m.dest.isNone || m.src = m.dest

def setSrc (value : Location C L) : MoveOperands C L := { m with src := value }

end MoveOperands

inductive OpKind
  | nop | move | swap
deriving DecidableEq

structure Op (C L : Type) where
  kind : OpKind
  operands : MoveOperands C L
deriving DecidableEq

structure Resolver (C L : Type) where
  moves : List (MoveOperands C L)
  scheduledOps : List (Op C L)
deriving DecidableEq

namespace Resolver

def set (s : Resolver C L) (index : ℕ) (move : MoveOperands C L) : Resolver C L :=
  { s with moves := s.moves.set index move }

def addMoveToSchedule (index : ℕ) (s : Resolver C L) : Option (Resolver C L) := do
  let move ← s.moves[index]?
  some { (s.set index .eliminate) with scheduledOps := s.scheduledOps ++ [⟨.move, move⟩] }

def afterSwap (source destination : Location C L) (other : MoveOperands C L) :
    MoveOperands C L :=
  if other.blocks source then other.setSrc destination
  else if other.blocks destination then other.setSrc source
  else other

def addSwapToSchedule (index : ℕ) (s : Resolver C L) : Option (Resolver C L) := do
  let move ← s.moves[index]?
  some {
    moves := (s.moves.set index .eliminate).map (afterSwap move.src move.dest)
    scheduledOps := s.scheduledOps ++ [⟨.swap, move⟩] }

def finishMove (index : ℕ) (destination : Location C L) (s : Resolver C L) : Option (Resolver C L) := do
  let move ← s.moves[index]?
  guard move.isPending
  let s := s.set index (move.clearPending destination)
  if move.src = destination then some (s.set index .eliminate)
  else
    match s.moves.find? (·.blocks destination) with
    | some other => do
      guard other.isPending
      addSwapToSchedule index s
    | none => addMoveToSchedule index s

def performIfBlocking (perform : ℕ → Resolver C L → Option (Resolver C L))
    (destination : Location C L) (s : Resolver C L) (i : ℕ) : Option (Resolver C L) := do
  let otherMove ← s.moves[i]?
  if otherMove.blocks destination && !otherMove.isPending then perform i s else some s

def performMove : ℕ → ℕ → Resolver C L → Option (Resolver C L)
  | 0, _, _ => none
  | fuel + 1, index, s => do
    let move ← s.moves[index]?
    guard (!move.isPending)
    guard (!move.isRedundant)
    let s ← (List.range s.moves.length).foldlM (performIfBlocking (performMove fuel) move.dest)
      (s.set index move.markPending)
    finishMove index move.dest s

end Resolver

def buildInitialMoveList (parallelMove : List (MoveOperands C L)) : List (MoveOperands C L) :=
  parallelMove.filter (!·.isRedundant)

def moveSchedule (ops : List (Op C L)) : List (Op C L) := ops.filter (·.kind ≠ .nop)

def performUnlessConstant (s : Resolver C L) (i : ℕ) : Option (Resolver C L) := do
  let move ← s.moves[i]?
  if !move.isEliminated && !move.src.isConstant then s.performMove s.moves.length i else some s

def resolve (parallelMove : List (MoveOperands C L)) : Option (List (Op C L)) := do
  let moves := buildInitialMoveList parallelMove
  let s ← (List.range moves.length).foldlM performUnlessConstant ⟨moves, []⟩
  let constants := s.moves.filter (!·.isEliminated)
  guard (constants.all (·.src.isConstant))
  some (moveSchedule (s.scheduledOps ++ constants.map (Op.mk .move)))

end DartSdk.Moves
