import Mathlib.Data.Fintype.Card

/-!
The dependency walker: Tarjan's algorithm over nodes that keep their index and low link between
walks, while the numbering of each walk restarts at one.
-/

namespace DartSdk.Dependencies

inductive Call (V : Type*) where
  | evaluate (v : V)
  | evaluateScc (scc : List V)
  deriving DecidableEq

variable {V : Type*}

def Call.nodes : Call V → List V
  | .evaluate v => [v]
  | .evaluateScc scc => scc

structure State (V : Type*) where
  /-- The nodes' `_index`. -/
  nodeIndex : V → ℕ
  /-- The nodes' `_lowLink`. -/
  lowLink : V → ℕ
  isEvaluated : V → Bool
  /-- The index of the next node that is freshly visited. -/
  index : ℕ
  /-- The last element of the source's list comes first. -/
  stack : List V
  calls : List (Call V)

def State.fresh (evaluated : V → Bool) : State V := ⟨fun _ => 0, fun _ => 0, evaluated, 1, [], []⟩

variable [DecidableEq V]

def State.call (c : Call V) (s : State V) : State V :=
  { s with isEvaluated := fun v => s.isEvaluated v || decide (v ∈ c.nodes), calls := s.calls ++ [c] }

def State.enter (node : V) (s : State V) : State V :=
  { s with
    nodeIndex := Function.update s.nodeIndex node s.index
    lowLink := Function.update s.lowLink node s.index
    index := s.index + 1
    stack := node :: s.stack }

def State.lower (node : V) (value : ℕ) (s : State V) : State V :=
  if value < s.lowLink node then { s with lowLink := Function.update s.lowLink node value } else s

def removeUntil (node : V) : List V → Option (List V × List V)
  | [] => none
  | otherNode :: stack =>
    if otherNode = node then some ([otherNode], stack)
    else do
      let (scc, rest) ← removeUntil node stack
      some (otherNode :: scc, rest)

def evaluateComponent (node : V) (hasTrivialCycle : Bool) (s : State V) : Option (State V) :=
  match s.stack with
  | [] => none
  | last :: stack =>
    if last = node then
      some (State.call (if hasTrivialCycle then .evaluateScc [node] else .evaluate node) { s with stack := stack })
    else do
      let (scc, rest) ← removeUntil node s.stack
      some (State.call (.evaluateScc scc) { s with stack := rest })

def considerDependencies (strongConnect : V → State V → Option (State V)) (node : V) :
    List V → State V → Bool → Option (State V × Bool)
  | [], s, hasTrivialCycle => some (s, hasTrivialCycle)
  | dependency :: dependencies, s, hasTrivialCycle =>
    if s.isEvaluated dependency then
      considerDependencies strongConnect node dependencies s hasTrivialCycle
    else if node = dependency then
      considerDependencies strongConnect node dependencies s true
    else if s.nodeIndex dependency = 0 then do
      let s ← strongConnect dependency s
      considerDependencies strongConnect node dependencies (s.lower node (s.lowLink dependency)) hasTrivialCycle
    else
      considerDependencies strongConnect node dependencies (s.lower node (s.nodeIndex dependency)) hasTrivialCycle

variable (getDependencies : V → List V)

def strongConnect : ℕ → V → State V → Option (State V)
  | 0, _, _ => none
  | fuel + 1, node, s => do
    let (s, hasTrivialCycle) ←
      considerDependencies (strongConnect fuel) node (getDependencies node) (s.enter node) false
    if s.lowLink node = s.nodeIndex node then evaluateComponent node hasTrivialCycle s else some s

def walk (fuel : ℕ) (startingPoint : V) (s : State V) : Option (State V) :=
  if s.isEvaluated startingPoint then some s
  else strongConnect getDependencies fuel startingPoint { s with index := 1, stack := [] }

def walks (fuel : ℕ) : List V → State V → Option (State V)
  | [], s => some s
  | startingPoint :: rest, s => do
    let s ← walk getDependencies fuel startingPoint s
    walks fuel rest s

end DartSdk.Dependencies
