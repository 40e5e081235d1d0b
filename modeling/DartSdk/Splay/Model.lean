import Mathlib.Data.Int.Init
import Mathlib.Tactic.Common

/-!
`_SplayTree` and `SplayTreeMap` of `splay_tree.dart` on a heap.  The key and the value of a node are
final, so a reference to a node carries them; the two child fields are in the heap.
-/

namespace DartSdk.Splay

structure Node (K V : Type) where
  id : ℕ
  key : K
  value : V
deriving DecidableEq

inductive Side
  | left
  | right
deriving DecidableEq

def Side.opp : Side → Side
  | .left => .right
  | .right => .left

abbrev Links (K V : Type) := Side → ℕ → Option (Node K V)

variable {K V : Type}

def Links.set (links : Links K V) (σ : Side) (x : Node K V) (child : Option (Node K V)) :
    Links K V :=
  fun τ i => if τ = σ ∧ i = x.id then child else links τ i

structure SplayTree (K V : Type) where
  links : Links K V
  root : Option (Node K V)
  count : ℤ
  modificationCount : ℕ
  splayCount : ℕ
  allocated : ℕ

def SplayTree.empty : SplayTree K V where
  links _ _ := none
  root := none
  count := 0
  modificationCount := 0
  splayCount := 0
  allocated := 0

structure Splaying (K V : Type) where
  links : Links K V
  current : Node K V
  spine : Side → Option (Node K V)
  newTree : Side → Option (Node K V)
  comp : ℤ

def Side.follows : Side → ℤ → Prop
  | .left, comp => comp > 0
  | .right, comp => comp < 0

instance (σ : Side) (comp : ℤ) : Decidable (σ.follows comp) := by
  cases σ <;> exact inferInstanceAs (Decidable (_ < _))

namespace Splaying

def link (σ : Side) (s : Splaying K V) (next : Node K V) : Splaying K V where
  links := match s.spine σ.opp with
    | none => s.links
    | some last => s.links.set σ last (some s.current)
  current := next
  spine τ := if τ = σ.opp then some s.current else s.spine τ
  newTree τ := if τ = σ.opp ∧ s.spine σ.opp = none then some s.current else s.newTree τ
  comp := s.comp

def rotate (σ : Side) (s : Splaying K V) (child : Node K V) : Splaying K V where
  links := (s.links.set σ s.current (s.links σ.opp child.id)).set σ.opp child (some s.current)
  current := child
  spine := s.spine
  newTree := s.newTree
  comp := s.comp

variable (compare : K → K → ℤ) (key : K)

def descend (σ : Side) (s : Splaying K V) : Splaying K V × Bool :=
  match s.links σ s.current.id with
  | none => (s, true)
  | some child =>
    let s := { s with comp := compare child.key key }
    if σ.follows s.comp then
      let s := s.rotate σ child
      match s.links σ s.current.id with
      | none => (s, true)
      | some next => (s.link σ next, false)
    else (s.link σ child, false)

def loop : ℕ → Splaying K V → Option (Splaying K V)
  | 0, _ => none
  | fuel + 1, s =>
    let s := { s with comp := compare s.current.key key }
    if s.comp > 0 then
      match descend compare key .left s with
      | (s, true) => some s
      | (s, false) => loop fuel s
    else if s.comp < 0 then
      match descend compare key .right s with
      | (s, true) => some s
      | (s, false) => loop fuel s
    else some s

def assemble (σ : Side) (s : Splaying K V) : Splaying K V :=
  match s.spine σ with
  | none => s
  | some last =>
    { s with
      links := (s.links.set σ.opp last (s.links σ s.current.id)).set σ s.current (s.newTree σ) }

end Splaying

def splayEnd (σ : Side) : ℕ → Links K V → Node K V → Option (Links K V × Node K V)
  | 0, _, _ => none
  | fuel + 1, links, current =>
    match links σ current.id with
    | none => some (links, current)
    | some next =>
      splayEnd σ fuel ((links.set σ current (links σ.opp next.id)).set σ.opp next (some current)) next

def endOf (σ : Side) (links : Links K V) : ℕ → Node K V → Option (Node K V)
  | 0, _ => none
  | fuel + 1, node =>
    match links σ node.id with
    | none => some node
    | some next => endOf σ links fuel next

namespace SplayTree
variable (compare : K → K → ℤ)

def splay (s : SplayTree K V) (key : K) : Option (SplayTree K V × ℤ) :=
  match s.root with
  | none => some (s, -1)
  | some root => do
    let r ← Splaying.loop compare key (s.allocated + 1) {
      links := s.links
      current := root
      spine := fun _ => none
      newTree := fun _ => none
      comp := 0 }
    let r := (r.assemble .left).assemble .right
    if root.id ≠ r.current.id then
      some ({ s with links := r.links, root := some r.current, splayCount := s.splayCount + 1 }, r.comp)
    else some ({ s with links := r.links }, r.comp)

def remove (s : SplayTree K V) (key : K) : Option (SplayTree K V × Option V) :=
  if s.root = none then some (s, none)
  else do
    let (s, comp) ← s.splay compare key
    if comp ≠ 0 then some (s, none)
    else
      match s.root with
      | none => none
      | some root =>
        match s.links .left root.id with
        | none =>
          some ({ s with
            root := s.links .right root.id
            count := s.count - 1
            modificationCount := s.modificationCount + 1 }, some root.value)
        | some left => do
          let right := s.links .right root.id
          let (links, newRoot) ← splayEnd .right (s.allocated + 1) s.links left
          some ({ s with
            links := links.set .right newRoot right
            root := some newRoot
            count := s.count - 1
            modificationCount := s.modificationCount + 1 }, some root.value)

def addNewRoot (s : SplayTree K V) (key : K) (value : V) (comp : ℤ) : SplayTree K V :=
  let node : Node K V := ⟨s.allocated, key, value⟩
  let s := { s with
    count := s.count + 1
    modificationCount := s.modificationCount + 1
    allocated := s.allocated + 1
    links := (s.links.set .left node none).set .right node none }
  match s.root with
  | none => { s with root := some node }
  | some root =>
    let σ := if comp < 0 then Side.left else Side.right
    { s with
      links := ((s.links.set σ node (some root)).set σ.opp node (s.links σ.opp root.id)).set σ.opp root none
      root := some node }

def replaceValue (s : SplayTree K V) (value : V) : Option (SplayTree K V) :=
  match s.root with
  | none => none
  | some root =>
    let node : Node K V := ⟨s.allocated, root.key, value⟩
    some { s with
      links := (s.links.set .left node (s.links .left root.id)).set .right node (s.links .right root.id)
      root := some node
      splayCount := s.splayCount + 1
      allocated := s.allocated + 1 }

def endNode (σ : Side) (s : SplayTree K V) : Option (SplayTree K V × Option (Node K V)) :=
  match s.root with
  | none => some (s, none)
  | some root => do
    let (links, node) ← splayEnd σ (s.allocated + 1) s.links root
    some ({ s with links := links, root := some node }, some node)

def clear (s : SplayTree K V) : SplayTree K V :=
  { s with root := none, count := 0, modificationCount := s.modificationCount + 1 }

def get (s : SplayTree K V) (key : K) : Option (SplayTree K V × Option V) :=
  if s.root = none then some (s, none)
  else do
    let (s, comp) ← s.splay compare key
    if comp = 0 then
      match s.root with
      | none => none
      | some root => some (s, some root.value)
    else some (s, none)

def set (s : SplayTree K V) (key : K) (value : V) : Option (SplayTree K V) := do
  let (s, comp) ← s.splay compare key
  if comp = 0 then s.replaceValue value else some (s.addNewRoot key value comp)

def putIfAbsent (s : SplayTree K V) (key : K) (value : V) : Option (SplayTree K V × V) := do
  let (s, comp) ← s.splay compare key
  if comp = 0 then
    match s.root with
    | none => none
    | some root => some (s, root.value)
  else some (s.addNewRoot key value comp, value)

def update (s : SplayTree K V) (key : K) (update : V → V) (ifAbsent : Option V) :
    Option (SplayTree K V × Option V) := do
  let (s, comp) ← s.splay compare key
  if comp = 0 then
    match s.root with
    | none => none
    | some root => do
      let newValue := update root.value
      let s ← s.replaceValue newValue
      some (s, some newValue)
  else
    match ifAbsent with
    | none => some (s, none)
    | some newValue => some (s.addNewRoot key newValue comp, some newValue)

def containsKey (s : SplayTree K V) (key : K) : Option (SplayTree K V × Bool) := do
  let (s, comp) ← s.splay compare key
  some (s, comp = 0)

def endKey (σ : Side) (s : SplayTree K V) : Option (SplayTree K V × Option K) := do
  let (s, node) ← s.endNode σ
  some (s, node.map Node.key)

def neighbour (σ : Side) (s : SplayTree K V) (key : K) : Option (SplayTree K V × Option K) :=
  if s.root = none then some (s, none)
  else do
    let (s, comp) ← s.splay compare key
    match s.root with
    | none => none
    | some root =>
      if σ.opp.follows comp then some (s, some root.key)
      else
        match s.links σ root.id with
        | none => some (s, none)
        | some node => do
          let node ← endOf σ.opp s.links (s.allocated + 1) node
          some (s, some node.key)

/-- `SplayTreeSet.contains`. -/
def contains (s : SplayTree K V) (element : K) : Option (SplayTree K V × Bool) := do
  let (s, comp) ← s.splay compare element
  some (s, comp = 0)

/-- `SplayTreeSet.lookup`. -/
def lookup (s : SplayTree K V) (object : K) : Option (SplayTree K V × Option K) := do
  let (s, comp) ← s.splay compare object
  if comp ≠ 0 then some (s, none)
  else
    match s.root with
    | none => none
    | some root => some (s, some root.key)

/-- `SplayTreeSet.first` and `SplayTreeSet.last`; no element stands for the error of an empty set. -/
def endElement (σ : Side) (s : SplayTree K V) : Option (SplayTree K V × Option K) :=
  if s.count = 0 then some (s, none) else s.endKey σ

end SplayTree
end DartSdk.Splay
