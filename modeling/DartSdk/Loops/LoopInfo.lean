import DartSdk.Loops.InductionVar

namespace DartSdk.Loops

abbrev Block := ℕ
abbrev Instruction := ℕ

inductive BinaryOpKind
  | add
  | sub
  | mul
  | other
deriving DecidableEq

inductive UnaryOpKind
  | negate
  | other
deriving DecidableEq

/-- `passThrough` stands for boxing, unboxing, integer conversions and every definition with a
redefined value; a bounds check passes its index through. -/
inductive Node
  | constant (value : Int64)
  | phi (inputs : List Def)
  | binaryIntegerOp (op : BinaryOpKind) (left right : Def)
  | unaryIntegerOp (op : UnaryOpKind) (value : Def)
  | constraint (value : Def) (target : Bool)
  | passThrough (value : Def)
  | checkBound (index length : Def)
  | loadField (immutableLength : Bool)
  | other
deriving DecidableEq

namespace Node

def redefined : Node → Option Def
  | constraint v _ => some v
  | passThrough v => some v
  | checkBound i _ => some i
  | _ => none

def inputs : Node → List Def
  | phi vs => vs
  | binaryIntegerOp _ l r => [l, r]
  | unaryIntegerOp _ v => [v]
  | constraint v _ => [v]
  | passThrough v => [v]
  | checkBound i l => [i, l]
  | _ => []

def isPhi : Node → Bool
  | phi _ => true
  | _ => false

end Node

inductive Representation
  | tagged
  | unboxedInt64
  | unboxedInt32
  | unboxedUint32
deriving DecidableEq

/-- The bits of its result that an operation or a truncating conversion of the representation keeps. -/
def Representation.truncate : Representation → Int64 → Int64
  | tagged, x | unboxedInt64, x => x
  | unboxedInt32, x => x.toInt32.toInt64
  | unboxedUint32, x => x.toUInt64.toUInt32.toUInt64.toInt64

structure FlowGraph where
  node : Def → Node
  representation : Def → Representation
  block : Def → Block
  isDominatedBy : Instruction → Instruction → Bool
  ordered : ∀ d : ℕ, (node d).isPhi = false → ∀ v : ℕ, v ∈ (node d).inputs → v < d

namespace FlowGraph
variable (g : FlowGraph)

lemma redefined_lt {d v : ℕ} (h : (g.node d).redefined = some v) : v < d := by
  apply g.ordered d
  · cases hn : g.node d <;> simp_all [Node.redefined, Node.isPhi]
  · cases hn : g.node d <;> simp_all [Node.redefined, Node.inputs]

def originalFrom : ℕ → Def → Def
  | 0, d => d
  | n + 1, d => (g.node d).redefined.elim d (originalFrom n)

def original (d : Def) : Def := g.originalFrom d d

lemma original_of_none {d : Def} (h : (g.node d).redefined = none) : g.original d = d := by
  unfold original
  cases d <;> simp [originalFrom, h]

lemma originalFrom_eq {n d : ℕ} (hn : d ≤ n) : g.originalFrom n d = g.original d := by
  induction d using Nat.strong_induction_on generalizing n with
  | _ d ih =>
    cases hr : (g.node d).redefined with
    | none => cases n <;> simp [originalFrom, hr, g.original_of_none hr]
    | some v =>
      have hv := g.redefined_lt hr
      obtain ⟨n, rfl⟩ : ∃ k, n = k + 1 := ⟨n - 1, by omega⟩
      obtain ⟨d, rfl⟩ : ∃ k, d = k + 1 := ⟨d - 1, by omega⟩
      simp only [original, originalFrom, hr]
      exact (ih v hv (by omega)).trans (ih v hv (by omega)).symm

lemma original_of_some {d v : ℕ} (h : (g.node d).redefined = some v) : g.original d = g.original v := by
  have hv := g.redefined_lt h
  obtain ⟨n, rfl⟩ : ∃ n, d = n + 1 := ⟨d - 1, by omega⟩
  simp only [original, originalFrom, h]
  exact g.originalFrom_eq (by omega)

lemma original_le (d : ℕ) : g.original d ≤ d := by
  induction d using Nat.strong_induction_on with
  | _ d ih =>
    cases hr : (g.node d).redefined with
    | none => rw [g.original_of_none hr]
    | some v =>
      have hv := g.redefined_lt hr
      rw [g.original_of_some hr]
      exact (ih v hv).trans hv.le

lemma original_lt {d : ℕ} (h : g.original d ≠ d) : g.original d < d := lt_of_le_of_ne (g.original_le d) h

def isArrayLength (d : Option Def) : Bool :=
  match d with
  | some d => g.node (g.original d) = .loadField true
  | none => false

end FlowGraph

structure Record where
  addr : Def
  var : InductionVar
deriving DecidableEq

structure Bound where
  branch : Instruction
  limit : Invariant
deriving DecidableEq

structure LoopInfo where
  header : Block
  contains : Block → Bool
  predecessors : List Block
  induction : Def → Option Record
  bounds : Def → List Bound
  control : Option Record

namespace LoopInfo

def lookupInduction (loop : LoopInfo) (d : Def) : Option Record := loop.induction d

def initIndex (loop : LoopInfo) : ℕ := loop.predecessors.findIdx fun b => !loop.contains b

end LoopInfo
end DartSdk.Loops
