import DartSdk.Loops.LoopInfo

namespace DartSdk.Loops
variable (g : FlowGraph)

section
variable (look : Def → Option Record)

def transferBinary (op : BinaryOpKind) (x y : InductionVar) : Option InductionVar :=
  match op with
  | .add => x.add y
  | .sub => x.sub y
  | .mul => x.mul y
  | .other => none

def transferDef (d : Def) : Option Record :=
  match g.node d with
  | .binaryIntegerOp op l r => do
    let x ← look l
    let y ← look r
    (transferBinary op x.var y.var).map (Record.mk d)
  | .unaryIntegerOp .negate v => do
    let x ← look v
    (InductionVar.sub (.invariant (.constant 0)) x.var).map (Record.mk d)
  | .unaryIntegerOp .other _ => none
  | _ => if g.original d = d then none else look (g.original d)

def joinInputs (look : Def → Option Record) : List Def → Option Record
  | [] => none
  | v :: vs => do
    let x ← look v
    if vs.all fun w => (look w).any fun y => x.var.isEqual y.var then some x else none

end

namespace LoopInfo
variable (loop : LoopInfo)

def lookupFrom : ℕ → Def → Option Record
  | 0, _ => none
  | n + 1, d =>
    match loop.lookupInduction d, g.node d with
    | some r, _ => some r
    | none, .constant c => some ⟨d, .invariant (.constant c)⟩
    | none, _ =>
      if loop.contains (g.block d) then none
      else some ((transferDef g (lookupFrom n) d).getD ⟨d, .invariant (.symbol d)⟩)

def lookup (d : ℕ) : Option Record := loop.lookupFrom g (d + 1) d

def isHeaderPhi (d : Def) : Bool :=
  match g.node d with
  | .phi [] => false
  | .phi (v :: vs) => g.block d = loop.header && !vs.all (· = v)
  | _ => false

def addInduction (d : Def) (r : Record) : LoopInfo :=
  { loop with induction := Function.update loop.induction d (some r) }

def phiInputs (d : Def) : List Def :=
  match g.node d with
  | .phi vs => vs
  | _ => []

def initInput (phi : Def) : Option Def := (phiInputs g phi)[loop.initIndex]?

def classify (d : Def) : LoopInfo :=
  let induc : Option Record :=
    if loop.isHeaderPhi g d then do
      let induc ← joinInputs (loop.lookup g) ((phiInputs g d).eraseIdx loop.initIndex)
      let start ← loop.initInput g d
      let init ← loop.lookup g start
      if init.var.isEqual induc.var then some induc
      else
        match init.var with
        | .invariant i => some ⟨d, .wrapAround i induc.var⟩
        | _ => none
    else if (g.node d).isPhi then joinInputs (loop.lookup g) (phiInputs g d)
    else transferDef g (loop.lookup g) d
  match induc with
  | some r => loop.addInduction d r
  | none => loop

end LoopInfo

abbrev Cycle := Def → Option Record

section
variable (loop : LoopInfo) (cycle : Cycle) (init : Record)

/-- One of the two symmetric attempts of `SolveBinary`: `operand` is invariant and `c` is the
meaning of the other operand. The marker `init` denotes the first use, otherwise aggregate. -/
def attempt (operand c : Option Record) (first : Record → Invariant → Option Record)
    (aggregate : Invariant → Invariant → Option Record) : Option (Option Record) :=
  match operand, c with
  | some o, some c =>
    match o.var with
    | .invariant x =>
      if c.addr = init.addr then some (first o x)
      else
        match c.var with
        | .invariant y => some (aggregate x y)
        | _ => none
    | _ => none
  | _, _ => none

def fresh (d : Def) (x : Option Invariant) : Option Record :=
  x.map fun x => ⟨d, .invariant x⟩

def solvePeriodic (d : Def) (operand c : Option Record) : Option Record :=
  match operand, c, init.var with
  | some ⟨_, .invariant x⟩, some c, .invariant i =>
    if c.addr = init.addr then (x.sub i).map fun next => ⟨d, .periodic i next⟩ else none
  | _, _, _ => none

def solveBinary (d : Def) (op : BinaryOpKind) (l r : Def) : Option Record :=
  let x := loop.lookup g l
  let y := loop.lookup g r
  match op with
  | .add =>
    match attempt init x (cycle r) (fun o _ => some o) (fun x c => fresh d (x.add c)) with
    | some result => result
    | none =>
      (attempt init y (cycle l) (fun o _ => some o) (fun y c => fresh d (c.add y))).join
  | .sub =>
    match solvePeriodic init d x (cycle r) with
    | some result => some result
    | none =>
      (attempt init y (cycle l) (fun _ y => fresh d ((Invariant.constant 0).sub y))
        (fun y c => fresh d (c.sub y))).join
  | _ => none

def solveUnary (d : Def) (op : UnaryOpKind) (v : Def) : Option Record :=
  match op with
  | .negate => solvePeriodic init d (some ⟨d, .invariant (.constant 0)⟩) (cycle v)
  | .other => none

def solve (d : Def) : Option Record :=
  match g.node d with
  | .phi vs => joinInputs cycle vs
  | .binaryIntegerOp op l r => solveBinary g loop cycle init d op l r
  | .unaryIntegerOp op v => solveUnary cycle init d op v
  | .constraint v _ => cycle v
  | _ => if g.original d = d then none else cycle (g.original d)

def solveCycle : Cycle → List Def → Option Cycle
  | cycle, [] => some cycle
  | cycle, d :: rest => do
    let update ← solve g loop cycle init d
    solveCycle (Function.update cycle d (some update)) rest

end

namespace LoopInfo
variable (loop : LoopInfo)

def rotate (scc : List Def) : Option (Def × List Def) :=
  let p := scc.reverse.findIdx (loop.isHeaderPhi g)
  match scc.reverse[p]? with
  | some phi => some (phi, (scc.reverse.take p).reverse ++ (scc.reverse.drop (p + 1)).reverse)
  | none => none

def solveSCC (phi : Def) (rest : List Def) : Option InductionVar := do
  let start ← loop.initInput g phi
  let init ← loop.lookup g start
  let cycle ← solveCycle g loop init (Function.update (fun _ => none) phi (some init)) rest
  let induc ← joinInputs cycle ((phiInputs g phi).eraseIdx loop.initIndex)
  match init.var, induc.var with
  | .invariant i, .invariant n => some (.linear i n)
  | _, .periodic i n => some (.periodic i n)
  | _, _ => none

def classifySCC (scc : List Def) : LoopInfo :=
  match loop.rotate g scc with
  | none => loop
  | some (phi, rest) =>
    match loop.solveSCC g phi rest with
    | none => loop
    | some induc => rest.foldl (fun loop d => loop.classify g d) (loop.addInduction phi ⟨phi, induc⟩)

end LoopInfo
end DartSdk.Loops
