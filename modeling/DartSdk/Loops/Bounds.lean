import DartSdk.Loops.LoopInfo

namespace DartSdk.Loops
variable (g : FlowGraph)

def safelyAdjust (lower : Invariant) (lowerOffset : Int64) (upper : Invariant)
    (upperOffset : Int64) : Option (Invariant × Invariant) :=
  match lower.isConstant with
  | none => none
  | some lval =>
    let l := lval + lowerOffset
    let success : Bool :=
      match upper.isConstant with
      | some uval => l ≤ uval + upperOffset
      | none => upper.mult = 1 && g.isArrayLength upper.defn &&
          ((0 ≤ lowerOffset && lval ≤ l) || (lowerOffset < 0 && l < lval)) &&
          upper.offset + upperOffset ≤ 0
    if success then
      some (if lowerOffset = 0 then lower else .constant l,
        if upperOffset = 0 then upper else upper.shift upperOffset)
    else none

def guard (loop : LoopInfo) (inner : Instruction → Invariant → Option (Invariant × Invariant))
    (pos : Instruction) (control : Record) : Option (Bound × Invariant × Invariant) :=
  (loop.bounds control.addr).findSome? fun bound =>
    if g.isDominatedBy pos bound.branch then (inner bound.branch bound.limit).map (bound, ·)
    else none

def inductionBounds (loop : LoopInfo)
    (inner : Instruction → Invariant → Option (Invariant × Invariant)) (pos : Instruction) :
    InductionVar → Option (Invariant × Invariant)
  | .linear initial next => do
    let stride ← next.isConstant
    let control ← loop.control
    if stride = 1 ∨ stride = -1 then
      let off ← (InductionVar.linear initial next).canComputeDifferenceWith control.var
      let (lmin, lmax) ← inner pos initial
      let (_, umin, umax) ← guard g loop inner pos control
      if 0 < stride then safelyAdjust g lmin 0 umax (-stride - off)
      else safelyAdjust g umin (-stride - off) lmax 0
    else none
  | _ => none

def invariantBounds : List LoopInfo → Instruction → Invariant → Option (Invariant × Invariant)
  | [], _, x => some (x, x)
  | loop :: outer, pos, x =>
    match if x.mult = 1 then x.defn else none with
    | none => some (x, x)
    | some d =>
      match loop.lookupInduction d with
      | none => invariantBounds outer pos x
      | some r =>
        match inductionBounds g loop (invariantBounds outer) pos r.var with
        | none => invariantBounds outer pos x
        | some (imin, imax) => safelyAdjust g imin x.offset imax x.offset

def canComputeBounds (loop : LoopInfo) (outer : List LoopInfo) (pos : Instruction) :
    InductionVar → Option (Invariant × Invariant)
  | .invariant x => invariantBounds g outer pos x
  | x => inductionBounds g loop (invariantBounds g outer) pos x

def canBeMadeExclusive (outer : List LoopInfo) (x : Invariant) (branch : Instruction) (isLower : Bool) : Bool :=
  match invariantBounds g outer branch x with
  | none => false
  | some (min, max) =>
    if isLower then
      match min.isConstant with
      | some lowest => Int64.minValue < lowest
      | none => false
    else
      match max.isConstant with
      | some highest => highest < Int64.maxValue
      | none => max.mult = 1 && g.isArrayLength max.defn && max.offset < 0

def directlyBounded (loop : LoopInfo) (pos : Instruction) (induc : Record) (len : InductionVar) :
    Bool :=
  match induc.var with
  | .linear initial next =>
    next.isConstant = some 1 &&
    (match initial.isConstant with
      | some val => 0 ≤ val
      | none => false) &&
    (loop.bounds induc.addr).any fun bound =>
      g.isDominatedBy pos bound.branch &&
      match len.canComputeDifferenceWith (.invariant bound.limit) with
      | some diff => diff ≤ 0
      | none => false
  | _ => false

def isInRange (loop : LoopInfo) (outer : List LoopInfo) (pos : Instruction) (index length : Def) :
    Bool :=
  match loop.lookupInduction (g.original index), loop.lookupInduction (g.original length) with
  | some induc, some len =>
    directlyBounded g loop pos induc len.var ||
    match canComputeBounds g loop outer pos induc.var with
    | none => false
    | some (min, max) =>
      (match min.isConstant with
        | some val => 0 ≤ val
        | none => false) &&
      match len.var.canComputeDifferenceWith (.invariant max) with
      | some diff => diff < 0
      | none => false
  | _, _ => false

end DartSdk.Loops
