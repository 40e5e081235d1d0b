import Mathlib.Data.List.Dedup
import Mathlib.Data.Nat.Bitwise

namespace DartSdk.LoadOptimizer.Indexed

inductive ElementSize where
  | noSize | int8 | int16 | int32 | int64 | int128
  deriving DecidableEq

namespace ElementSize

def rank : ElementSize → ℕ
  | noSize => 0
  | int8 => 1
  | int16 => 2
  | int32 => 3
  | int64 => 4
  | int128 => 5

def multiplier (size : ElementSize) : ℕ := 2 ^ (size.rank - int8.rank)

def typed : List ElementSize := [int8, int16, int32, int64, int128]

end ElementSize

inductive ClassId where
  | array | immutableArray
  | oneByteString | twoByteString | externalOneByteString | externalTwoByteString
  | typedDataInt8Array | typedDataUint8Array | typedDataUint8ClampedArray
  | externalTypedDataUint8Array | externalTypedDataUint8ClampedArray
  | typedDataInt16Array | typedDataUint16Array
  | typedDataInt32Array | typedDataUint32Array | typedDataFloat32Array
  | typedDataInt64Array | typedDataUint64Array | typedDataFloat64Array
  | typedDataInt32x4Array | typedDataFloat32x4Array | typedDataFloat64x2Array
  deriving DecidableEq

inductive Representation where
  | noRepresentation | tagged | unboxedInt32 | unboxedUint32 | unboxedInt64
  | unboxedFloat | unboxedDouble | unboxedInt32x4 | unboxedFloat32x4 | unboxedFloat64x2
  deriving DecidableEq

def Representation.unboxedIntPtr (wordSize : ℕ) : Representation := if wordSize = 4 then unboxedInt32 else unboxedInt64

namespace ClassId

def elementSizeFor : ClassId → ElementSize
  | array | immutableArray | oneByteString | twoByteString | externalOneByteString | externalTwoByteString => .noSize
  | typedDataInt8Array | typedDataUint8Array | typedDataUint8ClampedArray
  | externalTypedDataUint8Array | externalTypedDataUint8ClampedArray => .int8
  | typedDataInt16Array | typedDataUint16Array => .int16
  | typedDataInt32Array | typedDataUint32Array | typedDataFloat32Array => .int32
  | typedDataInt64Array | typedDataUint64Array | typedDataFloat64Array => .int64
  | typedDataInt32x4Array | typedDataFloat32x4Array | typedDataFloat64x2Array => .int128

def representationOfArrayElement (wordSize : ℕ) : ClassId → Representation
  | array | immutableArray => .tagged
  | oneByteString | twoByteString | externalOneByteString | externalTwoByteString
  | typedDataInt8Array | typedDataInt16Array | typedDataUint8Array | typedDataUint8ClampedArray
  | typedDataUint16Array | externalTypedDataUint8Array | externalTypedDataUint8ClampedArray =>
    .unboxedIntPtr wordSize
  | typedDataInt32Array => .unboxedInt32
  | typedDataUint32Array => .unboxedUint32
  | typedDataInt64Array | typedDataUint64Array => .unboxedInt64
  | typedDataFloat32Array => .unboxedFloat
  | typedDataFloat64Array => .unboxedDouble
  | typedDataInt32x4Array => .unboxedInt32x4
  | typedDataFloat32x4Array => .unboxedFloat32x4
  | typedDataFloat64x2Array => .unboxedFloat64x2

end ClassId

structure Definitions (D : Type) where
  /-- The value of a constant that is a small integer. -/
  smiConstant : D → Option ℤ
  isAllocation : D → Bool
  /-- A pointer into the memory of an object. -/
  isUntagged : D → Bool
  /-- The outcome of the alias analysis for allocations. -/
  isNotAliased : D → Bool

structure Access (D : Type) where
  receiver : D
  index : D
  scale : ℕ
  classId : ClassId
  scale_pos : 0 < scale

inductive Selector (D : Type) where
  /-- A non-constant index, or any index in an alias. -/
  | indexed (index : Option D)
  | constantIndexed (size : ElementSize) (offset : ℕ)
  deriving DecidableEq

structure Place (D : Type) where
  representation : Representation
  receiver : Option D
  selector : Selector D
  deriving DecidableEq

def kMaxInt32 : ℤ := 0x7FFFFFFF

namespace Selector
variable {D : Type}

def isConstantIndexed : Selector D → Bool
  | indexed _ => false
  | constantIndexed _ _ => true

end Selector

section
variable {D : Type} (defs : Definitions D)

def Access.isTyped (a : Access D) : Bool := a.classId.elementSizeFor ≠ .noSize

def Access.selector (a : Access D) : Selector D :=
  match defs.smiConstant a.index with
  | some value =>
    let scale := if a.isTyped then a.scale else 1
    if 0 ≤ value ∧ value < kMaxInt32 / scale then
      let scaled := value.toNat * scale
      if !a.isTyped || !defs.isUntagged a.receiver && scaled % a.classId.elementSizeFor.multiplier = 0 then
        .constantIndexed a.classId.elementSizeFor scaled
      else .indexed (some a.index)
    else .indexed (some a.index)
  | none => .indexed (some a.index)

def Access.place (wordSize : ℕ) (a : Access D) : Place D :=
  ⟨a.classId.representationOfArrayElement wordSize, some a.receiver, a.selector defs⟩

namespace Place

def toAlias (p : Place D) : Place D :=
  ⟨.noRepresentation, p.receiver.filter fun d => defs.isAllocation d,
    if p.selector.isConstantIndexed then p.selector else .indexed none⟩

def copyWithoutInstance (p : Place D) : Place D := { p with receiver := none }

def copyWithoutIndex (p : Place D) : Place D := ⟨.noRepresentation, p.receiver, .indexed none⟩

def roundByteOffset (size : ElementSize) (offset : ℕ) : ℕ := offset - (offset &&& (size.multiplier - 1))

def toLargerElement (p : Place D) (offset : ℕ) (size : ElementSize) : Place D :=
  { p with selector := .constantIndexed size (roundByteOffset size offset) }

def toSmallerElement (p : Place D) (offset : ℕ) (size : ElementSize) (index : ℕ) : Place D :=
  { p with selector := .constantIndexed size (offset + index * size.multiplier) }

end Place

def anyInstanceAnyIndex : Place D := ⟨.noRepresentation, none, .indexed none⟩

def canBeAliased : Option D → Bool
  | none => true
  | some d => !defs.isAllocation d || !defs.isNotAliased d

end

section
variable {D : Type} [DecidableEq D] (defs : Definitions D) (places : List (Place D))

inductive AliasId (D : Type) where
  | anyConstantIndexed
  | unknownInstanceConstantIndexed
  | anyAllocationIndexed
  | alias (p : Place D)

def aliases : List (Place D) := (anyInstanceAnyIndex :: places.map fun p => p.toAlias defs).dedup

def representatives : AliasId D → List (Place D)
  | .anyConstantIndexed => places.filter fun p =>
      (p.toAlias defs).selector.isConstantIndexed && canBeAliased defs (p.toAlias defs).receiver
  | .unknownInstanceConstantIndexed => places.filter fun p =>
      (p.toAlias defs).selector.isConstantIndexed && (p.toAlias defs).receiver.isNone
  | .anyAllocationIndexed => places.filter fun p =>
      !(p.toAlias defs).selector.isConstantIndexed && canBeAliased defs p.receiver
  | .alias a => places.filter fun p => p.toAlias defs = a

abbrev Kill (D : Type) := Place D × AliasId D

def crossAlias (a b : Place D) : List (Kill D) :=
  if b ∈ aliases defs places then [(a, .alias b), (b, .alias a)] else []

def relatedElements (a : Place D) (size : ElementSize) (offset : ℕ) : List (Place D) :=
  ((ElementSize.typed.filter fun other => size.rank < other.rank).map (a.toLargerElement offset)) ++
    if a.receiver.isSome && canBeAliased defs a.receiver then
      ElementSize.typed.flatMap fun other =>
        if size.rank < other.rank then [a.copyWithoutInstance.toLargerElement offset other]
        else if other.rank < size.rank then
          (List.range (2 ^ (size.rank - other.rank))).map (a.copyWithoutInstance.toSmallerElement offset other)
        else []
    else []

def computeKillSet (a : Place D) : List (Kill D) :=
  match a.selector with
  | .indexed _ =>
    if a.receiver = none then [(a, .anyConstantIndexed), (a, .anyAllocationIndexed)]
    else if canBeAliased defs a.receiver then
      crossAlias defs places a anyInstanceAnyIndex ++ [(a, .unknownInstanceConstantIndexed)]
    else []
  | .constantIndexed size offset =>
    (if size ≠ .noSize then (relatedElements defs a size offset).flatMap (crossAlias defs places a) else []) ++
      if a.receiver = none then (a, .anyAllocationIndexed) :: crossAlias defs places a anyInstanceAnyIndex
      else crossAlias defs places a a.copyWithoutIndex ++
        if canBeAliased defs a.receiver then
          crossAlias defs places a a.copyWithoutInstance ++ crossAlias defs places a anyInstanceAnyIndex
        else []

def computeKillSets : List (Kill D) :=
  (aliases defs places).flatMap fun a => (a, .alias a) :: computeKillSet defs places a

def killed (a : Place D) : List (Place D) :=
  ((computeKillSets defs places).filter fun kill => kill.1 = a).flatMap fun kill =>
    representatives defs places kill.2

end
end DartSdk.LoadOptimizer.Indexed
