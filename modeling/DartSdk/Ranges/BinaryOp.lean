import DartSdk.Library.WordOps
import DartSdk.Ranges.Boundary

namespace DartSdk.Ranges
open WrapInt Int64

inductive BinaryOp
  | add | sub | mul | truncDiv | mod | shl | shr | ushr | bitAnd | bitOr | bitXor | other
deriving DecidableEq

def maximum {α : Type} [LT α] [DecidableLT α] (x y : α) : α := if y < x then x else y

def minimum {α : Type} [LT α] [DecidableLT α] (x y : α) : α := if x < y then x else y

def absWithSaturation (x : Int64) : Int64 :=
  if x < 0 then if x = minValue then maxValue else -x else x

def halve (k : UInt64) : UInt64 × ℕ → UInt64 × ℕ
  | (x, r) => if x >>> k ≠ 0 then (x >>> k, r + k.toNat) else (x, r)

def highestBit (v : Int64) : ℕ :=
  let (x, r) := halve 2 (halve 4 (halve 8 (halve 16 (halve 32 ((if 0 < v then v else -v).toUInt64, 0)))))
  if 1 < x then r + 1 else r

def bitLength (value : Int64) : ℕ :=
  let value := value ^^^ WrapInt.shr value 63
  if value = 0 then 0 else highestBit value + 1

def isInt (n : ℕ) (value : Int64) : Bool :=
  if 64 ≤ n then true
  else
    let limit := WrapInt.shl 1 (n - 1)
    decide (-limit ≤ value) && value < limit

namespace RangeBoundary

def shl (value shiftCount : Int64) (overflow : RangeBoundary) : RangeBoundary :=
  let limit := 64 - shiftCount
  if value = 0 then constant 0
  else if shiftCount = 0 || (0 < limit && isInt limit.toInt.toNat value) then
    constant (WrapInt.shl value shiftCount.toInt.toNat)
  else overflow

def shr (value shiftCount : Int64) : RangeBoundary :=
  constant (if shiftCount ≤ 63 then WrapInt.shr value shiftCount.toInt.toNat
    else if 0 ≤ value then 0 else -1)

variable (t : Target) (g : SmiGraph)

def addOffset (s : Def) (offset c : Int64) : Option RangeBoundary :=
  if willAddOverflow offset c then none
  else if !isValidOffset t (offset + c) then none
  else some (fromDefinition g s (offset + c))

def symbolicAdd (a b : RangeBoundary) : Option RangeBoundary :=
  match a, b with
  | symbol s offset, constant c => addOffset t g s offset c
  | constant c, symbol s offset => addOffset t g s offset c
  | _, _ => none

def symbolicSub (a b : RangeBoundary) : Option RangeBoundary :=
  match a, b with
  | symbol s offset, constant c =>
    if willSubOverflow offset c then none
    else if !isValidOffset t (offset - c) then none
    else some (fromDefinition g s (offset - c))
  | _, _ => none

end RangeBoundary

namespace Range
open RangeBoundary
variable (t : Target) (g : SmiGraph)

def constantMin (r : Range) : Int64 := ((lowerBound t g r.min).clamp t .int64).constantValue

def constantMax (r : Range) : Int64 := ((upperBound t g r.max).clamp t .int64).constantValue

def onlyLessThanOrEqualTo (r : Range) (val : Int64) : Bool :=
  match upperBound t g r.max with
  | positiveInfinity => false
  | b => b.constantValue ≤ val

def onlyGreaterThanOrEqualTo (r : Range) (val : Int64) : Bool :=
  match lowerBound t g r.min with
  | negativeInfinity => false
  | b => val ≤ b.constantValue

def isPositive (r : Range) : Bool := r.onlyGreaterThanOrEqualTo t g 0

def constantAbsMax (r : Range) : Int64 :=
  maximum (absWithSaturation (r.constantMin t g)) (absWithSaturation (r.constantMax t g))

def constantAbsMin (r : Range) : Int64 :=
  minimum (absWithSaturation (r.constantMin t g)) (absWithSaturation (r.constantMax t g))

def onlyPositiveOrZero (a b : Range) : Bool :=
  a.onlyGreaterThanOrEqualTo t g 0 && b.onlyGreaterThanOrEqualTo t g 0

def onlyNegativeOrZero (a b : Range) : Bool :=
  a.onlyLessThanOrEqualTo t g 0 && b.onlyLessThanOrEqualTo t g 0

def leftBoundary (leftDefn : Option Def) (boundary : RangeBoundary) : RangeBoundary :=
  match leftDefn with
  | some d => if g.isArrayLength d then fromDefinition g d 0 else boundary
  | none => boundary

def add (left right : Range) (leftDefn : Option Def) : RangeBoundary × RangeBoundary :=
  ((symbolicAdd t g (leftBoundary g leftDefn left.min) right.min).getD
      (RangeBoundary.add (lowerBound t g left.min) (lowerBound t g right.min) negativeInfinity),
    (symbolicAdd t g (leftBoundary g leftDefn left.max) right.max).getD
      (RangeBoundary.add (upperBound t g right.max) (upperBound t g left.max) positiveInfinity))

def sub (left right : Range) (leftDefn : Option Def) : RangeBoundary × RangeBoundary :=
  ((symbolicSub t g (leftBoundary g leftDefn left.min) right.max).getD
      (RangeBoundary.sub (lowerBound t g left.min) (upperBound t g right.max) negativeInfinity),
    (symbolicSub t g (leftBoundary g leftDefn left.max) right.min).getD
      (RangeBoundary.sub (upperBound t g left.max) (lowerBound t g right.min) positiveInfinity))

def mul (left right : Range) : RangeBoundary × RangeBoundary :=
  let leftMax := left.constantAbsMax t g
  let rightMax := right.constantAbsMax t g
  if leftMax ≤ -t.smiMin && rightMax ≤ -t.smiMin && (leftMax = 0 || rightMax ≤ maxValue / leftMax) then
    let mulMax := leftMax * rightMax
    if onlyPositiveOrZero t g left right || onlyNegativeOrZero t g left right then
      (constant (left.constantAbsMin t g * right.constantAbsMin t g), constant mulMax)
    else (constant (-mulMax), constant mulMax)
  else if onlyPositiveOrZero t g left right || onlyNegativeOrZero t g left right then
    (constant 0, positiveInfinity)
  else (negativeInfinity, positiveInfinity)

def truncDiv (left right : Range) : RangeBoundary × RangeBoundary :=
  if left.onlyGreaterThanOrEqualTo t g 0 && right.onlyGreaterThanOrEqualTo t g 1 then
    (constant (left.constantAbsMin t g / right.constantAbsMax t g),
      constant (left.constantAbsMax t g / right.constantAbsMin t g))
  else (negativeInfinity, positiveInfinity)

def mod (right : Range) : RangeBoundary × RangeBoundary :=
  let modMax :=
    if right.constantMin t g ≠ minValue then maximum (right.constantAbsMax t g - 1) 0
    else maxValue
  (constant 0, constant modMax)

def shiftCounts (right : Range) : Int64 × Int64 :=
  (maximum (right.constantMin t g) 0, maximum (right.constantMax t g) 0)

def shl (left right : Range) : RangeBoundary × RangeBoundary :=
  let leftMax := left.constantMax t g
  let leftMin := left.constantMin t g
  let (rightMin, rightMax) := right.shiftCounts t g
  (RangeBoundary.shl leftMin (if 0 < leftMin then rightMin else rightMax)
      (if 0 < leftMin then positiveInfinity else negativeInfinity),
    RangeBoundary.shl leftMax (if 0 < leftMax then rightMax else rightMin)
      (if 0 < leftMax then positiveInfinity else negativeInfinity))

def shr (left right : Range) : RangeBoundary × RangeBoundary :=
  let leftMax := left.constantMax t g
  let leftMin := left.constantMin t g
  let (rightMin, rightMax) := right.shiftCounts t g
  (RangeBoundary.shr leftMin (if 0 < leftMin then rightMax else rightMin),
    RangeBoundary.shr leftMax (if 0 < leftMax then rightMin else rightMax))

def convertRangeToUnsigned (a b : Int64) : UInt64 × UInt64 :=
  if a < 0 ∧ 0 ≤ b then (0, 0xffffffffffffffff) else (a.toUInt64, b.toUInt64)

def convertRangeToSigned (a b : UInt64) : Int64 × Int64 :=
  if a ≤ maxValue.toUInt64 ∧ minValue.toUInt64 ≤ b then
    (minValue, maxValue)
  else (a.toInt64, b.toInt64)

def ushr (left right : Range) : RangeBoundary × RangeBoundary :=
  let (rightMin, rightMax) := right.shiftCounts t g
  let (leftMin, leftMax) := convertRangeToUnsigned (left.constantMin t g) (left.constantMax t g)
  let resultMin := if 64 ≤ rightMax then 0 else leftMin >>> rightMax.toUInt64
  let resultMax := if 64 ≤ rightMin then 0 else leftMax >>> rightMin.toUInt64
  let (signedMin, signedMax) := convertRangeToSigned resultMin resultMax
  (constant signedMin, constant signedMax)

def bitSize (r : Range) : ℕ :=
  maximum (bitLength (r.constantMin t g)) (bitLength (r.constantMax t g))

def bitwiseOp (left right : Range) : RangeBoundary × RangeBoundary :=
  let bitsize := maximum (left.bitSize t g) (right.bitSize t g)
  (if left.isPositive t g && right.isPositive t g then constant 0
    else constant (-WrapInt.shl 1 bitsize),
    constant (WrapInt.shl 1 bitsize - 1))

def and (left right : Range) : RangeBoundary × RangeBoundary :=
  if 0 ≤ right.constantMin t g then (constant 0, constant (right.constantMax t g))
  else if 0 ≤ left.constantMin t g then (constant 0, constant (left.constantMax t g))
  else bitwiseOp t g left right

def boundaries (op : BinaryOp) (left right : Range) (leftDefn : Option Def) : RangeBoundary × RangeBoundary :=
  match op with
  | .add => add t g left right leftDefn
  | .sub => sub t g left right leftDefn
  | .mul => mul t g left right
  | .truncDiv => truncDiv t g left right
  | .mod => mod t g right
  | .shl => shl t g left right
  | .shr => shr t g left right
  | .ushr => ushr t g left right
  | .bitAnd => and t g left right
  | .bitOr => bitwiseOp t g left right
  | .bitXor => bitwiseOp t g left right
  | .other => (negativeInfinity, positiveInfinity)

def binaryOp (op : BinaryOp) (left right : Range) (leftDefn : Option Def) : Range :=
  let (min, max) := boundaries t g op left right leftDefn
  make min max

end Range

def BinaryOp.eval (x y : Int64) : BinaryOp → Option Int64
  | .add => some (x + y)
  | .sub => some (x - y)
  | .mul => some (x * y)
  | .truncDiv => if y = 0 then none else some (x / y)
  | .mod => if y = 0 then none else some (ofInt (x.toInt % y.toInt))
  | .shl =>
    if y < 0 then none else some (if 64 ≤ y then 0 else WrapInt.shl x y.toInt.toNat)
  | .shr =>
    if y < 0 then none
    else some (if 64 ≤ y then (if x < 0 then -1 else 0) else WrapInt.shr x y.toInt.toNat)
  | .ushr =>
    if y < 0 then none
    else some (if 64 ≤ y then 0 else (x.toUInt64 >>> y.toUInt64).toInt64)
  | .bitAnd => some (x &&& y)
  | .bitOr => some (x ||| y)
  | .bitXor => some (x ^^^ y)
  | .other => none

end DartSdk.Ranges
