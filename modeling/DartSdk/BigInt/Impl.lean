import DartSdk.BigInt.Digits

namespace DartSdk.BigInt

structure BigIntImpl where
  isNegative : Bool
  used : ℕ
  digits : List ℕ
deriving DecidableEq

namespace BigIntImpl

def normalized (isNegative : Bool) (used : ℕ) (digits : List ℕ) : BigIntImpl :=
  ⟨if used = 0 then false else isNegative, used, digits⟩

def make (isNegative : Bool) (used : ℕ) (digits : List ℕ) : BigIntImpl :=
  normalized isNegative (normalize used digits) digits

def usedDigits (x : BigIntImpl) : List ℕ := x.digits.take x.used

def isZero (x : BigIntImpl) : Bool := x.used = 0

def fromInt (value : ℤ) : BigIntImpl :=
  let isNegative := decide (value < 0)
  if value = -2 ^ 63 then make true 2 [0, 0x80000000]
  else
    let value := if isNegative then -value else value
    if value < digitBase then make isNegative 1 [low value, 0]
    else make isNegative 2 [low value, low (high value)]

def zero : BigIntImpl := fromInt 0

def one : BigIntImpl := fromInt 1

def neg (x : BigIntImpl) : BigIntImpl :=
  if x.used = 0 then x else make (!x.isNegative) x.used x.digits

def absCompare (x other : BigIntImpl) : ℤ := compareDigits x.usedDigits other.usedDigits

def compareTo (x other : BigIntImpl) : ℤ :=
  if x.isNegative = other.isNegative then
    let result := x.absCompare other
    if x.isNegative then 0 - result else result
  else if x.isNegative then -1 else 1

def equals (x other : BigIntImpl) : Bool := x.compareTo other = 0

def absAddOrdered (x other : BigIntImpl) (isNegative : Bool) : BigIntImpl :=
  if x.used = 0 then zero
  else if other.used = 0 then if x.isNegative = isNegative then x else x.neg
  else make isNegative (x.used + 1) (filled (x.used + 1) (absAdd x.usedDigits other.usedDigits 0))

def absAddSetSign (x other : BigIntImpl) (isNegative : Bool) : BigIntImpl :=
  if x.used < other.used then absAddOrdered other x isNegative else absAddOrdered x other isNegative

def absSubSetSign (x other : BigIntImpl) (isNegative : Bool) : BigIntImpl :=
  if x.used = 0 then zero
  else if other.used = 0 then if x.isNegative = isNegative then x else x.neg
  else make isNegative x.used (filled x.used (absSub x.usedDigits other.usedDigits 0))

def add (x other : BigIntImpl) : BigIntImpl :=
  if x.isZero then other
  else if other.isZero then x
  else if x.isNegative = other.isNegative then x.absAddSetSign other x.isNegative
  else if 0 ≤ x.absCompare other then x.absSubSetSign other x.isNegative
  else other.absSubSetSign x (!x.isNegative)

def sub (x other : BigIntImpl) : BigIntImpl :=
  if x.isZero then other.neg
  else if other.isZero then x
  else if x.isNegative ≠ other.isNegative then x.absAddSetSign other x.isNegative
  else if 0 ≤ x.absCompare other then x.absSubSetSign other x.isNegative
  else other.absSubSetSign x (!x.isNegative)

def mul (x other : BigIntImpl) : Except Error BigIntImpl :=
  if x.used = 0 ∨ other.used = 0 then .ok zero
  else do
    let resultUsed := x.used + other.used
    let resultDigits ← mulLoop x.usedDigits other.usedDigits 0 (newDigits resultUsed)
    .ok (make (x.isNegative != other.isNegative) resultUsed resultDigits)

def powLoop (result base : BigIntImpl) (exponent : ℕ) : Except Error BigIntImpl :=
  if h : exponent = 0 then .ok result
  else do
    let result ← (if exponent % 2 = 1 then result.mul base else .ok result)
    let base ← (if exponent / 2 ≠ 0 then base.mul base else .ok base)
    powLoop result base (exponent / 2)
termination_by exponent
decreasing_by omega

def pow (x : BigIntImpl) (exponent : ℤ) : Except Error BigIntImpl :=
  if exponent < 0 then .error (.argumentError s!"Exponent must not be negative: {exponent}")
  else if exponent = 0 then .ok one
  else powLoop one x exponent.toNat

end BigIntImpl
end DartSdk.BigInt
