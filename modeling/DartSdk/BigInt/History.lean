import DartSdk.BigInt.DivisionCorrect

namespace DartSdk.BigInt

structure Ref where
  isNegative : Bool
  used : ℕ
  array : ℕ
deriving DecidableEq

structure Cache where
  dividend : ℕ
  dividendUsed : ℕ
  divisor : ℕ
  divisorUsed : ℕ
  quoRem : QuoRem
deriving DecidableEq

structure State where
  arrays : List (List ℕ)
  values : List Ref
  cache : Option Cache

namespace State

def load (s : State) (r : Ref) : BigIntImpl := ⟨r.isNegative, r.used, s.arrays.getD r.array []⟩

def divRemCached (s : State) (a b : Ref) : Except Error Cache :=
  let compute : Except Error Cache := do
    let quoRem ← divRem (s.load a).usedDigits (s.load b).usedDigits
    .ok ⟨a.array, a.used, b.array, b.used, quoRem⟩
  match s.cache with
  | none => compute
  | some c =>
    if a.used = c.dividendUsed ∧ b.used = c.divisorUsed ∧ a.array = c.dividend ∧ b.array = c.divisor then
      .ok c
    else compute

def quotient (c : Cache) (a b : Ref) : BigIntImpl :=
  let quoUsed := c.quoRem.used - c.quoRem.remUsed
  let quoDigits := filled quoUsed ((c.quoRem.digits.take c.quoRem.used).drop c.quoRem.remUsed)
  let quo := BigIntImpl.make false quoUsed quoDigits
  if a.isNegative ≠ b.isNegative ∧ quo.used > 0 then quo.neg else quo

def remainder (c : Cache) (a : Ref) : Except Error BigIntImpl := do
  let remDigits := filled c.quoRem.remUsed (c.quoRem.digits.take c.quoRem.remUsed)
  let rem := BigIntImpl.make false c.quoRem.remUsed remDigits
  let rem ← (if c.quoRem.remNsh > 0 then rem.shiftRight c.quoRem.remNsh else .ok rem)
  .ok (if a.isNegative ∧ rem.used > 0 then rem.neg else rem)

def div (s : State) (a b : Ref) : Except Error (BigIntImpl × Option Cache) :=
  if a.used < b.used then .ok (BigIntImpl.zero, s.cache)
  else do
    let c ← s.divRemCached a b
    .ok (quotient c a b, some c)

def rem (s : State) (a b : Ref) : Except Error (BigIntImpl × Option Cache) :=
  if a.used < b.used then .ok (s.load a, s.cache)
  else do
    let c ← s.divRemCached a b
    let r ← remainder c a
    .ok (r, some c)

def mod (s : State) (a b : Ref) : Except Error (BigIntImpl × Option Cache) := do
  let (result, cache) ← s.rem a b
  let result :=
    if result.isNegative then
      if b.isNegative then result.sub (s.load b) else result.add (s.load b)
    else result
  .ok (result, cache)

end State

inductive Op
  /-- A number from outside, or the result of an operation that is not listed. -/
  | create (x : BigIntImpl)
  | neg (a : Ref)
  | not (a : Ref)
  | add (a b : Ref)
  | sub (a b : Ref)
  | mul (a b : Ref)
  | and (a b : Ref)
  | or (a b : Ref)
  | xor (a b : Ref)
  | shiftLeft (a : Ref) (n : ℤ)
  | shiftRight (a : Ref) (n : ℤ)
  | pow (a : Ref) (n : ℤ)
  | truncDiv (a b : Ref)
  | remainder (a b : Ref)
  | mod (a b : Ref)

def Op.operands : Op → List Ref
  | .create _ => []
  | .neg a | .not a | .shiftLeft a _ | .shiftRight a _ | .pow a _ => [a]
  | .add a b | .sub a b | .mul a b | .and a b | .or a b | .xor a b => [a, b]
  | .truncDiv a b | .remainder a b | .mod a b => [a, b]

namespace State

def plain (s : State) (result : Except Error BigIntImpl) : Except Error (BigIntImpl × Option Cache) := do
  let x ← result
  .ok (x, s.cache)

def eval (s : State) : Op → Except Error (BigIntImpl × Option Cache)
  | .create x => s.plain (.ok x)
  | .neg a => s.plain (.ok (s.load a).neg)
  | .not a => s.plain (.ok (s.load a).not)
  | .add a b => s.plain (.ok ((s.load a).add (s.load b)))
  | .sub a b => s.plain (.ok ((s.load a).sub (s.load b)))
  | .mul a b => s.plain ((s.load a).mul (s.load b))
  | .and a b => s.plain (.ok ((s.load a).and (s.load b)))
  | .or a b => s.plain (.ok ((s.load a).or (s.load b)))
  | .xor a b => s.plain (.ok ((s.load a).xor (s.load b)))
  | .shiftLeft a n => s.plain ((s.load a).shiftLeft n)
  | .shiftRight a n => s.plain ((s.load a).shiftRight n)
  | .pow a n => s.plain ((s.load a).pow n)
  | .truncDiv a b => if b.used = 0 then .error .integerDivisionByZero else s.div a b
  | .remainder a b => if b.used = 0 then .error .integerDivisionByZero else s.rem a b
  | .mod a b => if b.used = 0 then .error .integerDivisionByZero else s.mod a b

end State

/-- The digits of a result are in a new array, or in one that holds them already: an operation may
return an operand, or a number that shares the array of one. -/
inductive Placed (s : State) (x : BigIntImpl) (cache : Option Cache) : State → Prop
  | fresh : Placed s x cache
      ⟨s.arrays ++ [x.digits], s.values ++ [⟨x.isNegative, x.used, s.arrays.length⟩], cache⟩
  | shared {i : ℕ} (h : s.arrays[i]? = some x.digits) : Placed s x cache
      ⟨s.arrays, s.values ++ [⟨x.isNegative, x.used, i⟩], cache⟩

inductive Step (s : State) (op : Op) : State → Prop
  | returns {x : BigIntImpl} {cache : Option Cache} {s' : State} (h : s.eval op = .ok (x, cache))
      (hplaced : Placed s x cache s') : Step s op s'
  | throws {e : Error} (h : s.eval op = .error e) : Step s op s

def Op.Applies (s : State) (op : Op) : Prop :=
  (∀ r ∈ op.operands, r ∈ s.values) ∧ ∀ x, op = .create x → x.Canonical

inductive Reachable : State → Prop
  | start : Reachable ⟨[], [], none⟩
  | next {s s' : State} {op : Op} (h : Reachable s) (hop : op.Applies s) (hstep : Step s op s') : Reachable s'

end DartSdk.BigInt
