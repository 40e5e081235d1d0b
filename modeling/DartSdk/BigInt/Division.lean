import DartSdk.BigInt.Shift

namespace DartSdk.BigInt

section

def writeDigits (ds digits : List ℕ) : Except Error (List ℕ) :=
  if ds.length ≤ digits.length then .ok (ds ++ digits.drop ds.length) else .error .rangeError

def setDigit (digits : List ℕ) (i d : ℕ) : Except Error (List ℕ) :=
  if i < digits.length then .ok (digits.set i d) else .error .rangeError

def clearOdd (digits : List ℕ) (used : ℕ) : Except Error (List ℕ) :=
  if used % 2 = 1 then setDigit digits used 0 else .ok digits

def dlShiftDigits (xDigits : List ℕ) (n : ℕ) (resultDigits : List ℕ) : Except Error (List ℕ × ℕ) :=
  if xDigits.length = 0 then .ok (resultDigits, 0)
  else do
    let resultUsed := xDigits.length + n
    let resultDigits ← writeDigits (List.replicate n 0 ++ xDigits) resultDigits
    let resultDigits ← clearOdd resultDigits resultUsed
    .ok (resultDigits, resultUsed)

def lShiftDigits (xDigits : List ℕ) (n : ℕ) (resultDigits : List ℕ) : Except Error (List ℕ × ℕ) :=
  if n % digitBits = 0 then dlShiftDigits xDigits (n / digitBits) resultDigits
  else do
    let resultUsed := xDigits.length + n / digitBits + 1
    let resultDigits ← writeDigits (lsh xDigits n) resultDigits
    if resultDigits.getD (resultUsed - 1) 0 = 0 then .ok (resultDigits, resultUsed - 1)
    else do
      let resultDigits ← clearOdd resultDigits resultUsed
      .ok (resultDigits, resultUsed)

def subInPlace (digits : List ℕ) (used : ℕ) (otherDigits : List ℕ) : List ℕ :=
  absSub (digits.take used) otherDigits 0 ++ digits.drop used

end

section

def estimateQuotientDigit (divisorTopDigit : ℕ) (digits : List ℕ) (i : ℕ) : ℕ :=
  if digits.getD i 0 = divisorTopDigit then digitBase - 1
  else
    let quotientDigit :=
      ((digits.getD i 0 <<< (digitBits - 1)) ||| (digits.getD (i - 1) 0 >>> 1)) / (divisorTopDigit >>> 1)
    if quotientDigit > digitBase - 1 then digitBase - 1 else quotientDigit

def correct (tmpDigits : List ℕ) (resultUsed i : ℕ) : ℕ → List ℕ → List ℕ
  | 0, resultDigits => resultDigits
  | quotientDigit + 1, resultDigits =>
    if resultDigits.getD i 0 < quotientDigit + 1 then
      correct tmpDigits resultUsed i quotientDigit (subInPlace resultDigits resultUsed tmpDigits)
    else resultDigits

def divLoop (divisorTopDigit : ℕ) (nyDigits : List ℕ) (resultUsed : ℕ) : ℕ → ℕ → List ℕ → Except Error (List ℕ)
  | 0, _, resultDigits => .ok resultDigits
  | j + 1, i, resultDigits => do
    let quotientDigit := estimateQuotientDigit divisorTopDigit resultDigits i
    let resultDigits ← mulAdd quotientDigit nyDigits resultDigits j
    let tmpDigits := List.replicate j 0 ++ nyDigits
    divLoop divisorTopDigit nyDigits resultUsed j (i - 1) (correct tmpDigits resultUsed i quotientDigit resultDigits)

def divideNormalized (yDigits nyDigits : List ℕ) (resultDigits : List ℕ) (resultUsed : ℕ) :
    Except Error (List ℕ × ℕ) := do
  let i := resultUsed + resultUsed % 2
  let j := i - yDigits.length
  let tmpDigits := List.replicate j 0 ++ yDigits
  let (resultDigits, resultUsed) ← (
    if 0 ≤ compareDigits (resultDigits.take resultUsed) tmpDigits then do
      let resultDigits ← setDigit resultDigits resultUsed 1
      .ok (subInPlace resultDigits (resultUsed + 1) tmpDigits, resultUsed + 1)
    else do
      let resultDigits ← setDigit resultDigits resultUsed 0
      .ok (resultDigits, resultUsed + 1))
  let resultDigits ← clearOdd resultDigits resultUsed
  let resultDigits ← divLoop (yDigits.getD (yDigits.length - 1) 0) nyDigits resultUsed j (i - 1) resultDigits
  .ok (resultDigits, resultUsed)

def normalizationShift (digits : List ℕ) : ℕ :=
  let nsh := digitBits - (digits.getD (digits.length - 1) 0).size
  if digits.length % 2 = 1 then nsh + digitBits else nsh

def negateDigits (yDigits : List ℕ) : List ℕ :=
  (absSub (List.replicate yDigits.length 0 ++ [1]) yDigits 0).take yDigits.length

structure QuoRem where
  digits : List ℕ
  used : ℕ
  remUsed : ℕ
  remNsh : ℕ
deriving DecidableEq

def divRem (digits otherDigits : List ℕ) : Except Error QuoRem := do
  let nsh := normalizationShift otherDigits
  let numExtraDigits := (nsh + digitBits - 1) / digitBits + 1
  let (yDigits, yUsed) ← (
    if nsh > 0 then lShiftDigits otherDigits nsh (newDigits (otherDigits.length + numExtraDigits))
    else .ok (otherDigits, otherDigits.length))
  let (resultDigits, resultUsed) ← (
    if nsh > 0 then lShiftDigits digits nsh (newDigits (digits.length + numExtraDigits))
    else .ok (filled (digits.length + 1) digits, digits.length))
  let yDigits := yDigits.take yUsed
  let (resultDigits, resultUsed) ← divideNormalized yDigits (negateDigits yDigits) resultDigits resultUsed
  .ok ⟨resultDigits, resultUsed, yUsed, nsh⟩

end
end DartSdk.BigInt
