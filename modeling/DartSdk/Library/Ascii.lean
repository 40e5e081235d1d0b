import Mathlib.Algebra.Ring.Nat
import Mathlib.Tactic.Common

namespace DartSdk.Ascii
variable {α : Type}

/-- The characters of an ASCII text, each as the unit that `ofCode` gives for its code. -/
def units (ofCode : ℕ → α) (s : String) : List α := s.toList.map fun c => ofCode c.toNat

/-- The number that decimal digits write. -/
def decimal (code : α → ℕ) (digits : List α) : ℕ :=
  digits.foldl (fun value digit => value * 10 + (code digit - 0x30)) 0

/-- The number that decimal digits write, where a signed integer of 64 bits holds it. -/
def parseDecimal (code : α → ℕ) (digits : List α) : Option ℕ :=
  if decimal code digits < 2 ^ 63 then some (decimal code digits) else none

end DartSdk.Ascii
