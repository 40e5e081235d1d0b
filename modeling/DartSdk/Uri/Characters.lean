import DartSdk.Convert.Utf8Encoder
import DartSdk.Library.Ascii

/-!
The character classes of `uri.dart` and the string operations it uses.
-/

namespace DartSdk.Uri
open DartSdk.Convert

abbrev Text := List CodeUnit

-- Mathlib has two proofs of this; the code units are compared with the one that needs no order.
scoped instance codeUnit_lawfulBEq : LawfulBEq CodeUnit := inferInstance

structure FormatException where
  message : String
  source : Text
  offset : Option ℕ
  deriving DecidableEq, Repr

section

def unit (n : ℕ) : CodeUnit := Fin.ofNat _ n

def ascii : String → Text := Ascii.units unit

def slash : CodeUnit := unit 0x2F

def codeUnitAt (s : Text) (index : ℕ) : ℕ := (s.getD index (unit 0)).val

def substring (s : Text) (start stop : ℕ) : Text := (s.take stop).drop start

def lowerUnit (u : CodeUnit) : CodeUnit := if 0x41 ≤ u.val ∧ u.val ≤ 0x5A then unit (u.val + 0x20) else u

def upperUnit (u : CodeUnit) : CodeUnit := if 0x61 ≤ u.val ∧ u.val ≤ 0x7A then unit (u.val - 0x20) else u

def toLowerCase (s : Text) : Text := s.map lowerUnit

def toUpperCase (s : Text) : Text := s.map upperUnit

end

section

def unreservedTable : List ℕ := [0x0000, 0x0000, 0x6000, 0x03ff, 0xfffe, 0x87ff, 0xfffe, 0x47ff]

def schemeTable : List ℕ := [0x0000, 0x0000, 0x6800, 0x03ff, 0xfffe, 0x07ff, 0xfffe, 0x07ff]

def genDelimitersTable : List ℕ := [0x0000, 0x0000, 0x8008, 0x8400, 0x0001, 0x2800, 0x0000, 0x0000]

def userinfoTable : List ℕ := [0x0000, 0x0000, 0x7fd2, 0x2fff, 0xfffe, 0x87ff, 0xfffe, 0x47ff]

def regNameTable : List ℕ := [0x0000, 0x0000, 0x7ff2, 0x2bff, 0xfffe, 0x87ff, 0xfffe, 0x47ff]

def pathCharOrSlashTable : List ℕ := [0x0000, 0x0000, 0xffd2, 0x2fff, 0xffff, 0x87ff, 0xfffe, 0x47ff]

def queryCharTable : List ℕ := [0x0000, 0x0000, 0xffd2, 0xafff, 0xffff, 0x87ff, 0xfffe, 0x47ff]

def inTable (charTable : List ℕ) (char : ℕ) : Bool :=
  charTable.getD (char >>> 4) 0 &&& (1 <<< (char &&& 0x0f)) ≠ 0

def isUnreservedChar (char : ℕ) : Bool := char < 127 && inTable unreservedTable char

def isRegNameChar (char : ℕ) : Bool := char < 127 && inTable regNameTable char

def isGeneralDelimiter (ch : ℕ) : Bool := ch ≤ 0x5D && inTable genDelimitersTable ch

def isAlphabeticCharacter (codeUnit : ℕ) : Bool :=
  0x61 ≤ codeUnit ||| 0x20 && codeUnit ||| 0x20 ≤ 0x7A

end

section

def hexDigitValue (char : ℕ) : ℤ :=
  if char ^^^ 0x30 ≤ 9 then (char ^^^ 0x30 : ℕ)
  else if 0x61 ≤ char ||| 0x20 ∧ char ||| 0x20 ≤ 0x66 then (char ||| 0x20 : ℕ) - (0x61 - 10)
  else -1

def hexDigit (n : ℕ) : CodeUnit := (ascii "0123456789ABCDEF").getD n (unit 0)

def IsHex (u : CodeUnit) : Prop := 0 ≤ hexDigitValue u.val

instance (u : CodeUnit) : Decidable (IsHex u) := inferInstanceAs (Decidable (0 ≤ hexDigitValue u.val))

def hexByte (first second : CodeUnit) : ℕ :=
  (hexDigitValue first.val * 16 + hexDigitValue second.val).toNat

variable {u : CodeUnit}

lemma IsHex.lt (h : IsHex u) : u.val < 128 := by
  by_contra hu
  have hxor : (u.val ^^^ 0x30) / 2 ^ 7 = u.val / 2 ^ 7 := by
    rw [Nat.xor_div_two_pow]
    exact Nat.xor_zero _
  have hor : u.val ≤ u.val ||| 0x20 := Nat.left_le_or
  rw [IsHex, hexDigitValue] at h
  omega

lemma forall_ascii {p : CodeUnit → Prop} (h : ∀ n < 128, p (unit n)) (hu : u.val < 128) : p u := by
  have hunit : unit u.val = u := Fin.ext (Nat.mod_eq_of_lt u.isLt)
  exact hunit ▸ h u.val hu

lemma IsHex.value (h : IsHex u) : 0 ≤ hexDigitValue u.val ∧ hexDigitValue u.val < 16 := by
  refine ⟨h, ?_⟩
  have key : ∀ n < 128, hexDigitValue (unit n).val < 16 := by decide +kernel
  exact forall_ascii (p := fun u => hexDigitValue u.val < 16) key h.lt

lemma IsHex.upper (h : IsHex u) : IsHex (upperUnit u) ∧ (upperUnit u).val < 0x61 ∧
    hexDigitValue (upperUnit u).val = hexDigitValue u.val := by
  have key : ∀ n < 128, IsHex (unit n) → IsHex (upperUnit (unit n)) ∧ (upperUnit (unit n)).val < 0x61 ∧
    hexDigitValue (upperUnit (unit n)).val = hexDigitValue (unit n).val := by decide +kernel
  exact forall_ascii (p := fun u => IsHex u → IsHex (upperUnit u) ∧ (upperUnit u).val < 0x61 ∧
    hexDigitValue (upperUnit u).val = hexDigitValue u.val) key h.lt h

lemma upperUnit_of_lt (h : u.val < 0x61) : upperUnit u = u := if_neg fun hu => by omega

lemma hexDigit_spec {n : ℕ} (h : n < 16) : IsHex (hexDigit n) ∧ (hexDigit n).val < 0x61 ∧
    hexDigitValue (hexDigit n).val = n := by
  have key : ∀ n < 16, IsHex (hexDigit n) ∧ (hexDigit n).val < 0x61 ∧
    hexDigitValue (hexDigit n).val = n := by decide +kernel
  exact key n h

lemma hexByte_hexDigit {byte : ℕ} (h : byte < 256) : hexByte (hexDigit (byte / 16)) (hexDigit (byte % 16)) = byte := by
  rw [hexByte, (hexDigit_spec (by omega)).2.2, (hexDigit_spec (by omega)).2.2]
  omega

lemma hexByte_upper {first second : CodeUnit} (h1 : IsHex first) (h2 : IsHex second) :
    hexByte (upperUnit first) (upperUnit second) = hexByte first second := by
  rw [hexByte, hexByte, h1.upper.2.2, h2.upper.2.2]

end
end DartSdk.Uri
