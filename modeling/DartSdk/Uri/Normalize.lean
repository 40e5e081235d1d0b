import DartSdk.Uri.Characters

namespace DartSdk.Uri
open DartSdk.Convert

def percent : CodeUnit := unit 0x25

def normalizeEscape (source : Text) (index : ℕ) (lowerCase : Bool) : Option Text :=
  if source.length ≤ index + 2 then some [percent]
  else
    let firstDigit := codeUnitAt source (index + 1)
    let secondDigit := codeUnitAt source (index + 2)
    let firstDigitValue := hexDigitValue firstDigit
    let secondDigitValue := hexDigitValue secondDigit
    if firstDigitValue < 0 ∨ secondDigitValue < 0 then some [percent]
    else
      let value := (firstDigitValue * 16 + secondDigitValue).toNat
      if isUnreservedChar value then
        if lowerCase ∧ 0x41 ≤ value ∧ value ≤ 0x5A then some [unit (value ||| 0x20)]
        else some [unit value]
      else if 0x61 ≤ firstDigit ∨ 0x61 ≤ secondDigit then
        some (toUpperCase (substring source index (index + 3)))
      else none

section

def escapeByte (byte : ℕ) : Text := [percent, hexDigit (byte >>> 4), hexDigit (byte &&& 0xf)]

def escapeLoop (char : ℕ) : ℕ → ℕ → Text
  | 0, _ => []
  | encodedBytes + 1, flag =>
    escapeByte (((char >>> (6 * encodedBytes)) &&& 0x3f) ||| flag) ++ escapeLoop char encodedBytes 0x80

def escapeChar (char : ℕ) : Text :=
  if char < 0x80 then escapeByte char
  else if 0x7ff < char then
    if 0xffff < char then escapeLoop char 4 0xf0 else escapeLoop char 3 0xe0
  else escapeLoop char 2 0xc0

end

structure Replacement where
  text : Text
  sourceLength : ℕ
  sourceLength_pos : 0 < sourceLength

def escapeAt (component : Text) (stop index : ℕ) : Replacement :=
  let char := codeUnitAt component index
  let tail := codeUnitAt component (index + 1)
  if char &&& 0xFC00 = 0xD800 ∧ index + 1 < stop ∧ tail &&& 0xFC00 = 0xDC00 then
    ⟨escapeChar (0x10000 ||| ((char &&& 0x3ff) <<< 10) ||| (tail &&& 0x3ff)), 2, Nat.two_pos⟩
  else ⟨escapeChar char, 1, Nat.one_pos⟩

section
variable (charTable : List ℕ) (escapeDelimiters replaceBackslash : Bool)

def replacementAt (component : Text) (stop index : ℕ) : Except FormatException (Option Replacement) :=
  let char := codeUnitAt component index
  if char = 0x25 then
    match normalizeEscape component index false with
    | none => .ok none
    | some replacement =>
      if replacement = [percent] then .ok (some ⟨ascii "%25", 1, Nat.one_pos⟩)
      else .ok (some ⟨replacement, 3, Nat.succ_pos 2⟩)
  else if char = 0x5C ∧ replaceBackslash then .ok (some ⟨[slash], 1, Nat.one_pos⟩)
  else if ¬escapeDelimiters ∧ isGeneralDelimiter char then
    .error ⟨"Invalid character", component, some index⟩
  else .ok (some (escapeAt component stop index))

def normalizeLoop (component : Text) (stop : ℕ) (buffer : Option Text) (sectionStart index : ℕ) :
    Except FormatException (Option Text) :=
  if index < stop then
    let char := codeUnitAt component index
    if char < 127 ∧ inTable charTable char then
      normalizeLoop component stop buffer sectionStart (index + 1)
    else
      match replacementAt escapeDelimiters replaceBackslash component stop index with
      | .error e => .error e
      | .ok none => normalizeLoop component stop buffer sectionStart (index + 3)
      | .ok (some r) =>
        normalizeLoop component stop (some (buffer.getD [] ++ substring component sectionStart index ++ r.text))
          (index + r.sourceLength) (index + r.sourceLength)
  else
    match buffer with
    | none => .ok none
    | some written =>
      if sectionStart < stop then .ok (some (written ++ substring component sectionStart stop))
      else .ok (some written)
termination_by stop - index
decreasing_by
  · omega
  · omega
  · have := r.sourceLength_pos
    omega

def normalize (component : Text) (start stop : ℕ) : Except FormatException (Option Text) :=
  normalizeLoop charTable escapeDelimiters replaceBackslash component stop none start start

def normalizeOrSubstring (component : Text) (start stop : ℕ) : Except FormatException Text := do
  let normalized ← normalize charTable escapeDelimiters replaceBackslash component start stop
  .ok (normalized.getD (substring component start stop))

end

section

def regNameSlice (host : Text) (sectionStart index : ℕ) (isNormalized : Bool) : Text :=
  if isNormalized then substring host sectionStart index
  else toLowerCase (substring host sectionStart index)

def regNameEscape (host : Text) (index : ℕ) : Replacement :=
  match normalizeEscape host index true with
  | none => ⟨substring host index (index + 3), 3, Nat.succ_pos 2⟩
  | some replacement =>
    if replacement = [percent] then ⟨ascii "%25", 1, Nat.one_pos⟩
    else ⟨replacement, 3, Nat.succ_pos 2⟩

def regNameLoop (host : Text) (stop : ℕ) (buffer : Option Text) (sectionStart : ℕ)
    (isNormalized : Bool) (index : ℕ) : Except FormatException (Option Text) :=
  if index < stop then
    let char := codeUnitAt host index
    if char = 0x25 then
      if normalizeEscape host index true = none ∧ isNormalized then
        regNameLoop host stop buffer sectionStart isNormalized (index + 3)
      else
        let r := regNameEscape host index
        regNameLoop host stop (some (buffer.getD [] ++ regNameSlice host sectionStart index isNormalized ++ r.text))
          (index + r.sourceLength) true (index + r.sourceLength)
    else if isRegNameChar char then
      if isNormalized ∧ 0x41 ≤ char ∧ char ≤ 0x5A then
        if sectionStart < index then
          regNameLoop host stop (some (buffer.getD [] ++ substring host sectionStart index)) index false (index + 1)
        else regNameLoop host stop (some (buffer.getD [])) sectionStart false (index + 1)
      else regNameLoop host stop buffer sectionStart isNormalized (index + 1)
    else if isGeneralDelimiter char then .error ⟨"Invalid character", host, some index⟩
    else
      let r := escapeAt host stop index
      regNameLoop host stop (some (buffer.getD [] ++ regNameSlice host sectionStart index isNormalized ++ r.text))
        (index + r.sourceLength) isNormalized (index + r.sourceLength)
  else
    match buffer with
    | none => .ok none
    | some written =>
      if sectionStart < stop then
        .ok (some (written ++ regNameSlice host sectionStart stop isNormalized))
      else .ok (some written)
termination_by stop - index
decreasing_by
  · omega
  · have := (regNameEscape host index).sourceLength_pos
    omega
  · omega
  · omega
  · omega
  · have := (escapeAt host stop index).sourceLength_pos
    omega

def normalizeRegName (host : Text) (start stop : ℕ) : Except FormatException Text := do
  let normalized ← regNameLoop host stop none start true start
  .ok (normalized.getD (substring host start stop))

end

section

def makeUserInfo (userInfo : Text) (start stop : ℕ) : Except FormatException Text :=
  normalizeOrSubstring userinfoTable false false userInfo start stop

def normalizePathChars (path : Text) (start stop : ℕ) : Except FormatException Text :=
  normalizeOrSubstring pathCharOrSlashTable true true path start stop

def makeQuery (query : Text) (start stop : ℕ) : Except FormatException Text :=
  normalizeOrSubstring queryCharTable true false query start stop

def makeFragment (fragment : Text) (start stop : ℕ) : Except FormatException Text :=
  normalizeOrSubstring queryCharTable true false fragment start stop

end
end DartSdk.Uri
