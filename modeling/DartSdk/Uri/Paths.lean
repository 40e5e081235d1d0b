import DartSdk.Uri.Characters
import Mathlib.Data.List.Basic

namespace DartSdk.Uri
open DartSdk.Convert

def dot : CodeUnit := unit 0x2E

def colon : CodeUnit := unit 0x3A

section

def startsWith (s pattern : Text) (index : ℕ) : Bool := pattern.isPrefixOf (s.drop index)

def lastSlash (s : Text) : ℕ → Option ℕ
  | 0 => if s.getD 0 (unit 0) = slash then some 0 else none
  | start + 1 => if s.getD (start + 1) (unit 0) = slash then some (start + 1) else lastSlash s start

def segments (path : Text) : List Text := path.splitOn slash

def joined (output : List Text) : Text := [slash].intercalate output

end

section

def backSegments (s : Text) : ℕ :=
  match s with
  | a :: b :: c :: rest => if a = dot ∧ b = dot ∧ c = slash then backSegments rest + 1 else 0
  | _ => 0

def mergeLoop (base : Text) (baseEnd : ℕ) : ℕ → ℕ × ℕ
  | 0 => (baseEnd, 0)
  | backCount + 1 =>
    if 0 < baseEnd then
      match lastSlash base (baseEnd - 1) with
      | none => (baseEnd, backCount + 1)
      | some newEnd =>
        let delta := baseEnd - newEnd
        if (delta = 2 ∨ delta = 3) ∧ codeUnitAt base (newEnd + 1) = 0x2E ∧
            (delta = 2 ∨ codeUnitAt base (newEnd + 2) = 0x2E) then (baseEnd, backCount + 1)
        else mergeLoop base newEnd backCount
    else (baseEnd, backCount + 1)

def mergePaths (base reference : Text) : Text :=
  let backCount := backSegments reference
  let refStart := 3 * backCount
  match lastSlash base base.length with
  | none => reference.drop (refStart - 3 * backCount)
  | some baseEnd =>
    let (baseEnd, backCount) := mergeLoop base baseEnd backCount
    base.take (baseEnd + 1) ++ reference.drop (refStart - 3 * backCount)

end

section

def containsSlashDot : Text → Bool
  | a :: b :: rest => (a = slash && b = dot) || containsSlashDot (b :: rest)
  | _ => false

def mayContainDotSegments (path : Text) : Bool := startsWith path [dot] 0 || containsSlashDot path

def removeDotStep (output : List Text) (segment : Text) : List Text × Bool :=
  if segment = [dot, dot] then
    if output = [] then (output, true)
    else if output.dropLast = [] then ([[]], true)
    else (output.dropLast, true)
  else if segment = [dot] then (output, true)
  else (output ++ [segment], false)

def removeDotLoop : List Text → List Text → Bool → List Text × Bool
  | [], output, appendSlash => (output, appendSlash)
  | segment :: rest, output, _ =>
    let (output, appendSlash) := removeDotStep output segment
    removeDotLoop rest output appendSlash

def removeDotSegments (path : Text) : Text :=
  if mayContainDotSegments path then
    let (output, appendSlash) := removeDotLoop (segments path) [] false
    joined (if appendSlash then output ++ [[]] else output)
  else path

def schemeColon (path : Text) : ℕ → ℕ → Option ℕ
  | 0, _ => none
  | count + 1, i =>
    let char := codeUnitAt path i
    if char = 0x3A then some i
    else if 127 < char ∨ ¬inTable schemeTable char then none
    else schemeColon path count (i + 1)

def escapeScheme (path : Text) : Text :=
  if 2 ≤ path.length ∧ isAlphabeticCharacter (codeUnitAt path 0) then
    match schemeColon path (path.length - 1) 1 with
    | some i => path.take i ++ ascii "%3A" ++ path.drop (i + 1)
    | none => path
  else path

def relativeStep (output : List Text) (segment : Text) : List Text × Bool :=
  if segment = [dot, dot] then
    if output ≠ [] ∧ output.getLast? ≠ some [dot, dot] then (output.dropLast, true)
    else (output ++ [[dot, dot]], false)
  else if segment = [dot] then (output, true)
  else (output ++ [segment], false)

def relativeLoop : List Text → List Text → Bool → List Text × Bool
  | [], output, appendSlash => (output, appendSlash)
  | segment :: rest, output, _ =>
    let (output, appendSlash) := relativeStep output segment
    relativeLoop rest output appendSlash

def escapeFirst (allowScheme : Bool) : List Text → List Text
  | [] => []
  | first :: rest => (if allowScheme then first else escapeScheme first) :: rest

def normalizeRelativePath (path : Text) (allowScheme : Bool) : Text :=
  if mayContainDotSegments path then
    let (output, appendSlash) := relativeLoop (segments path) [] false
    if output = [] ∨ output = [[]] then [dot, slash]
    else
      let output := if appendSlash ∨ output.getLast? = some [dot, dot] then output ++ [[]] else output
      joined (escapeFirst allowScheme output)
  else if allowScheme then path else escapeScheme path

end

section

def skipLoop (source : Text) : ℕ → ℕ → ℕ → Option ℕ
  | 0, _, _ => none
  | count + 1, i, dots =>
    let char := codeUnitAt source i
    if char = 0x2F then if dots ≠ 0 then some i else none
    else if char = 0x25 ∨ char = 0x3A then none
    else skipLoop source count (i + 1) (dots ||| (char ^^^ 0x2E))

def skipPackageNameChars (source : Text) (start stop : ℕ) : Option ℕ :=
  skipLoop source (stop - start) start 0

end
end DartSdk.Uri
