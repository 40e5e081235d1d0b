import DartSdk.Uri.Resolve

namespace DartSdk.Uri
open DartSdk.Convert

inductive ParseError
  | format (e : FormatException)
  /-- A `RangeError`, from `codeUnitAt` or `substring`. -/
  | range
deriving DecidableEq

section

def isWhitespace (codeUnit : ℕ) : Bool :=
  if codeUnit ≤ 32 then codeUnit = 32 || (codeUnit ≤ 13 && 9 ≤ codeUnit)
  else if codeUnit < 0x85 then false
  else if codeUnit = 0x85 || codeUnit = 0xA0 then true
  else if codeUnit ≤ 0x200A then codeUnit = 0x1680 || 0x2000 ≤ codeUnit
  else codeUnit = 0x2028 || codeUnit = 0x2029 || codeUnit = 0x202F || codeUnit = 0x205F ||
    codeUnit = 0x3000 || codeUnit = 0xFEFF

def firstNonWhitespace (s : Text) : ℕ := (s.takeWhile (isWhitespace ·.val)).length

def afterLastNonWhitespace (s : Text) : ℕ := s.length - (s.reverse.takeWhile (isWhitespace ·.val)).length

def blockDigit (char : ℕ) : Option ℕ :=
  if 9 < char ^^^ 0x30 then
    let digit : ℤ := (char ||| 0x20 : ℕ) - (0x61 - 10)
    if digit < 10 ∨ 16 ≤ digit then none else some digit.toNat
  else some (char ^^^ 0x30)

def parseBlock : Text → ℕ → Option ℕ
  | [], result => some result
  | u :: s, result => do
    let digit ← blockDigit u.val
    parseBlock s (16 * result + digit)

def parseRadix16 (source : Text) : Except FormatException ℤ :=
  let error (index : ℕ) : FormatException := ⟨"Invalid radix-16 number", source, some index⟩
  if source = [] then .error (error 0)
  else
    let stop := afterLastNonWhitespace source
    if stop = 0 then .error (error source.length)
    else
      let start := firstNonWhitespace source
      let first := codeUnitAt source start
      let signed := first = 0x2B ∨ first = 0x2D
      let sign : ℤ := if first = 0x2D then -1 else 1
      if signed ∧ start + 1 = stop then .error (error stop)
      else
        let start := if signed then start + 1 else start
        match parseBlock (substring source start stop) 0 with
        | none => .error (error start)
        | some n => .ok (sign * n)

def parseDecimal (source : Text) : Except FormatException ℕ :=
  if source = [] then .error ⟨"Invalid number", source, some 0⟩ else parseDigits source

end

section

def parsePart (host : Text) (start stop : ℕ) : Except FormatException ℕ := do
  let part ← parseDecimal (substring host start stop)
  if part > 255 then .error ⟨"Illegal IPv4 address, each part must be in the range 0..255", host, some start⟩
  else .ok part

def parseIPv4Loop (host : Text) : ℕ → ℕ → ℕ → List ℕ → Except FormatException (ℕ × List ℕ)
  | 0, _, partStart, result => .ok (partStart, result)
  | n + 1, i, partStart, result =>
    let char := codeUnitAt host i
    if char ≠ dot.val then
      if char ^^^ 0x30 > 9 then .error ⟨"Illegal IPv4 address, invalid character", host, some i⟩
      else parseIPv4Loop host n (i + 1) partStart result
    else if result.length = 3 then
      .error ⟨"Illegal IPv4 address, IPv4 address should contain exactly 4 parts", host, some i⟩
    else do
      let part ← parsePart host partStart i
      parseIPv4Loop host n (i + 1) (i + 1) (result ++ [part])

def lastOctet (host : Text) (stop partStart : ℕ) (result : List ℕ) : Except FormatException (List ℕ) :=
  if result.length ≠ 3 then
    .error ⟨"Illegal IPv4 address, IPv4 address should contain exactly 4 parts", host, some stop⟩
  else do
    let part ← parsePart host partStart stop
    .ok (result ++ [part])

def parseIPv4Address (host : Text) (start stop : ℕ) : Except FormatException (List ℕ) := do
  let r ← parseIPv4Loop host (stop - start) start start []
  lastOctet host stop r.1 r.2

end

section

def illegal (msg : String) (host : Text) (position : Option ℕ) : ParseError :=
  .format ⟨"Illegal IPv6 address, " ++ msg, host, position⟩

def parseHex (host : Text) (start stop : ℕ) : Except ParseError ℤ :=
  if stop > start + 4 then
    .error (illegal "an IPv6 part can only contain a maximum of 4 hex digits" host (some start))
  else if stop < start then .error .range
  else
    match parseRadix16 (substring host start stop) with
    | .error e => .error (.format e)
    | .ok value =>
      if value < 0 ∨ value > 0xFFFF then
        .error (illegal "each part must be in the range of \x600x0..0xFFFF\x60" host (some start))
      else .ok value

structure Parts where
  parts : List ℤ
  wildcardSeen : Bool
  seenDot : Bool
  partStart : ℕ
deriving DecidableEq

def endPart (host : Text) (i : ℕ) (s : Parts) : Except ParseError Parts :=
  if i = s.partStart then
    if s.wildcardSeen then .error (illegal "only one wildcard \x60::\x60 is allowed" host (some i))
    else .ok { s with parts := s.parts ++ [-1], wildcardSeen := true, partStart := i + 1 }
  else do
    let value ← parseHex host s.partStart i
    .ok { s with parts := s.parts ++ [value], partStart := i + 1 }

def parseIPv6Loop (host : Text) (start stop : ℕ) : ℕ → ℕ → Parts → Except ParseError Parts
  | 0, _, s => .ok s
  | n + 1, i, s =>
    if i < stop then
      let char := codeUnitAt host i
      if char = colon.val then
        if i = start then
          if host.length ≤ i + 1 then .error .range
          else if codeUnitAt host (i + 1) ≠ colon.val then
            .error (illegal "invalid start colon." host (some (i + 1)))
          else do
            let s ← endPart host (i + 1) { s with partStart := i + 1 }
            parseIPv6Loop host start stop n (i + 2) s
        else do
          let s ← endPart host i s
          parseIPv6Loop host start stop n (i + 1) s
      else
        let s := if char = dot.val then { s with seenDot := true } else s
        parseIPv6Loop host start stop n (i + 1) s
    else .ok s

def lastPart (host : Text) (stop : ℕ) (s : Parts) : Except ParseError (List ℤ) :=
  if s.partStart = stop then
    if s.parts.getLast? = some (-1) then .ok s.parts
    else .error (illegal "expected a part after last \x60:\x60" host (some stop))
  else if s.seenDot = false then do
    let value ← parseHex host s.partStart stop
    .ok (s.parts ++ [value])
  else
    match parseIPv4Address host s.partStart stop with
    | .error e => .error (.format e)
    | .ok last =>
      let high := last.getD 0 0 <<< 8 ||| last.getD 1 0
      let low := last.getD 2 0 <<< 8 ||| last.getD 3 0
      .ok (s.parts ++ [(high : ℤ), (low : ℤ)])

def partBytes (wildCardLength : ℕ) (value : ℤ) : List ℕ :=
  if value = -1 then List.replicate (2 * wildCardLength) 0
  else [value.toNat >>> 8, value.toNat &&& 0xff]

def addressBytes (host : Text) (stop : ℕ) (s : Parts) : Except ParseError (List ℕ) :=
  if s.parts.length = 0 then .error (illegal "too few parts" host none)
  else do
    let parts ← lastPart host stop s
    if s.wildcardSeen then
      if parts.length > 7 then
        .error (illegal "an address with a wildcard must have less than 7 parts" host none)
      else .ok (parts.flatMap (partBytes (9 - parts.length)))
    else if parts.length ≠ 8 then
      .error (illegal "an address without a wildcard must contain exactly 8 parts" host none)
    else .ok (parts.flatMap (partBytes (9 - parts.length)))

def parseIPv6Address (host : Text) (start stop : ℕ) : Except ParseError (List ℕ) :=
  if host.length < 2 then .error (illegal "address is too short" host none)
  else do
    let s ← parseIPv6Loop host start stop (stop - start) start ⟨[], false, false, start⟩
    addressBytes host stop s

end
end DartSdk.Uri
