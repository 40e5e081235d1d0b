import DartSdk.Convert.Sink
import Mathlib.Data.Int.Init

namespace DartSdk.Convert

structure FormatException where
  message : String
  source : Option (List ℕ)
  offset : Option ℕ
deriving DecidableEq

inductive Error
  | format (e : FormatException)
  | range
deriving DecidableEq

namespace Base64Decoder

def inverseAlphabet : List ℤ :=
  [-2, -2, -2, -2, -2, -2, -2, -2, -2, -2, -2, -2, -2, -2, -2, -2,
    -2, -2, -2, -2, -2, -2, -2, -2, -2, -2, -2, -2, -2, -2, -2, -2,
    -2, -2, -2, -2, -2, -1, -2, -2, -2, -2, -2, 62, -2, 62, -2, 63,
    52, 53, 54, 55, 56, 57, 58, 59, 60, 61, -2, -2, -2, -1, -2, -2,
    -2, 0, 1, 2, 3, 4, 5, 6, 7, 8, 9, 10, 11, 12, 13, 14,
    15, 16, 17, 18, 19, 20, 21, 22, 23, 24, 25, -2, -2, -2, -2, 63,
    -2, 26, 27, 28, 29, 30, 31, 32, 33, 34, 35, 36, 37, 38, 39, 40,
    41, 42, 43, 44, 45, 46, 47, 48, 49, 50, 51, -2, -2, -2, -2, -2]

def paddingChar : ℕ := 0x3d
def charPercent : ℕ := 0x25
def char3 : ℕ := 0x33
def charD : ℕ := 0x64

def encodeCharacterState (count bits : ℕ) : ℤ := ((bits <<< 2) ||| count : ℕ)

def stateCount (state : ℕ) : ℕ := state &&& 3

def stateBits (state : ℕ) : ℕ := state >>> 2

def encodePaddingState (expectedPadding : ℕ) : ℤ := -expectedPadding - 1

def statePadding (state : ℤ) : ℕ := (-state - 1).toNat

def expectD (expectedPadding : ℕ) : List ℕ → ℕ × List ℕ × Bool
  | [] => (expectedPadding, [], false)
  | char :: rest =>
    if (char ||| 0x20) ≠ charD then (expectedPadding, char :: rest, false)
    else (expectedPadding - 1, rest, !rest.isEmpty)

def expectEscape (expectedPadding : ℕ) (input : List ℕ) : ℕ × List ℕ × Bool :=
  let expectedPartialPadding := if 3 < expectedPadding then expectedPadding - 3 else expectedPadding
  if expectedPartialPadding = 2 then
    match input with
    | [] => (expectedPadding, [], false)
    | char :: rest =>
      if char ≠ char3 then (expectedPadding, char :: rest, false)
      else if rest.isEmpty then (expectedPadding - 1, [], false)
      else expectD (expectedPadding - 1) rest
  else expectD expectedPadding input

def paddingStep (expectedPadding : ℕ) (input : List ℕ) : ℕ × List ℕ × Bool :=
  match input with
  | [] => (expectedPadding, [], false)
  | char :: rest =>
    if expectedPadding = 3 then
      if char = paddingChar then (0, rest, false)
      else if char = charPercent then
        if rest.isEmpty then (2, [], false) else expectEscape 2 rest
      else (expectedPadding, char :: rest, false)
    else expectEscape expectedPadding (char :: rest)

def paddingLoop : ℕ → ℕ → List ℕ → ℕ × List ℕ
  | 0, expectedPadding, input => (expectedPadding, input)
  | fuel + 1, expectedPadding, input =>
    if expectedPadding = 0 then (expectedPadding, input)
    else
      match paddingStep expectedPadding input with
      | (expectedPadding, input, true) => paddingLoop fuel expectedPadding input
      | (expectedPadding, input, false) => (expectedPadding, input)

def checkPadding (source : List ℕ) (start : ℕ) (input : List ℕ) (state : ℤ) : Except Error ℤ :=
  if input.isEmpty then .ok state
  else
    let (expectedPadding, rest) := paddingLoop (input.length + 1) (statePadding state) input
    if rest.isEmpty then .ok (encodePaddingState expectedPadding)
    else .error (.format ⟨"Invalid padding character", some source, some (start + input.length - rest.length)⟩)

def write (length : ℕ) (output bytes : List ℕ) : Except Error (List ℕ) :=
  if output.length + bytes.length ≤ length then .ok (output ++ bytes.map (· % 256))
  else .error .range

structure Chunk where
  bits : ℕ
  count : ℕ
  charOr : ℕ
  output : List ℕ

def finalBytes (source : List ℕ) (i : ℕ) (count bits : ℕ) : Except Error (List ℕ) :=
  if count = 3 then
    if bits &&& 0x03 ≠ 0 then
      .error (.format ⟨"Invalid encoding before padding", some source, some i⟩)
    else .ok [bits >>> 10, bits >>> 2]
  else
    if bits &&& 0x0F ≠ 0 then
      .error (.format ⟨"Invalid encoding before padding", some source, some i⟩)
    else .ok [bits >>> 4]

def nonAscii (source : List ℕ) (start : ℕ) (input : List ℕ) : Error :=
  .format ⟨"Invalid character", some source, some (start + input.findIdx (127 < ·))⟩

/-- The loop of `decodeChunk`, at the position `i` of `source`; `start` and `all` are those of the
whole part.  The result is the new state and what has been written. -/
def decodeLoop (length : ℕ) (source : List ℕ) (start : ℕ) (all : List ℕ) :
    ℕ → List ℕ → Chunk → Except Error (ℤ × List ℕ)
  | _, [], c =>
    if c.charOr ≤ 127 then .ok (encodeCharacterState c.count c.bits, c.output)
    else .error (nonAscii source start all)
  | i, char :: rest, c =>
    let charOr := c.charOr ||| char
    let code := inverseAlphabet.getD (char &&& 127) (-2)
    if 0 ≤ code then
      let bits := ((c.bits <<< 6) ||| code.toNat) &&& 0xFFFFFF
      let count := (c.count + 1) &&& 3
      if count = 0 then do
        let output ← write length c.output [(bits >>> 16) &&& 0xFF, (bits >>> 8) &&& 0xFF, bits &&& 0xFF]
        decodeLoop length source start all (i + 1) rest ⟨0, 0, charOr, output⟩
      else decodeLoop length source start all (i + 1) rest ⟨bits, count, charOr, c.output⟩
    else if code = -1 ∧ 1 < c.count then
      if 127 < charOr then .error (nonAscii source start all)
      else do
        let bytes ← finalBytes source i c.count c.bits
        let output ← write length c.output bytes
        let expectedPadding := (3 - c.count) * 3 + if char = charPercent then 2 else 0
        let state ← checkPadding source (i + 1) rest (encodePaddingState expectedPadding)
        .ok (state, output)
    else .error (.format ⟨"Invalid character", some source, some i⟩)

def decodeChunk (length : ℕ) (source : List ℕ) (start : ℕ) (input : List ℕ) (state : ℕ) : Except Error (ℤ × List ℕ) :=
  decodeLoop length source start input start input ⟨stateBits state, stateCount state, 0, []⟩

def skipBack (isMatch : Bool) (char : ℕ) (before : List ℕ) : Option (ℕ × List ℕ) :=
  if isMatch then
    match before with
    | [] => none
    | char :: before => some (char, before)
  else some (char, before)

/-- The loop of `_trimPaddingChars` over the reversed input, for at most `padding` more paddings;
`newEnd` is the number of code units before the padding. -/
def trimLoop : ℕ → List ℕ → ℕ → ℕ
  | 0, _, newEnd => newEnd
  | _ + 1, [], newEnd => newEnd
  | padding + 1, char :: before, newEnd =>
    if char = paddingChar then trimLoop padding before before.length
    else
      match skipBack ((char ||| 0x20) == charD) char before with
      | none => newEnd
      | some (char, before) =>
        match skipBack (char == char3) char before with
        | none => newEnd
        | some (char, before) =>
          if char = charPercent then trimLoop padding before before.length else newEnd

def trimPaddingChars (input : List ℕ) : ℕ := trimLoop 2 input.reverse input.length

def bufferLength (input : List ℕ) (state : ℕ) : ℕ :=
  let paddingStart := trimPaddingChars input
  let length := stateCount state + paddingStart
  let remainderLength := length &&& 3
  (length >>> 2) * 3 +
    if remainderLength ≠ 0 ∧ paddingStart < input.length then remainderLength - 1 else 0

def decode (state : ℤ) (source : List ℕ) (start : ℕ) (input : List ℕ) : Except Error (ℤ × Option (List ℕ)) :=
  if state < 0 then do
    let state ← checkPadding source start input state
    .ok (state, none)
  else if input.isEmpty then .ok (state, some [])
  else do
    let length := bufferLength input state.toNat
    let (state, output) ← decodeChunk length source start input state.toNat
    .ok (state, some (output ++ List.replicate (length - output.length) 0))

def close (state : ℤ) (source : Option (List ℕ)) (offset : Option ℕ) : Except Error ℤ :=
  if state < encodePaddingState 0 then
    .error (.format ⟨"Missing padding character", source, offset⟩)
  else if 0 < state then
    .error (.format ⟨"Invalid length, must be multiple of four", source, offset⟩)
  else .ok (encodePaddingState 0)

end Base64Decoder
end DartSdk.Convert
