import DartSdk.Convert.Sink
import Mathlib.Data.Int.Bitwise

namespace DartSdk.Convert

namespace Base64Encoder

def base64Alphabet : List Char :=
  ['A', 'B', 'C', 'D', 'E', 'F', 'G', 'H', 'I', 'J', 'K', 'L', 'M', 'N', 'O', 'P', 'Q', 'R', 'S',
    'T', 'U', 'V', 'W', 'X', 'Y', 'Z', 'a', 'b', 'c', 'd', 'e', 'f', 'g', 'h', 'i', 'j', 'k', 'l',
    'm', 'n', 'o', 'p', 'q', 'r', 's', 't', 'u', 'v', 'w', 'x', 'y', 'z', '0', '1', '2', '3', '4',
    '5', '6', '7', '8', '9', '+', '/']

def base64UrlAlphabet : List Char :=
  ['A', 'B', 'C', 'D', 'E', 'F', 'G', 'H', 'I', 'J', 'K', 'L', 'M', 'N', 'O', 'P', 'Q', 'R', 'S',
    'T', 'U', 'V', 'W', 'X', 'Y', 'Z', 'a', 'b', 'c', 'd', 'e', 'f', 'g', 'h', 'i', 'j', 'k', 'l',
    'm', 'n', 'o', 'p', 'q', 'r', 's', 't', 'u', 'v', 'w', 'x', 'y', 'z', '0', '1', '2', '3', '4',
    '5', '6', '7', '8', '9', '-', '_']

def alphabet (urlSafe : Bool) : List Char := if urlSafe then base64UrlAlphabet else base64Alphabet

def paddingChar : ℕ := 0x3d

def digit (urlSafe : Bool) (index : ℕ) : ℕ := ((alphabet urlSafe).getD (index &&& 0x3F) 'A').toNat

def encodeState (count bits : ℕ) : ℕ := (bits <<< 2) ||| count

def stateBits (state : ℕ) : ℕ := state >>> 2

def stateCount (state : ℕ) : ℕ := state &&& 3

def write (length : ℕ) (output bytes : List ℕ) : Option (List ℕ) :=
  if output.length + bytes.length ≤ length then some (output ++ bytes) else none

structure Chunk where
  bits : ℕ
  expectedChars : ℕ
  byteOr : ℤ
  output : List ℕ

variable (urlSafe : Bool) (length : ℕ)

def step (c : Chunk) (byte : ℤ) : Option Chunk :=
  let byteOr := c.byteOr.lor byte
  let bits := ((((c.bits <<< 8 : ℕ) : ℤ).lor byte).land 0xFFFFFF).toNat
  let expectedChars := c.expectedChars - 1
  if expectedChars = 0 then do
    let output ← write length c.output [digit urlSafe (bits >>> 18), digit urlSafe (bits >>> 12),
      digit urlSafe (bits >>> 6), digit urlSafe bits]
    some ⟨0, 3, byteOr, output⟩
  else some ⟨bits, expectedChars, byteOr, c.output⟩

def writeFinalChunk (output : List ℕ) (count bits : ℕ) : Option (List ℕ) :=
  if count = 1 then write length output
    [digit urlSafe (bits >>> 2), digit urlSafe (bits <<< 4), paddingChar, paddingChar]
  else write length output [digit urlSafe (bits >>> 10), digit urlSafe (bits >>> 4), digit urlSafe (bits <<< 2),
      paddingChar]

def encodeChunk (bytes : List ℤ) (isLast : Bool) (state : ℕ) : Option (ℕ × List ℕ) := do
  let c ← bytes.foldlM (step urlSafe length) ⟨stateBits state, 3 - stateCount state, 0, []⟩
  if 0 ≤ c.byteOr ∧ c.byteOr ≤ 255 then
    if isLast && c.expectedChars < 3 then do
      let output ← writeFinalChunk urlSafe length c.output (3 - c.expectedChars) c.bits
      some (0, output)
    else some (encodeState (3 - c.expectedChars) c.bits, c.output)
  else none

def bufferLength (bytes : List ℤ) (isLast : Bool) (state : ℕ) : ℕ :=
  let byteCount := stateCount state + bytes.length
  let fullChunks := byteCount / 3
  let partialChunkLength := byteCount - fullChunks * 3
  if isLast && 0 < partialChunkLength then fullChunks * 4 + 4 else fullChunks * 4

def encode (state : ℕ) (bytes : List ℤ) (isLast : Bool) : Option (ℕ × Option (List ℕ)) := do
  let length := bufferLength bytes isLast state
  let (state, output) ← encodeChunk urlSafe length bytes isLast state
  some (state, if 0 < length then some (output ++ List.replicate (length - output.length) 0)
    else none)

end Base64Encoder

structure Base64EncoderSink where
  state : ℕ
  events : List (Sink.Event ℕ)

namespace Base64EncoderSink
open Base64Encoder Sink

def start : Base64EncoderSink := ⟨0, []⟩

def asciiAdd (urlSafe : Bool) (s : Base64EncoderSink) (source : List ℤ) (isLast : Bool) :
    Base64EncoderSink :=
  match encode urlSafe s.state source isLast with
  | none => s
  | some (state, buffer) =>
    let added := match buffer with
      | none => []
      | some buffer => [.add buffer]
    ⟨state, s.events ++ added ++ if isLast then [.close] else []⟩

def utf8Add (urlSafe : Bool) (s : Base64EncoderSink) (source : List ℤ) (isLast : Bool) :
    Base64EncoderSink :=
  match encode urlSafe s.state source isLast with
  | none => s
  | some (state, buffer) =>
    let added := match buffer with
      | none => []
      | some buffer => addSlice buffer isLast
    ⟨state, s.events ++ added⟩

end Base64EncoderSink
end DartSdk.Convert
