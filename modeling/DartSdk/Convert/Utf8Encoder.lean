import DartSdk.Convert.Sink
import Mathlib.Data.Nat.Bitwise

namespace DartSdk.Convert

abbrev CodeUnit := Fin 0x10000

-- Every literal of the two types refers to these, instead of to a proof of its own.
scoped instance codeUnit_neZero : NeZero 0x10000 := ⟨by decide⟩

scoped instance octet_neZero : NeZero 256 := ⟨by decide⟩

def isLeadSurrogate (codeUnit : ℕ) : Bool := codeUnit &&& 0xFC00 = 0xD800

def isTailSurrogate (codeUnit : ℕ) : Bool := codeUnit &&& 0xFC00 = 0xDC00

def combineSurrogatePair (lead tail : ℕ) : ℕ :=
  (0x10000 + ((lead &&& 0x3FF) <<< 10)) ||| (tail &&& 0x3FF)

namespace Utf8Encoder

def write (length : ℕ) (buffer bytes : List ℕ) : Option (List ℕ) :=
  if buffer.length + bytes.length ≤ length then some (buffer ++ bytes) else none

def replacementCharacter : List ℕ := [0xEF, 0xBF, 0xBD]

def surrogateBytes (rune : ℕ) : List ℕ :=
  [0xF0 ||| (rune >>> 18), 0x80 ||| ((rune >>> 12) &&& 0x3f), 0x80 ||| ((rune >>> 6) &&& 0x3f),
    0x80 ||| (rune &&& 0x3f)]

def writeSurrogate (length : ℕ) (buffer : List ℕ) (leadingSurrogate nextCodeUnit : ℕ) : Option (List ℕ × Bool) :=
  if isTailSurrogate nextCodeUnit then do
    let rune := combineSurrogatePair leadingSurrogate nextCodeUnit
    let buffer ← write length buffer (surrogateBytes rune)
    some (buffer, true)
  else do
    let buffer ← write length buffer replacementCharacter
    some (buffer, false)

def fillLoop (length : ℕ) : ℕ → List CodeUnit → List ℕ → Option (List CodeUnit × List ℕ)
  | 0, str, buffer => some (str, buffer)
  | _ + 1, [], _ => none
  | count + 1, codeUnit :: str, buffer =>
    if codeUnit.val ≤ 0x7f then
      if length ≤ buffer.length then some (codeUnit :: str, buffer)
      else do
        let buffer ← write length buffer [codeUnit.val]
        fillLoop length count str buffer
    else if isLeadSurrogate codeUnit.val then
      if length < buffer.length + 4 then some (codeUnit :: str, buffer)
      else
        match str with
        | [] => none
        | nextCodeUnit :: str' =>
          match writeSurrogate length buffer codeUnit.val nextCodeUnit.val with
          | none => none
          | some (buffer, true) => fillLoop length (count - 1) str' buffer
          | some (buffer, false) => fillLoop length count (nextCodeUnit :: str') buffer
    else if isTailSurrogate codeUnit.val then
      if length < buffer.length + 3 then some (codeUnit :: str, buffer)
      else do
        let buffer ← write length buffer replacementCharacter
        fillLoop length count str buffer
    else
      let rune := codeUnit.val
      if rune ≤ 0x7ff then
        if length ≤ buffer.length + 1 then some (codeUnit :: str, buffer)
        else do
          let buffer ← write length buffer [0xC0 ||| (rune >>> 6), 0x80 ||| (rune &&& 0x3f)]
          fillLoop length count str buffer
      else
        if length ≤ buffer.length + 2 then some (codeUnit :: str, buffer)
        else do
          let buffer ← write length buffer
            [0xE0 ||| (rune >>> 12), 0x80 ||| ((rune >>> 6) &&& 0x3f), 0x80 ||| (rune &&& 0x3f)]
          fillLoop length count str buffer

def endsInLead (str : List CodeUnit) : Bool :=
  match str.getLast? with
  | none => false
  | some codeUnit => isLeadSurrogate codeUnit.val

def fillBuffer (length : ℕ) (str : List CodeUnit) (buffer : List ℕ) : Option (List CodeUnit × List ℕ) :=
  fillLoop length (if endsInLead str then str.length - 1 else str.length) str buffer

def convert (string : List CodeUnit) : Option (List ℕ) :=
  if string.length = 0 then some []
  else do
    let (rest, buffer) ← fillBuffer (string.length * 3) string []
    if rest ≠ [] then write (string.length * 3) buffer replacementCharacter
    else some buffer

end Utf8Encoder

structure Utf8EncoderSink where
  carry : ℕ
  events : List (Sink.Event ℕ)

namespace Utf8EncoderSink
open Utf8Encoder Sink

def bufferSize : ℕ := 1024

def start : Utf8EncoderSink := ⟨0, []⟩

def finishSurrogate (isLast : Bool) (str : List CodeUnit) (buffer : List ℕ) : Option (List CodeUnit × List ℕ × ℕ) :=
  match str with
  | [codeUnit] =>
    if isLeadSurrogate codeUnit.val then
      if isLast && buffer.length < bufferSize - 3 then do
        let buffer ← write bufferSize buffer replacementCharacter
        some ([], buffer, 0)
      else some ([], buffer, codeUnit.val)
    else some (str, buffer, 0)
  | _ => some (str, buffer, 0)

def sliceLoop (isLast : Bool) : ℕ → List CodeUnit → List ℕ → Option (ℕ × List (Event ℕ))
  | 0, _, _ => none
  | fuel + 1, str, buffer => do
    let (str, buffer) ← fillBuffer bufferSize str buffer
    let isLastSlice := isLast && str.isEmpty
    let (str, buffer, carry) ← finishSurrogate isLast str buffer
    if str.isEmpty then some (carry, addSlice buffer isLastSlice)
    else do
      let (carry, events) ← sliceLoop isLast fuel str []
      some (carry, addSlice buffer isLastSlice ++ events)

def addSliceData (s : Utf8EncoderSink) (str : List CodeUnit) (isLast : Bool) :
    Option Utf8EncoderSink :=
  if str.isEmpty && !isLast then some s
  else do
    let (str, buffer) ←
      if s.carry ≠ 0 then
        match str with
        | [] => do
          let (buffer, _) ← writeSurrogate bufferSize [] s.carry 0
          some ([], buffer)
        | nextCodeUnit :: str' => do
          let (buffer, wasCombined) ← writeSurrogate bufferSize [] s.carry nextCodeUnit.val
          some (if wasCombined then str' else str, buffer)
      else some (str, [])
    let (carry, events) ← sliceLoop isLast (str.length + 1) str buffer
    some ⟨carry, s.events ++ events⟩

def closeLoop : ℕ → Utf8EncoderSink → Option Utf8EncoderSink
  | 0, _ => none
  | fuel + 1, s =>
    if s.carry ≠ 0 then do
      let s ← s.addSliceData [] true
      closeLoop fuel s
    else some { s with events := s.events ++ [.close] }

def close (s : Utf8EncoderSink) : Option Utf8EncoderSink := closeLoop 2 s

def addSlice (s : Utf8EncoderSink) (str : List CodeUnit) (isLast : Bool) :
    Option Utf8EncoderSink := do
  let s ← s.addSliceData str isLast
  if isLast then s.close else some s

end Utf8EncoderSink
end DartSdk.Convert
