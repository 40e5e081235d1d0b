import Mathlib.Data.BitVec

/-!
The encodings of `datastream.h`: `BaseWriteStream` and `ReadStream`.  A value of a `w`-bit integer
type is its bit pattern.  `none` stands for a failed assertion, which includes the end of the
buffer, or for a shift by the width of the type or more.
-/

namespace DartSdk.Streams

abbrev Byte := BitVec 8

variable {w : ℕ}

namespace BaseWriteStream

/-- The loop of `Write` and `WriteUnsigned`: the parts of seven bits while there are more, then the
rest with the end marker.  A value of `w` bits has fewer than `w` parts. -/
def writeParts (more : BitVec w → Bool) (shift : BitVec w → BitVec w) (endMarker : BitVec w) :
    ℕ → BitVec w → Option (List Byte)
  | 0, _ => none
  | fuel + 1, v =>
    if more v then do
      let rest ← writeParts more shift endMarker fuel (shift v)
      some ((v &&& 127).setWidth 8 :: rest)
    else some [(v + endMarker).setWidth 8]

def exceedsData (v : BitVec w) : Bool := v.slt (-64) || (63 : BitVec w).slt v

def exceedsUnsignedData (v : BitVec w) : Bool := (127 : BitVec w).ult v

def write (value : BitVec w) : Option (List Byte) :=
  writeParts exceedsData (·.sshiftRight 7) 192 w value

def writeUnsigned (isSigned : Bool) (value : BitVec w) : Option (List Byte) := do
  guard !(isSigned && value.msb)
  writeParts exceedsUnsignedData (· >>> 7) 128 w value

def writeRefId (value : ℤ) : Option (List Byte) := do
  guard (0 ≤ value ∧ value < 2 ^ 28)
  let value := value.toNat
  some ((if value >>> 21 ≠ 0 then [BitVec.ofNat 8 (value >>> 21 &&& 127)] else []) ++
    (if value >>> 14 ≠ 0 then [BitVec.ofNat 8 (value >>> 14 &&& 127)] else []) ++
    (if value >>> 7 ≠ 0 then [BitVec.ofNat 8 (value >>> 7 &&& 127)] else []) ++
    [BitVec.ofNat 8 (value &&& 127 ||| 128)])

def lebParts : ℕ → BitVec w → Option (List Byte)
  | 0, _ => none
  | fuel + 1, remainder =>
    let part : Byte := (remainder &&& 127).setWidth 8
    let remainder := remainder >>> 7
    if remainder = 0 then some [part]
    else do
      let rest ← lebParts fuel remainder
      some ((part ||| 128) :: rest)

def writeLEB128 (isSigned : Bool) (value : BitVec w) : Option (List Byte) := do
  guard !(isSigned && value.msb)
  lebParts w value

def signExtend (w : ℕ) : BitVec w := ~~~(((1 : BitVec w) <<< (w - 7)) - 1)

def slebParts (isNegative : Bool) : ℕ → BitVec w → Option (List Byte)
  | 0, _ => none
  | fuel + 1, remainder => do
    let part : Byte := (remainder &&& 127).setWidth 8
    let remainder := remainder.sshiftRight 7
    let remainder := if isNegative then remainder ||| signExtend w else remainder
    guard (remainder.msb = isNegative)
    let isLastPart :=
      if isNegative then decide (remainder = ~~~0) && decide (part &&& 64 ≠ 0)
      else decide (remainder = 0) && decide (part &&& 64 = 0)
    if isLastPart then some [part]
    else
      let rest ← slebParts isNegative fuel remainder
      some ((part ||| 128) :: rest)

def writeSLEB128 (value : BitVec w) : Option (List Byte) := slebParts value.msb w value

end BaseWriteStream

namespace ReadStream

def shiftIn (r x : BitVec w) (s : ℕ) : Option (BitVec w) :=
  if s < w then some (r ||| x <<< s) else none

def readParts (endByteMarker : BitVec w) : BitVec w → ℕ → List Byte → Option (BitVec w × List Byte)
  | _, _, [] => none
  | r, s, b :: stream =>
    if b.toNat ≤ 127 then do
      let r ← shiftIn r (b.setWidth w) s
      readParts endByteMarker r (s + 7) stream
    else do
      let r ← shiftIn r (b.setWidth w - endByteMarker) s
      some (r, stream)

def readMarked (endByteMarker : BitVec w) : List Byte → Option (BitVec w × List Byte)
  | [] => none
  | b :: stream =>
    if 127 < b.toNat then some (b.setWidth w - endByteMarker, stream)
    else do
      let r ← shiftIn 0 (b.setWidth w) 0
      readParts endByteMarker r 7 stream

def read (stream : List Byte) : Option (BitVec w × List Byte) := readMarked 192 stream

def readUnsigned (stream : List Byte) : Option (BitVec w × List Byte) := readMarked 128 stream

def unrolledParts (endByteMarker : BitVec w) (last : ℕ) :
    List ℕ → BitVec w → List Byte → Option (BitVec w × List Byte)
  | _, _, [] => none
  | [], r, b :: stream => do
    guard (127 < b.toNat)
    let r ← shiftIn r (b.setWidth w - endByteMarker) last
    some (r, stream)
  | bitStart :: bodies, r, b :: stream =>
    if 127 < b.toNat then do
      let r ← shiftIn r (b.setWidth w - endByteMarker) bitStart
      some (r, stream)
    else do
      let r ← shiftIn r (b.setWidth w) bitStart
      unrolledParts endByteMarker last bodies r stream

def unrolled (bodies : List ℕ) (last : ℕ) (endByteMarker : BitVec w) : List Byte → Option (BitVec w × List Byte)
  | [] => none
  | b :: stream =>
    if 127 < b.toNat then some (b.setWidth w - endByteMarker, stream)
    else unrolledParts endByteMarker last bodies (b.setWidth w) stream

def read16 (stream : List Byte) : Option (BitVec 16 × List Byte) := unrolled [7] 14 192 stream

def read32 (stream : List Byte) : Option (BitVec 32 × List Byte) :=
  unrolled [7, 14, 21] 28 192 stream

def read64 (stream : List Byte) : Option (BitVec 64 × List Byte) :=
  unrolled [7, 14, 21, 28, 35, 42, 49, 56] 63 192 stream

def refIdStages : ℕ → ℤ → List Byte → Option (ℤ × List Byte)
  | 0, _, _ => none
  | _, _, [] => none
  | stages + 1, result, byte :: stream =>
    let result := byte.toInt + result <<< (7 : ℕ)
    if byte.toInt < 0 then some (result, stream) else refIdStages stages result stream

def readRefId (stream : List Byte) : Option (ℤ × List Byte) := do
  let (result, stream) ← refIdStages 4 0 stream
  some (result + 128, stream)

/-- The common loop of `ReadLEB128` and `ReadSLEB128`: the value, the number of data bits, the last
byte and the rest of the stream. -/
def lebParts : BitVec w → ℕ → List Byte → Option (BitVec w × ℕ × Byte × List Byte)
  | _, _, [] => none
  | r, s, b :: stream => do
    let r ← shiftIn r ((b &&& 127).setWidth w) s
    if b &&& 128 ≠ 0 then lebParts r (s + 7) stream else some (r, s + 7, b, stream)

def readLEB128 (stream : List Byte) : Option (BitVec w × List Byte) := do
  let (r, s, _, stream) ← lebParts 0 0 stream
  guard (s < 7 + w)
  some (r, stream)

def readSLEB128 (stream : List Byte) : Option (BitVec w × List Byte) := do
  let (r, s, b, stream) ← lebParts 0 0 stream
  guard (s < 7 + w)
  let signBits : BitVec w := if b &&& 64 ≠ 0 ∧ s < w then ~~~(((1 : BitVec w) <<< s) - 1) else 0
  some (r ||| signBits, stream)

end ReadStream

inductive IntType
  | int8 | int16 | int32 | int64

def IntType.bits : IntType → ℕ
  | int8 => 8
  | int16 => 16
  | int32 => 32
  | int64 => 64

inductive Encoding
  | signed (t : IntType)
  | unsigned (isSigned : Bool) (t : IntType)
  | raw (t : IntType)
  | refId
  | leb128 (isSigned : Bool) (t : IntType)
  | sleb128 (t : IntType)

abbrev Encoding.Value : Encoding → Type
  | signed t => BitVec t.bits
  | unsigned _ t => BitVec t.bits
  | raw t => BitVec t.bits
  | refId => ℤ
  | leb128 _ t => BitVec t.bits
  | sleb128 t => BitVec t.bits

open BaseWriteStream ReadStream

def rawWrite : (t : IntType) → BitVec t.bits → Option (List Byte)
  | .int8, value => some [value]
  | .int16, value => write value
  | .int32, value => write value
  | .int64, value => write value

def rawRead : (t : IntType) → List Byte → Option (BitVec t.bits × List Byte)
  | .int8, [] => none
  | .int8, b :: stream => some (b, stream)
  | .int16, stream => read16 stream
  | .int32, stream => read32 stream
  | .int64, stream => read64 stream

def Encoding.write : (e : Encoding) → e.Value → Option (List Byte)
  | signed _, value => BaseWriteStream.write value
  | unsigned isSigned _, value => writeUnsigned isSigned value
  | raw t, value => rawWrite t value
  | refId, value => writeRefId value
  | leb128 isSigned _, value => writeLEB128 isSigned value
  | sleb128 _, value => writeSLEB128 value

def Encoding.read : (e : Encoding) → List Byte → Option (e.Value × List Byte)
  | signed _, stream => ReadStream.read stream
  | unsigned _ _, stream => readUnsigned stream
  | raw t, stream => rawRead t stream
  | refId, stream => readRefId stream
  | leb128 _ _, stream => readLEB128 stream
  | sleb128 _, stream => readSLEB128 stream

def writeAll : List ((e : Encoding) × e.Value) → Option (List Byte)
  | [] => some []
  | ⟨e, value⟩ :: items => do
    let bytes ← e.write value
    let rest ← writeAll items
    some (bytes ++ rest)

def readAll : List Encoding → List Byte → Option (List ((e : Encoding) × e.Value) × List Byte)
  | [], stream => some ([], stream)
  | e :: encodings, stream => do
    let (value, stream) ← e.read stream
    let (items, stream) ← readAll encodings stream
    some (⟨e, value⟩ :: items, stream)

end DartSdk.Streams
