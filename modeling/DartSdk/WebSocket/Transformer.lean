import Mathlib.Data.Int.Init
import Mathlib.Tactic.Common

/-!
`_WebSocketProtocolTransformer` of `websocket_impl.dart`, and the receiving half of
`_WebSocketPerMessageDeflate`.
-/

namespace DartSdk.WebSocket

abbrev Byte := UInt8

inductive State
  | start
  | lenFirst
  | lenRest
  | mask
  | payload
  | closed
  | failure
deriving DecidableEq

inductive MessageType
  | none
  | text
  | binary
deriving DecidableEq

inductive Error
  | webSocketException (message : String)
  /-- A view of a buffer with a negative length, or at an offset that is not aligned. -/
  | rangeError
  /-- From `utf8.decode`. -/
  | formatException
  /-- The `FormatException` of the zlib filter. -/
  | filterException
  | outOfFuel
deriving DecidableEq

inductive Event (T : Type)
  | text (string : T) (inflated : Bool)
  | binary (bytes : List Byte) (inflated : Bool)
  | ping (payload : Option (List Byte))
  | pong (payload : Option (List Byte))
  | close
deriving DecidableEq

/-- `D` is the type of the states of the zlib filter.  `process` gives everything that the filter
returns for the data, and `none` if it throws. -/
structure PerMessageDeflate (D : Type) where
  serverNoContextTakeover : Bool
  clientNoContextTakeover : Bool
  serverSide : Bool
  inflateFilter : D
  process : D → List Byte → Option (D × List Byte)

variable {D T : Type}

def PerMessageDeflate.processIncomingMessage (deflate : PerMessageDeflate D) (decoder : Option D)
    (msg : List Byte) : Except Error (Option D × List Byte) :=
  match deflate.process (decoder.getD deflate.inflateFilter) (msg ++ [0x00, 0x00, 0xff, 0xff]) with
  | none => .error .filterException
  | some (decoder, result) =>
    if deflate.serverSide && deflate.clientNoContextTakeover ||
        !deflate.serverSide && deflate.serverNoContextTakeover then .ok (none, result)
    else .ok (some decoder, result)

structure Config (D T : Type) where
  serverSide : Bool
  deflate : Option (PerMessageDeflate D)
  decode : List Byte → Option T

structure Assembly (D T : Type) where
  compressed : Bool := false
  currentMessageType : MessageType := .none
  payload : List Byte := []
  decoder : Option D := none
  events : List (Event T) := []

structure Transformer (D T : Type) extends Assembly D T where
  state : State := .start
  fin : Bool := false
  opcode : ℤ := -1
  len : BitVec 64 := -1
  masked : Bool := false
  remainingLenBytes : ℤ := -1
  remainingMaskingKeyBytes : ℤ := 4
  remainingPayloadBytes : ℤ := -1
  unmaskingIndex : ℕ := 0
  maskingBytes : List Byte := [0, 0, 0, 0]
  closeCode : ℕ := 1005
  closeReason : Option T := none

def protocolError : Error := .webSocketException "Protocol error"

section

def xorBytes (maskingBytes : List Byte) : ℕ → List Byte → List Byte
  | _, [] => []
  | unmaskingIndex, byte :: bytes =>
    (byte ^^^ maskingBytes.getD (unmaskingIndex &&& 3) 0) :: xorBytes maskingBytes (unmaskingIndex + 1) bytes

def lane (b₀ b₁ b₂ b₃ : Byte) : BitVec 32 :=
  b₃.toBitVec ++ b₂.toBitVec ++ b₁.toBitVec ++ b₀.toBitVec

def laneByte (w : BitVec 32) (i : ℕ) : Byte := ⟨w.extractLsb' (8 * i) 8⟩

def xorLanes (mask : BitVec 32) : List Byte → List Byte
  | b₀ :: b₁ :: b₂ :: b₃ :: bytes =>
    let word := lane b₀ b₁ b₂ b₃ ^^^ mask
    laneByte word 0 :: laneByte word 1 :: laneByte word 2 :: laneByte word 3 :: xorLanes mask bytes
  | bytes => bytes

def maskWord (maskingBytes : List Byte) (unmaskingIndex : ℕ) : BitVec 32 :=
  [3, 2, 1, 0].foldl (fun mask i =>
    mask <<< 8 ||| (maskingBytes.getD ((unmaskingIndex + i) &&& 3) 0).toBitVec.setWidth 32) 0

def onSlice (buffer : List Byte) (index length : ℕ) (f : List Byte → List Byte) : List Byte :=
  buffer.take index ++ f ((buffer.drop index).take length) ++ buffer.drop (index + length)

def unmask (maskingBytes : List Byte) (unmaskingIndex offsetInBytes index length : ℕ)
    (buffer : List Byte) : Except Error (List Byte × ℕ) :=
  if 16 ≤ length then
    let startOffset := 16 - (index &&& 15)
    let buffer := onSlice buffer index startOffset (xorBytes maskingBytes unmaskingIndex)
    let unmaskingIndex := unmaskingIndex + startOffset
    let index := index + startOffset
    let length := length - startOffset
    let blockCount := length / 16
    if 0 < blockCount then
      if (offsetInBytes + index) % 16 = 0 then
        let buffer := onSlice buffer index (blockCount * 16) (xorLanes (maskWord maskingBytes unmaskingIndex))
        let index := index + blockCount * 16
        let length := length - blockCount * 16
        .ok (onSlice buffer index length (xorBytes maskingBytes unmaskingIndex), unmaskingIndex + length)
      else .error .rangeError
    else .ok (onSlice buffer index length (xorBytes maskingBytes unmaskingIndex), unmaskingIndex + length)
  else .ok (onSlice buffer index length (xorBytes maskingBytes unmaskingIndex), unmaskingIndex + length)

end

namespace Assembly
variable (c : Config D T) (a : Assembly D T)

def takeMessage : Except Error (Assembly D T × List Byte × Bool) :=
  let bytes := a.payload
  let a := { a with payload := [] }
  match c.deflate with
  | none => .ok (a, bytes, false)
  | some deflate =>
    if a.compressed then do
      let (decoder, bytes) ← deflate.processIncomingMessage a.decoder bytes
      .ok ({ a with decoder := decoder }, bytes, true)
    else .ok (a, bytes, false)

def sendMessage (bytes : List Byte) (inflated : Bool) : Except Error (Assembly D T) :=
  match a.currentMessageType with
  | .none => .ok a
  | .text =>
    match c.decode bytes with
    | none => .error .formatException
    | some string => .ok { a with events := a.events ++ [.text string inflated] }
  | .binary => .ok { a with events := a.events ++ [.binary bytes inflated] }

def messageEnd : Except Error (Assembly D T) := do
  let (a, bytes, inflated) ← a.takeMessage c
  let a ← a.sendMessage c bytes inflated
  .ok { a with currentMessageType := .none }

end Assembly

namespace Transformer
variable (c : Config D T) (t : Transformer D T)

def isControlFrame : Bool := t.opcode = 8 || t.opcode = 9 || t.opcode = 10

def prepareForNextFrame : Transformer D T :=
  { t with
    state := if t.state ≠ .closed ∧ t.state ≠ .failure then .start else t.state
    fin := false
    opcode := -1
    len := -1
    remainingLenBytes := -1
    remainingMaskingKeyBytes := 4
    remainingPayloadBytes := -1
    unmaskingIndex := 0 }

def send (event : Event T) : Transformer D T := { t with events := t.events ++ [event] }

def messageFrameEnd : Except Error (Transformer D T) :=
  if t.fin then do
    let a ← t.toAssembly.messageEnd c
    .ok { t with toAssembly := a }.prepareForNextFrame
  else .ok t.prepareForNextFrame

def closed : Transformer D T := ({ t with state := .closed }.send .close).prepareForNextFrame

def closeFrameEnd : Except Error (Transformer D T) :=
  match t.payload with
  | [] => .ok { t with payload := [], closeCode := 1005 }.closed
  | [_] => .error protocolError
  | b₀ :: b₁ :: reason =>
    let closeCode := b₀.toNat <<< 8 ||| b₁.toNat
    if closeCode = 1005 then .error protocolError
    else if reason = [] then .ok { t with payload := [], closeCode := closeCode }.closed
    else
      match c.decode reason with
      | none => .error .formatException
      | some reason =>
        .ok { t with payload := [], closeCode := closeCode, closeReason := some reason }.closed

def controlFrameEnd : Except Error (Transformer D T) :=
  if t.opcode = 8 then t.closeFrameEnd c
  else if t.opcode = 9 then
    .ok ({ t with payload := [] }.send (.ping (some t.payload))).prepareForNextFrame
  else if t.opcode = 10 then
    .ok ({ t with payload := [] }.send (.pong (some t.payload))).prepareForNextFrame
  else .ok t.prepareForNextFrame

def startPayload : Except Error (Transformer D T) :=
  if t.remainingPayloadBytes = 0 then
    if t.isControlFrame then
      if t.opcode = 8 then .ok t.closed
      else if t.opcode = 9 then .ok (t.send (.ping none)).prepareForNextFrame
      else .ok (t.send (.pong none)).prepareForNextFrame
    else t.messageFrameEnd c
  else .ok { t with state := .payload }

def lengthDone : Except Error (Transformer D T) :=
  if t.masked then
    if !c.serverSide then .error (.webSocketException "Received masked frame from server")
    else .ok { t with state := .mask }
  else if c.serverSide then .error (.webSocketException "Received unmasked frame from client")
  else { t with remainingPayloadBytes := t.len.toInt }.startPayload c

def maskDone : Except Error (Transformer D T) :=
  { t with remainingPayloadBytes := t.len.toInt }.startPayload c

def addStart (byte : Byte) : Except Error (Transformer D T) :=
  if byte &&& (0x20 ||| 0x10) ≠ 0 then .error protocolError
  else
    let t := { t with fin := byte &&& 0x80 ≠ 0, opcode := (byte &&& 0xF).toNat }
    let t := if t.opcode ≠ 0 then { t with compressed := byte &&& 0x40 ≠ 0 } else t
    if t.opcode ≤ 2 then
      if t.opcode = 0 then
        if t.currentMessageType = .none then .error protocolError
        else .ok { t with state := .lenFirst }
      else if t.currentMessageType ≠ .none then .error protocolError
      else .ok { t with
        currentMessageType := if t.opcode = 1 then .text else .binary, state := .lenFirst }
    else if 8 ≤ t.opcode ∧ t.opcode ≤ 10 then
      if !t.fin then .error protocolError else .ok { t with state := .lenFirst }
    else .error protocolError

def addLenFirst (byte : Byte) : Except Error (Transformer D T) :=
  let t := { t with masked := byte &&& 0x80 ≠ 0, len := (byte &&& 0x7F).toBitVec.setWidth 64 }
  if t.isControlFrame ∧ 125 < t.len.toInt then .error protocolError
  else if t.len = 126 then .ok { t with len := 0, remainingLenBytes := 2, state := .lenRest }
  else if t.len = 127 then .ok { t with len := 0, remainingLenBytes := 8, state := .lenRest }
  else t.lengthDone c

def addLenRest (byte : Byte) : Except Error (Transformer D T) :=
  let t := { t with
    len := t.len <<< 8 ||| byte.toBitVec.setWidth 64
    remainingLenBytes := t.remainingLenBytes - 1 }
  if t.remainingLenBytes = 0 then t.lengthDone c else .ok t

def addMask (byte : Byte) : Except Error (Transformer D T) :=
  let t := { t with
    maskingBytes := t.maskingBytes.set (4 - t.remainingMaskingKeyBytes).toNat byte
    remainingMaskingKeyBytes := t.remainingMaskingKeyBytes - 1 }
  if t.remainingMaskingKeyBytes = 0 then t.maskDone c else .ok t

def payloadAdded : Except Error (Transformer D T) :=
  if t.isControlFrame then
    if t.remainingPayloadBytes = 0 then t.controlFrameEnd c else .ok t
  else if t.currentMessageType ≠ .text ∧ t.currentMessageType ≠ .binary then .error protocolError
  else if t.remainingPayloadBytes = 0 then t.messageFrameEnd c else .ok t

def unmaskBlock (offsetInBytes index payloadLength : ℕ) (buffer : List Byte) :
    Except Error (Transformer D T × List Byte) :=
  if t.masked then do
    let (buffer, unmaskingIndex) ← unmask t.maskingBytes t.unmaskingIndex offsetInBytes index payloadLength buffer
    .ok ({ t with unmaskingIndex := unmaskingIndex }, buffer)
  else .ok (t, buffer)

def addPayload (offsetInBytes index : ℕ) (buffer : List Byte) : Except Error (Transformer D T × List Byte × ℕ) :=
  let payloadLength := min (buffer.length - index : ℤ) t.remainingPayloadBytes
  if payloadLength < 0 then .error .rangeError
  else do
    let t := { t with remainingPayloadBytes := t.remainingPayloadBytes - payloadLength }
    let (t, buffer) ← t.unmaskBlock offsetInBytes index payloadLength.toNat buffer
    let t := { t with payload := t.payload ++ (buffer.drop index).take payloadLength.toNat }
    let t ← t.payloadAdded c
    .ok (t, buffer, payloadLength.toNat)

def isOpen : Bool := t.state ≠ .closed && t.state ≠ .failure

def addByte (byte : Byte) : Except Error (Transformer D T) :=
  match t.state with
  | .start => t.addStart byte
  | .lenFirst => t.addLenFirst c byte
  | .lenRest => t.addLenRest c byte
  | .mask => t.addMask c byte
  | _ => .ok t

def addLoop (offsetInBytes : ℕ) : ℕ → Transformer D T → List Byte → ℕ → Except Error (Transformer D T)
  | 0, _, _, _ => .error .outOfFuel
  | fuel + 1, t, buffer, index =>
    match buffer[index]? with
    | none => .ok t
    | some byte =>
      if !t.isOpen then .ok t
      else if t.state = .payload then do
        let (t, buffer, payloadLength) ← t.addPayload c offsetInBytes index buffer
        addLoop offsetInBytes fuel t buffer (index + payloadLength)
      else do
        let t ← t.addByte c byte
        addLoop offsetInBytes fuel t buffer (index + 1)

end Transformer

structure Chunk where
  offsetInBytes : ℕ
  bytes : List Byte

namespace Transformer
variable (c : Config D T)

def add (t : Transformer D T) (chunk : Chunk) : Except Error (Transformer D T) :=
  if t.state = .closed then .error (.webSocketException "Data on closed connection")
  else if t.state = .failure then .error (.webSocketException "Data on failed connection")
  else addLoop c chunk.offsetInBytes (chunk.bytes.length + 1) t chunk.bytes 0

def addChunks (t : Transformer D T) (chunks : List Chunk) : Except Error (Transformer D T) :=
  chunks.foldlM (add c) t

end Transformer
end DartSdk.WebSocket
