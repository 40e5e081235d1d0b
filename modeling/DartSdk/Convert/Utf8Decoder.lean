import DartSdk.Convert.Utf8Encoder

/-!
`_Utf8Decoder` of `utf.dart` with the VM's `convert_patch.dart`.  A slice of a `Uint8List` is the
list of its bytes; `i` counts them for the offset of an error.  A result `none` stands for a write
outside a string that was allocated too short.
-/

namespace DartSdk.Convert.Utf8Decoder

abbrev Octet := Fin 256

section

def typeMask : ℕ := 0x1F

def shiftedByteMask : ℕ := 0xF0FE

def letters (count : ℕ) (letter : Char) : List ℕ := List.replicate count letter.toNat

def typeTable : List ℕ :=
  letters 128 'A' ++ -- 00-7F
  letters 16 'F' ++ letters 16 'G' ++ -- 80-9F
  letters 27 'H' ++ letters 1 'I' ++ letters 3 'H' ++ letters 1 'J' ++ -- A0-BF
  letters 2 'E' ++ letters 30 'B' ++ -- C0-DF
  letters 1 'K' ++ letters 12 'C' ++ letters 1 'D' ++ letters 1 'C' ++ letters 1 'L' ++ -- E0-EF
  letters 1 'O' ++ letters 3 'N' ++ letters 1 'M' ++ letters 11 'E' -- F0-FF

def IA : ℕ := 0x00
def BB : ℕ := 0x10
def AB : ℕ := 0x20
def X1 : ℕ := 0x30
def X2 : ℕ := 0x3A
def X3 : ℕ := 0x44
def TO : ℕ := 0x4E
def TS : ℕ := 0x58
def QO : ℕ := 0x62
def QR : ℕ := 0x6C
def B1 : ℕ := 0x76
def B2 : ℕ := 0x80
def E1 : ℕ := 0x41
def E2 : ℕ := 0x43
def E3 : ℕ := 0x45
def E4 : ℕ := 0x47
def E5 : ℕ := 0x49
def E6 : ℕ := 0x4B
def E7 : ℕ := 0x4D

def transitionTable : List ℕ :=
  [0x20] ++
  --A   B   C   D   E   F   G   H   I   J   K   L   M   N   O
  [IA, X1, X2, TS, E3, E2, E2, E2, E2, E2, TO, X2, QR, X3, QO, 0x20] ++ -- IA
  [IA, X1, X2, TS, E3, E2, E2, E2, E2, E2, TO, B1, QR, X3, QO, 0x20] ++ -- BB
  [IA, X1, X2, TS, E3, E2, E2, E2, E2, E2, TO, X2, QR, X3, QO, 0x20] ++ -- AB
  [E1, E1, E1, E1, E1, IA, IA, IA, IA, IA] ++ -- X1
  [E1, E1, E1, E1, E1, X1, X1, X1, X1, X1] ++ -- X2
  [E1, E1, E1, E1, E1, X2, X2, X2, X2, X2] ++ -- X3
  [E1, E1, E1, E1, E1, E4, E4, X1, X1, X1] ++ -- TO
  [E1, E1, E1, E1, E1, X1, X1, E6, E6, E6] ++ -- TS
  [E1, E1, E1, E1, E1, E4, X2, X2, X2, X2] ++ -- QO
  [E1, E1, E1, E1, E1, X2, E5, E5, E5, E5] ++ -- QR
  [E1, E1, E1, E1, E1, X1, X1, X1, B2, X1] ++ -- B1
  [E1, E1, E1, E1, E1, IA, IA, IA, IA, AB, E1, E1, E1, E1, E1] -- B2

def initial : ℕ := IA
def accept : ℕ := IA
def afterBom : ℕ := AB
def errorMissingExtension : ℕ := E1
def errorUnexpectedExtension : ℕ := E2
def errorInvalid : ℕ := E3
def errorOverlong : ℕ := E4
def errorOutOfRange : ℕ := E5
def errorSurrogate : ℕ := E6
def errorUnfinished : ℕ := E7

def isErrorState (state : ℕ) : Bool := state &&& 1 ≠ 0

def errorDescription (state : ℕ) : String :=
  if state = errorMissingExtension then "Missing extension byte"
  else if state = errorUnexpectedExtension then "Unexpected extension byte"
  else if state = errorInvalid then "Invalid UTF-8 byte"
  else if state = errorOverlong then "Overlong encoding"
  else if state = errorOutOfRange then "Out of unicode range"
  else if state = errorSurrogate then "Encoded surrogate"
  else if state = errorUnfinished then "Unfinished UTF-8 octet sequence"
  else ""

def byteType (byte : Octet) : ℕ := typeTable.getD byte.val 0 &&& typeMask

def transition (index : ℕ) : ℕ := transitionTable.getD index 0

def flagExtension : ℕ := 1 <<< 2
def flagLatin1 : ℕ := 1 <<< 3
def flagNonLatin1 : ℕ := 1 <<< 4

def sizeMask : ℕ := 0x03
def flagsMask : ℕ := 0x3C

def scanTable : List ℕ :=
  letters 128 'A' ++ -- 00-7F
  letters 64 'D' ++ -- 80-BF
  letters 2 'a' ++ letters 2 'I' ++ letters 28 'Q' ++ -- C0-DF
  letters 16 'Q' ++ letters 5 'R' ++ letters 11 'b' -- E0-FF

end

structure FormatException where
  message : String
  offset : Option ℕ

structure Decoder where
  state : ℕ
  charOrIndex : ℕ
  bomIndex : ℤ

def new : Decoder := ⟨initial, 0, 0⟩

section

def scanBlock (bytes : List Octet) : ℕ × ℕ :=
  let r := bytes.foldl (fun r byte =>
    let t := scanTable.getD byte.val 0
    (r.1 + (t &&& sizeMask), r.2 ||| t)) (0, 0)
  (r.1, r.2 &&& flagsMask)

def scanChunkSize : ℕ := 65536

def scan (bytes : List Octet) : ℕ × ℕ :=
  if h : scanChunkSize < bytes.length then
    let r := scanBlock (bytes.take scanChunkSize)
    let q := scan (bytes.drop scanChunkSize)
    (r.1 + q.1, r.2 ||| q.2)
  else scanBlock bytes
termination_by bytes.length
decreasing_by
  rw [List.length_drop]
  rw [scanChunkSize] at h ⊢
  omega

end

section

def write (size : ℕ) (units : List CodeUnit) (unit : ℕ) : Option (List CodeUnit) :=
  if units.length < size then some (units ++ [Fin.ofNat _ unit]) else none

def writeIntoOneByteString (size : ℕ) (units : List CodeUnit) (unit : ℕ) : Option (List CodeUnit) :=
  write size units (unit % 0x100)

def writeIntoTwoByteString (size : ℕ) (units : List CodeUnit) (unit : ℕ) : Option (List CodeUnit) :=
  write size units unit

def allocated (size : ℕ) (units : List CodeUnit) : List CodeUnit :=
  units ++ List.replicate (size - units.length) 0

def charCodeUnits (char : ℕ) : List CodeUnit :=
  if 0x10000 ≤ char then [Fin.ofNat _ (0xD7C0 + (char >>> 10)), Fin.ofNat _ (0xDC00 + (char &&& 0x3FF))]
  else [Fin.ofNat _ char]

def unicodeReplacementCharacterRune : ℕ := 0xFFFD

end

structure Decoded where
  result : List CodeUnit
  state : ℕ
  charOrIndex : ℕ

section

def decode8Loop (size charOrIndex : ℕ) : ℕ → List Octet → List CodeUnit → Option Decoded
  | _, [], units => some ⟨allocated size units, accept, charOrIndex⟩
  | i, byte :: bytes, units =>
    if 0x80 ≤ byte.val then
      if byte.val < 0xC0 then some ⟨[], errorUnexpectedExtension, i⟩
      else
        match bytes with
        | [] => some ⟨allocated size units, X1, byte.val &&& 0x1F⟩
        | extension :: bytes =>
          let e := extension.val ^^^ 0x80
          if 0x40 ≤ e then some ⟨[], errorMissingExtension, i + 1⟩
          else do
            let units ← writeIntoOneByteString size units ((byte.val <<< 6) ||| e)
            decode8Loop size charOrIndex (i + 2) bytes units
    else do
      let units ← writeIntoOneByteString size units byte.val
      decode8Loop size charOrIndex (i + 1) bytes units

def decode8 (d : Decoder) (start : ℕ) (bytes : List Octet) (size : ℕ) : Option Decoded :=
  if d.state = X1 then
    match bytes with
    | [] => none
    | extension :: bytes =>
      let e := extension.val ^^^ 0x80
      if 0x40 ≤ e then some ⟨[], errorMissingExtension, start⟩
      else do
        let units ← writeIntoOneByteString size [] ((d.charOrIndex <<< 6) ||| e)
        decode8Loop size d.charOrIndex (start + 1) bytes units
  else decode8Loop size d.charOrIndex start bytes []

end

section

def writeChar (size : ℕ) (units : List CodeUnit) (char : ℕ) : Option (List CodeUnit) :=
  if 0x10000 ≤ char then do
    let units ← writeIntoTwoByteString size units (0xD7C0 + (char >>> 10))
    writeIntoTwoByteString size units (0xDC00 + (char &&& 0x3FF))
  else writeIntoTwoByteString size units char

def firstChar (byte : Octet) : ℕ := byte.val &&& (shiftedByteMask >>> byteType byte)

def nextChar (char : ℕ) (byte : Octet) : ℕ := (byte.val &&& 0x3F) ||| (char <<< 6)

def decode16Loop (size : ℕ) : ℕ → List Octet → ℕ → ℕ → List CodeUnit → Option Decoded
  | i, [], state, char, units =>
    if state = accept then do
      let units ← writeChar size units char
      some ⟨allocated size units, state, char⟩
    else if isErrorState state then some ⟨[], state, i - 1⟩
    else some ⟨allocated size units, state, char⟩
  | i, byte :: bytes, state, char, units =>
    if state = accept then do
      let units ← writeChar size units char
      decode16Loop size (i + 1) bytes (transition (byteType byte)) (firstChar byte) units
    else if isErrorState state then some ⟨[], state, i - 1⟩
    else decode16Loop size (i + 1) bytes (transition (state + byteType byte)) (nextChar char byte) units

def decode16 (d : Decoder) (start : ℕ) (bytes : List Octet) (size : ℕ) : Option Decoded :=
  match bytes with
  | [] => none
  | byte :: bytes =>
    if d.state = accept then
      decode16Loop size (start + 1) bytes (transition (byteType byte)) (firstChar byte) []
    else
      decode16Loop size (start + 1) bytes (transition (d.state + byteType byte)) (nextChar d.charOrIndex byte) []

end

section

def generalLoop (allowMalformed : Bool) : ℕ → ℕ → List Octet → ℕ → ℕ → List CodeUnit → Option Decoded
  | 0, _, _, _, _, _ => none
  | _ + 1, _, [], _, _, _ => none
  | fuel + 1, i, byte :: bytes, state, char, buffer =>
    let char := if state ≤ afterBom then firstChar byte else nextChar char byte
    let state := transition (state + byteType byte)
    if state = accept then
      let ascii := bytes.takeWhile fun b => b.val < 128
      let rest := bytes.dropWhile fun b => b.val < 128
      let buffer := buffer ++ charCodeUnits char ++ ascii.map fun b => Fin.ofNat _ b.val
      if rest = [] then some ⟨buffer, state, char⟩
      else generalLoop allowMalformed fuel (i + 1 + ascii.length) rest state char buffer
    else if isErrorState state then
      if !allowMalformed then some ⟨[], state, i⟩
      else if state = errorMissingExtension then
        generalLoop allowMalformed fuel i (byte :: bytes) initial char
          (buffer ++ charCodeUnits unicodeReplacementCharacterRune)
      else
        let replacement := charCodeUnits unicodeReplacementCharacterRune
        let buffer := buffer ++ if state = errorInvalid ∨ state = errorUnexpectedExtension
          then replacement else replacement ++ replacement
        if bytes = [] then some ⟨buffer, initial, char⟩
        else generalLoop allowMalformed fuel (i + 1) bytes initial char buffer
    else if bytes = [] then some ⟨buffer, state, char⟩
    else generalLoop allowMalformed fuel (i + 1) bytes state char buffer

def decodeGeneral (allowMalformed : Bool) (d : Decoder) (start : ℕ) (bytes : List Octet)
    (single : Bool) : Option Decoded := do
  let r ← generalLoop allowMalformed (2 * bytes.length + 1) start bytes d.state d.charOrIndex []
  if !allowMalformed && isErrorState r.state then some r
  else if single && afterBom < r.state then
    if allowMalformed then
      some { r with result := r.result ++ charCodeUnits unicodeReplacementCharacterRune }
    else some ⟨[], errorUnfinished, start + bytes.length⟩
  else some r

end

section

def skipBomSingle (bytes : List Octet) : ℕ :=
  match bytes with
  | b₀ :: b₁ :: b₂ :: _ => if b₀ = 0xEF ∧ b₁ = 0xBB ∧ b₂ = 0xBF then 3 else 0
  | _ => 0

def bomValues : List Octet := [0xEF, 0xBB, 0xBF]

/-- The loop of `skipBomChunked` over the bytes of the mark that are still to come: whether the mark
is unfinished, and the number of bytes of the chunk that were read if it is complete. -/
def bomLoop : List Octet → List Octet → ℕ → Option (ℕ × ℕ)
  | [], _, i => some (i, 0)
  | value :: values, [], i => some (i, (value :: values).length)
  | value :: values, byte :: bytes, i =>
    if byte ≠ value then none else bomLoop values bytes (i + 1)

def skipBomChunked (d : Decoder) (bytes : List Octet) : Decoder × ℕ :=
  if d.bomIndex = -1 then (d, 0)
  else
    match bomLoop (bomValues.drop d.bomIndex.toNat) bytes 0 with
    | none => ({ d with bomIndex := -1 }, 0)
    | some (i, 0) => ({ d with bomIndex := -1, state := initial }, i)
    | some (_, missing) => ({ d with bomIndex := 3 - missing }, 0)

def adjust (d : Decoder) (length size flags : ℕ) : ℕ × ℕ :=
  if d.state = X1 then
    (if 1 ≤ length then size + if d.charOrIndex < 0x10000 >>> 6 then 1 else 2 else size,
      flags ||| if d.charOrIndex < 0x100 >>> 6 then flagLatin1 else flagNonLatin1)
  else if d.state = X2 then
    (if 2 ≤ length then size + if d.charOrIndex < 0x10000 >>> 12 then 1 else 2 else size, flags ||| flagNonLatin1)
  else if d.state = TO ∨ d.state = TS then
    (if 2 ≤ length then size + 1 else size, flags ||| flagNonLatin1)
  else if d.state = X3 ∨ d.state = QO ∨ d.state = QR then
    (if 3 ≤ length then size + 2 else size, flags ||| flagNonLatin1)
  else (size, flags)

def trailing : List Octet → ℕ → ℕ × Option Octet
  | [], extensionCount => (extensionCount, none)
  | byte :: bytes, extensionCount =>
    if byte.val &&& 0xC0 = 0x80 then trailing bytes (extensionCount + 1)
    else (extensionCount, some byte)

def threshold (extensionCount : ℕ) : ℕ := (((-0x40 : ℤ) >>> extensionCount) % 0x100).toNat

def unfinishedSize (bytes : List Octet) : ℕ :=
  match trailing bytes.reverse 0 with
  | (_, none) => 0
  | (extensionCount, some byte) =>
    if threshold extensionCount ≤ byte.val then if 0xF0 ≤ byte.val then 2 else 1 else 0

variable (allowMalformed : Bool)

def convertSingle (d : Decoder) (codeUnits : List Octet) : Option (Except FormatException (List CodeUnit)) :=
  let start := skipBomSingle codeUnits
  let bytes := codeUnits.drop start
  if bytes = [] then some (.ok [])
  else
    let (size, flags) := scan bytes
    if flags = 0 then some (.ok (bytes.map fun b => Fin.ofNat _ b.val))
    else do
      let r ← if flags = flagLatin1 ||| flagExtension then decode8 d start bytes size
        else decode16 d start bytes size
      if r.state = accept then some (.ok r.result)
      else if !allowMalformed then
        if isErrorState r.state then
          some (.error ⟨errorDescription r.state, some r.charOrIndex⟩)
        else some (.error ⟨errorDescription errorUnfinished, some (start + bytes.length)⟩)
      else do
        let r ← decodeGeneral allowMalformed { d with state := initial, charOrIndex := r.charOrIndex }
          start bytes true
        some (.ok r.result)

def convertBytes (d : Decoder) (start : ℕ) (bytes : List Octet) :
    Option (Decoder × Except FormatException (List CodeUnit)) :=
  if bytes = [] then some (d, .ok [])
  else
    let (size, flags) := scan bytes
    let (size, flags) := adjust d bytes.length size flags
    if flags = 0 then some (d, .ok (bytes.map fun b => Fin.ofNat _ b.val))
    else if size < unfinishedSize bytes then none
    else do
      let size := size - unfinishedSize bytes
      let r ← if flags = flagLatin1 ||| flagExtension then decode8 d start bytes size
        else decode16 d start bytes size
      if !isErrorState r.state then
        some ({ d with state := r.state, charOrIndex := r.charOrIndex }, .ok r.result)
      else if !allowMalformed then
        some ({ d with state := initial, charOrIndex := r.charOrIndex },
          .error ⟨errorDescription r.state, some r.charOrIndex⟩)
      else do
        let r ← decodeGeneral allowMalformed d start bytes false
        some ({ d with state := r.state, charOrIndex := r.charOrIndex }, .ok r.result)

def convertChunked (d : Decoder) (codeUnits : List Octet) :
    Option (Decoder × Except FormatException (List CodeUnit)) :=
  let (d, start) := skipBomChunked d codeUnits
  convertBytes allowMalformed d start (codeUnits.drop start)

def flush (d : Decoder) : Except FormatException (List CodeUnit) :=
  if d.state ≤ afterBom then .ok []
  else if allowMalformed then .ok (charCodeUnits unicodeReplacementCharacterRune)
  else .error ⟨errorDescription errorUnfinished, none⟩

/-- The state in which `flush` leaves the decoder, also when it throws. -/
def flushed (d : Decoder) : Decoder := { d with state := initial }

def reset (d : Decoder) : Decoder := { d with state := initial, bomIndex := -1 }

def convertChunks (d : Decoder) : List (List Octet) → Option (Except FormatException (List CodeUnit))
  | [] => some (flush allowMalformed d)
  | chunk :: chunks => do
    let (d, r) ← convertChunked allowMalformed d chunk
    match r with
    | .error e => some (.error e)
    | .ok string => do
      let rest ← convertChunks d chunks
      some (rest.map fun string' => string ++ string')

end
end DartSdk.Convert.Utf8Decoder
