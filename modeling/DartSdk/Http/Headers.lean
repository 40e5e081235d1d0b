import DartSdk.Library.Ascii
import Mathlib.Algebra.Ring.Nat
import Mathlib.Data.Int.Init
import Mathlib.Tactic.Common

namespace DartSdk.Http

abbrev Byte := UInt8

abbrev Text := List Byte

def ascii : String → Text := Ascii.units UInt8.ofNat

inductive Version
  | http10
  | http11
deriving DecidableEq

inductive Exception
  | httpException (message : String)
  /-- From `int.parse` or `Uri.parse`. -/
  | formatException
  | unsupportedError (message : String)
  /-- A null check that fails. -/
  | typeError
deriving DecidableEq

structure Platform (U : Type) where
  parseUri : Text → Option U
  parseInt : Text → Option ℤ

def contentLengthHeader : Text := ascii "content-length"

def transferEncodingHeader : Text := ascii "transfer-encoding"

def connectionHeader : Text := ascii "connection"

def hostHeader : Text := ascii "host"

def dateHeader : Text := ascii "date"

def expiresHeader : Text := ascii "expires"

def contentTypeHeader : Text := ascii "content-type"

def ifModifiedSinceHeader : Text := ascii "if-modified-since"

def chunkedCoding : Text := ascii "chunked"

structure HttpHeaders where
  protocolVersion : Version
  headers : List (Text × List Text) := []
  isMutable : Bool := true
  contentLength : ℤ := -1
  persistentConnection : Bool := decide (protocolVersion ≠ .http10)
  chunkedTransferEncoding : Bool := false
  host : Option Text := none
  port : Option ℤ := none
deriving DecidableEq

namespace HttpHeaders

def values (h : HttpHeaders) (name : Text) : Option (List Text) := h.headers.lookup name

def removeName (h : HttpHeaders) (name : Text) : HttpHeaders :=
  { h with headers := h.headers.filter fun entry => !decide (entry.1 = name) }

def putValues (h : HttpHeaders) (name : Text) (values : List Text) : HttpHeaders :=
  match h.values name with
  | none => { h with headers := h.headers ++ [(name, values)] }
  | some _ => { h with headers := h.headers.map fun entry => if entry.1 = name then (name, values) else entry }

def set (h : HttpHeaders) (name value : Text) : HttpHeaders := h.putValues name [value]

def addValue (h : HttpHeaders) (name value : Text) : HttpHeaders :=
  h.putValues name ((h.values name).getD [] ++ [value])

def checkMutable (h : HttpHeaders) : Except Exception Unit :=
  if h.isMutable then .ok () else .error (.httpException "HTTP headers are not mutable")

def removeAll (h : HttpHeaders) (name : Text) : Except Exception HttpHeaders := do
  h.checkMutable
  return h.removeName name

def remove (h : HttpHeaders) (name value : Text) : Except Exception HttpHeaders := do
  h.checkMutable
  let removed := match h.values name with
    | none => h
    | some values => if values.erase value = [] then h.removeName name else h.putValues name (values.erase value)
  return if name = transferEncodingHeader ∧ value = chunkedCoding then
    { removed with chunkedTransferEncoding := false } else removed

def clearChunked (h : HttpHeaders) : Except Exception HttpHeaders := do
  h.checkMutable
  if h.chunkedTransferEncoding then
    let h ← h.remove transferEncodingHeader chunkedCoding
    return { h with chunkedTransferEncoding := false }
  else return h

/-- The assignment `contentLength = -1` here assigns to `chunkedTransferEncoding` again, which then finds the
value in the table and the length cleared. -/
def markChunked (h : HttpHeaders) : HttpHeaders :=
  let h := if chunkedCoding ∈ (h.values transferEncodingHeader).getD [] then h
    else h.addValue transferEncodingHeader chunkedCoding
  let h := if h.contentLength = -1 then h else { h.removeName contentLengthHeader with contentLength := -1 }
  { h with chunkedTransferEncoding := true }

def setChunked (h : HttpHeaders) : Except Exception HttpHeaders := do
  h.checkMutable
  if h.protocolVersion = .http10 then
    throw (.httpException "Trying to set 'Transfer-Encoding: Chunked' on HTTP 1.0 headers")
  else if h.chunkedTransferEncoding then return h
  else return h.markChunked

def setContentLength (h : HttpHeaders) (length : ℕ) : Except Exception HttpHeaders := do
  h.checkMutable
  if h.contentLength = length then return h
  else
    let h ← ({ h with contentLength := length } : HttpHeaders).clearChunked
    return h.set contentLengthHeader (ascii (toString length))

def isDigit (byte : Byte) : Bool := decide (48 ≤ byte) && decide (byte ≤ 57)

def digitsValidator (value : Text) : Bool := decide (value ≠ []) && value.all isDigit

def parseDigits : Text → Option ℕ := Ascii.parseDecimal UInt8.toNat

def addContentLength (h : HttpHeaders) (value : Text) : Except Exception HttpHeaders :=
  if !digitsValidator value then .error (.httpException "Content-Length must contain only digits")
  else match parseDigits value with
    | none => .error .formatException
    | some length => h.setContentLength length

def addTransferEncoding (h : HttpHeaders) (value : Text) : Except Exception HttpHeaders :=
  if value = chunkedCoding then h.setChunked else .ok (h.addValue transferEncodingHeader value)

def lastIndexOf (value : Text) (byte : Byte) : Option ℕ :=
  if byte ∈ value then some (value.length - 1 - value.reverse.idxOf byte) else none

def addHost {U : Type} (platform : Platform U) (h : HttpHeaders) (value : Text) : HttpHeaders :=
  let h := match lastIndexOf value 58 with
    | none => { h with host := some value, port := some 80 }
    | some pos =>
      if value.head? = some 91 ∧ value.getLast? = some 93 then { h with host := some value, port := some 80 }
      else { h with
        host := if 0 < pos then some (value.take pos) else none
        port := if pos + 1 = value.length then some 80 else platform.parseInt (value.drop (pos + 1)) }
  h.set hostHeader value

def lowerCase (value : Text) : Text := value.map fun byte => if 65 ≤ byte ∧ byte ≤ 90 then byte + 32 else byte

def addConnection (h : HttpHeaders) (value : Text) : HttpHeaders :=
  let h := if lowerCase value = ascii "close" then { h with persistentConnection := false }
    else if lowerCase value = ascii "keep-alive" then { h with persistentConnection := true }
    else h
  h.addValue connectionHeader value

def add {U : Type} (platform : Platform U) (h : HttpHeaders) (name value : Text) : Except Exception HttpHeaders :=
  if name = dateHeader then .ok (h.set dateHeader value)
  else if name = hostHeader then .ok (h.addHost platform value)
  else if name = expiresHeader then .ok (h.set expiresHeader value)
  else if name = connectionHeader then .ok (h.addConnection value)
  else if name = contentTypeHeader then .ok (h.set contentTypeHeader value)
  else if name = contentLengthHeader then h.addContentLength value
  else if name = transferEncodingHeader then h.addTransferEncoding value
  else if name = ifModifiedSinceHeader then .ok (h.set ifModifiedSinceHeader value)
  else .ok (h.addValue name value)

end HttpHeaders
end DartSdk.Http
