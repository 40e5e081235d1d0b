import DartSdk.Http.Headers

/-!
`_HttpParser` of `http_parser.dart`, with a listener that listens to each message as it is given one
and never pauses or cancels.

The fields of the message that is being parsed come first: a byte of a start line, a header or the
frame of a chunk changes nothing else.
-/

namespace DartSdk.Http

inductive State
  | start
  | methodOrResponseHttpVersion
  | responseHttpVersion
  | requestLineMethod
  | requestLineUri
  | requestLineHttpVersion
  | requestLineEnding
  | responseLineStatusCode
  | responseLineReasonPhrase
  | responseLineEnding
  | headerStart
  | headerField
  | headerValueStart
  | headerValue
  | headerValueFoldOrEndCr
  | headerValueFoldOrEnd
  | headerEnding
  | chunkSizeStartingCr
  | chunkSizeStarting
  | chunkSize
  | chunkSizeExtension
  | chunkSizeEnding
  | chunkedBodyDoneCr
  | chunkedBodyDone
  | body
  | closed
  | upgraded
  | failure
deriving DecidableEq

def State.code : State → ℕ
  | start => 0
  | methodOrResponseHttpVersion => 1
  | responseHttpVersion => 2
  | requestLineMethod => 3
  | requestLineUri => 4
  | requestLineHttpVersion => 5
  | requestLineEnding => 6
  | responseLineStatusCode => 7
  | responseLineReasonPhrase => 8
  | responseLineEnding => 9
  | headerStart => 10
  | headerField => 11
  | headerValueStart => 12
  | headerValue => 13
  | headerValueFoldOrEndCr => 14
  | headerValueFoldOrEnd => 15
  | headerEnding => 16
  | chunkSizeStartingCr => 17
  | chunkSizeStarting => 18
  | chunkSize => 19
  | chunkSizeExtension => 20
  | chunkSizeEnding => 21
  | chunkedBodyDoneCr => 22
  | chunkedBodyDone => 23
  | body => 24
  | closed => 25
  | upgraded => 26
  | failure => 27

def firstBodyState : ℕ := State.chunkSizeStartingCr.code

inductive MessageType
  | undetermined
  | request
deriving DecidableEq

abbrev MessageType.response : MessageType := .undetermined

structure Fields where
  requestParser : Bool
  connectMethod : Bool := false
  state : State := .start
  httpVersionIndex : Option ℕ := none
  messageType : MessageType := .undetermined
  statusCode : ℕ := 0
  statusCodeLength : ℕ := 0
  method : Text := []
  uriOrReasonPhrase : Text := []
  headerField : Text := []
  headerValue : Text := []
  headersReceivedSize : ℕ := 0
  httpVersion : Option Version := none
  transferLength : ℤ := -1
  persistentConnection : Bool := false
  connectionUpgrade : Bool := false
  chunked : Bool := false
  noMessageBody : Bool := false
  remainingContent : ℤ := -1
  contentLength : Bool := false
  transferEncoding : Bool := false
  headers : Option HttpHeaders := none
deriving DecidableEq

abbrev FieldsM := EStateM Exception Fields

section

def http : Text := ascii "HTTP"

def http1Dot : Text := ascii "HTTP/1."

def lf : Byte := 10

def cr : Byte := 13

def sp : Byte := 32

def ht : Byte := 9

def isSeparator (byte : Byte) : Bool := byte ∈ ascii "()<>@,;:\\\"/[]?=\x7b\x7d \t"

def isTokenChar (byte : Byte) : Bool := decide (31 < byte) && decide (byte < 128) && !isSeparator byte

def toLowerCaseByte (byte : Byte) : Byte := if (byte - 0x41) &&& 0x7f < 26 then byte ||| 0x20 else byte

def caseInsensitiveCompare (expected value : Text) : Bool := decide (expected = value.map toLowerCaseByte)

def tokenizeLoop (headerValue : Text) : List Byte → ℕ → ℕ → List Text
  | [], start, index => [(headerValue.take index).drop start]
  | byte :: rest, start, index =>
    if byte = 44 then (headerValue.take index).drop start :: tokenizeLoop headerValue rest (index + 1) (index + 1)
    else if byte = sp ∨ byte = ht then tokenizeLoop headerValue rest (start + 1) (index + 1)
    else tokenizeLoop headerValue rest start (index + 1)

def tokenizeFieldValue (headerValue : Text) : List Text := tokenizeLoop headerValue headerValue 0 0

end

section

def setState (state : State) : FieldsM Unit := modify fun p => { p with state }

def expect (byte expected : Byte) : FieldsM Unit :=
  if byte ≠ expected then
    throw (.httpException s!"Failed to parse HTTP, {byte} does not match {expected}")
  else pure ()

def hexDigit (byte : Byte) : Option ℕ :=
  if 0x30 ≤ byte ∧ byte ≤ 0x39 then some (byte.toNat - 0x30)
  else if 0x41 ≤ byte ∧ byte ≤ 0x46 then some (byte.toNat - 0x41 + 10)
  else if 0x61 ≤ byte ∧ byte ≤ 0x66 then some (byte.toNat - 0x61 + 10)
  else none

def expectHexDigit (byte : Byte) : FieldsM ℕ :=
  match hexDigit byte with
  | some value => pure value
  | none => throw (.httpException s!"Failed to parse HTTP, {byte} is expected to be a Hex digit")

def headerTotalSizeLimit : ℕ := 1024 * 1024

def chunkSizeLimit : ℤ := 0x7FFFFFFF

def sizeLimitError (subject : String) : Exception :=
  .httpException s!"{subject} exceeds the {headerTotalSizeLimit} size limit"

def reportSizeLimitError : FieldsM Unit := do
  match (← get).state with
  | .start => throw (sizeLimitError "Method")
  | .methodOrResponseHttpVersion => throw (sizeLimitError "Method")
  | .requestLineMethod => throw (sizeLimitError "Method")
  | .requestLineUri => throw (sizeLimitError "URI")
  | .responseLineReasonPhrase => throw (sizeLimitError "Reason phrase")
  | .headerStart => throw (sizeLimitError "Header field")
  | .headerField => throw (sizeLimitError "Header field")
  | .headerValueStart => throw (sizeLimitError "Header value")
  | .headerValue => throw (sizeLimitError "Header value")
  | state =>
    let code := state.code
    throw (.unsupportedError s!"Unexpected state: {code}")

def addWithValidation (add : Fields → Fields) : FieldsM Unit := do
  modify fun p => { p with headersReceivedSize := p.headersReceivedSize + 1 }
  if (← get).headersReceivedSize < headerTotalSizeLimit then modify add else reportSizeLimitError

def addToMethod (byte : Byte) : FieldsM Unit := addWithValidation fun p => { p with method := p.method ++ [byte] }

def addToUriOrReasonPhrase (byte : Byte) : FieldsM Unit :=
  addWithValidation fun p => { p with uriOrReasonPhrase := p.uriOrReasonPhrase ++ [byte] }

def addToHeaderField (byte : Byte) : FieldsM Unit :=
  addWithValidation fun p => { p with headerField := p.headerField ++ [toLowerCaseByte byte] }

def addToHeaderValue (byte : Byte) : FieldsM Unit :=
  addWithValidation fun p => { p with headerValue := p.headerValue ++ [byte] }

def nonNull {α : Type} (value : Option α) : FieldsM α :=
  match value with
  | some value => pure value
  | none => throw .typeError

def reset (p : Fields) : Fields :=
  if p.state = .upgraded then p
  else { requestParser := p.requestParser, connectMethod := p.connectMethod, httpVersionIndex := p.httpVersionIndex }

end

inductive Move
  | next
  | again
deriving DecidableEq

section

def lineEnding (byte : Byte) (ending : State) (other : FieldsM Unit) : FieldsM Move := do
  if byte = cr then
    setState ending
    return .next
  else if byte = lf then
    setState ending
    return .again
  else
    other
    return .next

def startByte (byte : Byte) : FieldsM Unit := do
  if http.head? = some byte then
    modify fun p => { p with httpVersionIndex := some 1, state := .methodOrResponseHttpVersion }
  else
    if !isTokenChar byte then throw (.httpException "Invalid request method")
    addToMethod byte
    if !(← get).requestParser then throw (.httpException "Invalid response line")
    setState .requestLineMethod

def methodOrVersionByte (byte : Byte) : FieldsM Unit := do
  let httpVersionIndex ← nonNull (← get).httpVersionIndex
  if httpVersionIndex < http.length ∧ http[httpVersionIndex]? = some byte then
    modify fun p => { p with httpVersionIndex := some (httpVersionIndex + 1) }
  else if httpVersionIndex = http.length ∧ byte = 47 then
    modify fun p => { p with httpVersionIndex := some (httpVersionIndex + 1) }
    if (← get).requestParser then throw (.httpException "Invalid request line")
    setState .responseHttpVersion
  else
    (http.take httpVersionIndex).forM addToMethod
    if byte = sp then setState .requestLineUri
    else
      addToMethod byte
      modify fun p => { p with httpVersion := none }
      if !(← get).requestParser then throw (.httpException "Invalid response line")
      setState .requestLineMethod

def setVersion (version : Version) (httpVersionIndex : ℕ) : FieldsM Unit :=
  modify fun p => { p with
    httpVersion := some version
    persistentConnection := decide (version = .http11)
    httpVersionIndex := some (httpVersionIndex + 1) }

def responseVersionByte (byte : Byte) : FieldsM Unit := do
  let httpVersionIndex ← nonNull (← get).httpVersionIndex
  if httpVersionIndex < http1Dot.length then
    expect byte (http1Dot.getD httpVersionIndex 0)
    modify fun p => { p with httpVersionIndex := some (httpVersionIndex + 1) }
  else if httpVersionIndex = http1Dot.length ∧ byte = 49 then setVersion .http11 httpVersionIndex
  else if httpVersionIndex = http1Dot.length ∧ byte = 48 then setVersion .http10 httpVersionIndex
  else if httpVersionIndex = http1Dot.length + 1 then
    expect byte sp
    setState .responseLineStatusCode
  else throw (.httpException "Invalid response line, failed to parse HTTP version")

def requestMethodByte (byte : Byte) : FieldsM Unit := do
  if byte = sp then setState .requestLineUri
  else
    if isSeparator byte || byte = cr || byte = lf then throw (.httpException "Invalid request method")
    addToMethod byte

def requestUriByte (byte : Byte) : FieldsM Unit := do
  if byte = sp then
    if (← get).uriOrReasonPhrase = [] then throw (.httpException "Invalid request, empty URI")
    modify fun p => { p with state := .requestLineHttpVersion, httpVersionIndex := some 0 }
  else
    if byte = cr ∨ byte = lf then throw (.httpException s!"Invalid request, unexpected {byte} in URI")
    addToUriOrReasonPhrase byte

def requestVersionByte (byte : Byte) : FieldsM Move := do
  let httpVersionIndex ← nonNull (← get).httpVersionIndex
  if httpVersionIndex < http1Dot.length then
    expect byte (http1Dot.getD httpVersionIndex 0)
    modify fun p => { p with httpVersionIndex := some (httpVersionIndex + 1) }
    return .next
  else if httpVersionIndex = http1Dot.length then
    if byte = 49 then setVersion .http11 httpVersionIndex
    else if byte = 48 then setVersion .http10 httpVersionIndex
    else throw (.httpException "Invalid response, invalid HTTP version")
    return .next
  else lineEnding byte .requestLineEnding (pure ())

def statusCodeByte (byte : Byte) : FieldsM Move := do
  if byte = sp then
    setState .responseLineReasonPhrase
    return .next
  else lineEnding byte .responseLineEnding do
    modify fun p => { p with statusCodeLength := p.statusCodeLength + 1 }
    if byte < 0x30 ∨ 0x39 < byte then
      throw (.httpException s!"Invalid response status code with {byte}")
    else if 3 < (← get).statusCodeLength then
      throw (.httpException "Invalid response, status code is over 3 digits")
    else modify fun p => { p with statusCode := p.statusCode * 10 + (byte.toNat - 0x30) }

def responseEndingByte (byte : Byte) : FieldsM Unit := do
  expect byte lf
  let statusCode := (← get).statusCode
  if statusCode ≤ 199 ∨ statusCode = 204 ∨ statusCode = 304 then modify fun p => { p with noMessageBody := true }
  setState .headerStart

end

section
variable {U : Type} (platform : Platform U)

def headerStartByte (byte : Byte) : FieldsM Move := do
  let version ← nonNull (← get).httpVersion
  modify fun p => { p with headers := some { protocolVersion := version } }
  lineEnding byte .headerEnding do
    addToHeaderField byte
    setState .headerField

def headerFieldByte (byte : Byte) : FieldsM Unit := do
  if byte = 58 then setState .headerValueStart
  else
    if !isTokenChar byte then throw (.httpException s!"Invalid header field name, with {byte}")
    addToHeaderField byte

def headerValueStartByte (byte : Byte) : FieldsM Unit := do
  if byte = cr then setState .headerValueFoldOrEndCr
  else if byte = lf then setState .headerValueFoldOrEnd
  else if byte ≠ sp ∧ byte ≠ ht then
    addToHeaderValue byte
    setState .headerValue

def headerValueByte (byte : Byte) : FieldsM Unit := do
  if byte = cr then setState .headerValueFoldOrEndCr
  else if byte = lf then setState .headerValueFoldOrEnd
  else addToHeaderValue byte

def errorIfBoth : Exception :=
  .httpException "Both Content-Length and Transfer-Encoding are specified, at most one is allowed"

def noteFraming (headerField headerValue : Text) : FieldsM Unit := do
  if headerField = contentLengthHeader then
    if (← get).contentLength then
      throw (.httpException "The Content-Length header occurred more than once, at most one is allowed.")
    else if (← get).transferEncoding then throw errorIfBoth
    modify fun p => { p with contentLength := true }
  else if headerField = transferEncodingHeader then
    modify fun p => { p with transferEncoding := true }
    if caseInsensitiveCompare chunkedCoding headerValue then modify fun p => { p with chunked := true }
    if (← get).contentLength then throw errorIfBoth

def addHeader (name value : Text) : FieldsM Unit := do
  let headers ← nonNull (← get).headers
  match headers.add platform name value with
  | .ok headers => modify fun p => { p with headers := some headers }
  | .error e => throw e

def addConnectionToken (token : Text) : FieldsM Unit := do
  let p ← get
  let isResponse := decide (p.messageType = .response)
  let isUpgradeCode := decide (p.statusCode = 426) || decide (p.statusCode = 101)
  let isUpgrade := caseInsensitiveCompare (ascii "upgrade") token
  if (isUpgrade && !isResponse) || (isUpgrade && isResponse && isUpgradeCode) then
    modify fun p => { p with connectionUpgrade := true }
  addHeader platform connectionHeader token

def endHeader : FieldsM Unit := do
  let p ← get
  noteFraming p.headerField p.headerValue
  if p.headerField = connectionHeader then (tokenizeFieldValue p.headerValue).forM (addConnectionToken platform)
  else addHeader platform p.headerField p.headerValue
  modify fun p => { p with headerField := [], headerValue := [] }

def foldOrEndByte (byte : Byte) : FieldsM Move := do
  if byte = sp ∨ byte = ht then
    setState .headerValueStart
    return .next
  else
    endHeader platform
    lineEnding byte .headerEnding do
      setState .headerField
      addToHeaderField byte

end

section

def chunkSizeByte (byte : Byte) : FieldsM Move :=
  lineEnding byte .chunkSizeEnding do
    if byte = 59 then setState .chunkSizeExtension
    else
      let value ← expectHexDigit byte
      if chunkSizeLimit / 16 < (← get).remainingContent then
        throw (.httpException "Chunk size overflows the integer")
      modify fun p => { p with remainingContent := p.remainingContent * 16 + value }

def chunkSizeEndingByte (byte : Byte) : FieldsM Unit := do
  expect byte lf
  if 0 < (← get).remainingContent then setState .body else setState .chunkedBodyDoneCr

end

def parseByte {U : Type} (platform : Platform U) (byte : Byte) : FieldsM Move := do
  match (← get).state with
  | .start => startByte byte; return .next
  | .methodOrResponseHttpVersion => methodOrVersionByte byte; return .next
  | .responseHttpVersion => responseVersionByte byte; return .next
  | .requestLineMethod => requestMethodByte byte; return .next
  | .requestLineUri => requestUriByte byte; return .next
  | .requestLineHttpVersion => requestVersionByte byte
  | .requestLineEnding =>
    expect byte lf
    modify fun p => { p with messageType := .request, state := .headerStart }
    return .next
  | .responseLineStatusCode => statusCodeByte byte
  | .responseLineReasonPhrase => lineEnding byte .responseLineEnding (addToUriOrReasonPhrase byte)
  | .responseLineEnding => responseEndingByte byte; return .next
  | .headerStart => headerStartByte byte
  | .headerField => headerFieldByte byte; return .next
  | .headerValueStart => headerValueStartByte byte; return .next
  | .headerValue => headerValueByte byte; return .next
  | .headerValueFoldOrEndCr =>
    expect byte lf
    setState .headerValueFoldOrEnd
    return .next
  | .headerValueFoldOrEnd => foldOrEndByte platform byte
  | .chunkSizeStartingCr =>
    if byte = lf then
      setState .chunkSizeStarting
      return .again
    expect byte cr
    setState .chunkSizeStarting
    return .next
  | .chunkSizeStarting =>
    expect byte lf
    setState .chunkSize
    return .next
  | .chunkSize => chunkSizeByte byte
  | .chunkSizeExtension => lineEnding byte .chunkSizeEnding (pure ())
  | .chunkSizeEnding => chunkSizeEndingByte byte; return .next
  | .chunkedBodyDoneCr =>
    if byte = lf then
      setState .chunkedBodyDone
      return .again
    expect byte cr
    return .next
  | _ => return .next

structure Head (U : Type) where
  line : (Text × U) ⊕ (ℕ × Text)
  headers : HttpHeaders
  transferLength : ℤ
  upgraded : Bool

inductive Event (U : Type)
  | message (head : Head U)
  | data (bytes : List Byte)
  | closeIncoming (closing : Bool)
  | bodyError (e : Exception)
  | closeBody
  | error (e : Exception)
  | close

structure Core extends Fields where
  paused : Bool := false
  bodyPaused : Bool := false
  parserCalled : Bool := false
  incoming : Bool := false
deriving DecidableEq

namespace Core
variable {U : Type}

def pauseStateChanged (p : Core) : Bool :=
  if p.incoming then !p.bodyPaused && !p.parserCalled else !p.paused && !p.parserCalled

def createIncoming (p : Core) : Core := { p with incoming := true, bodyPaused := true }

def closeIncoming (p : Core) (closing : Bool) : Core × List (Event U) :=
  if p.incoming then ({ p with incoming := false, bodyPaused := false }, [.closeIncoming closing]) else (p, [])

def onListen (p : Core) : Core := if p.incoming then { p with bodyPaused := false } else p

def answersConnect (p : Fields) : Bool :=
  !p.requestParser && decide (200 ≤ p.statusCode) && decide (p.statusCode < 300) && p.connectMethod

def ignoreFraming : FieldsM Unit := do
  let headers ← nonNull (← get).headers
  match (do (← (← headers.clearChunked).removeAll contentLengthHeader).removeAll transferEncodingHeader) with
  | .ok headers => modify fun p => { p with transferLength := -1, chunked := false, headers := some headers }
  | .error e => throw e

def determineLength (headers : HttpHeaders) (p : Fields) : Fields :=
  let p := { p with
    headers := some { headers with isMutable := false }
    transferLength := if p.chunked then -1 else headers.contentLength }
  let p := if p.messageType = .request ∧ p.transferLength < 0 ∧ p.chunked = false then
    { p with transferLength := 0 } else p
  if p.connectionUpgrade then { p with state := .upgraded, transferLength := 0 } else p

def endOfHeaders : FieldsM Unit := do
  if answersConnect (← get) then ignoreFraming
  let headers ← nonNull (← get).headers
  modify (determineLength headers)

def head (platform : Platform U) : FieldsM (Head U) := do
  let p ← get
  let headers ← nonNull p.headers
  let line ← if p.requestParser then
      match platform.parseUri p.uriOrReasonPhrase with
      | some uri => pure (.inl (p.method, uri))
      | none => throw .formatException
    else pure (.inr (p.statusCode, p.uriOrReasonPhrase))
  return { line, headers, transferLength := p.transferLength, upgraded := p.connectionUpgrade }

inductive Flow (U : Type)
  | next (p : Core) (events : List (Event U))
  | again (p : Core)
  | exit (p : Core) (events : List (Event U)) (parsed : Bool)
  | raise (p : Core) (e : Exception)

def deliver (p : Core) (head : Head U) : Flow U :=
  let p := { p with method := [], uriOrReasonPhrase := [] }
  if p.connectionUpgrade then
    let p := { p with parserCalled := false }
    let (q, events) := p.closeIncoming false
    .exit q (events ++ [.message head]) (p.incoming && q.pauseStateChanged)
  else if p.transferLength = 0 ∨ p.messageType = .response ∧ p.noMessageBody = true then
    -- The parser is running, so closing the message does not call it.
    let (p, events) := { p with toFields := reset p.toFields }.closeIncoming false
    .next p (events ++ [.message head])
  else
    let p : Core := if p.chunked then { p with state := .chunkSize, remainingContent := 0 }
      else if 0 < p.transferLength then { p with state := .body, remainingContent := p.transferLength }
      else { p with state := .body }
    let p := { p with parserCalled := false }.onListen
    .exit p [.message head] p.pauseStateChanged

def headersEnd (platform : Platform U) (p : Core) : Flow U :=
  match endOfHeaders p.toFields with
  | .error e fields => .raise { p with toFields := fields } e
  | .ok _ fields =>
    let p := { p with toFields := fields }.createIncoming
    match head platform p.toFields with
    | .error e _ => .raise p e
    | .ok head _ => p.deliver head

def takeBody (p : Core) (available : List Byte) : List Byte :=
  if 0 ≤ p.remainingContent ∧ p.remainingContent < available.length then available.take p.remainingContent.toNat
  else available

def countBody (p : Core) (data : List Byte) : Core :=
  if p.remainingContent ≠ -1 then { p with remainingContent := p.remainingContent - data.length } else p

def afterBody (p : Core) (data : List Byte) : Core × List (Event U) :=
  let p := p.countBody data
  if p.remainingContent = 0 then
    if p.chunked then ({ p with state := .chunkSizeStartingCr }, [])
    else { p with toFields := reset p.toFields }.closeIncoming false
  else (p, [])

def bodyBlock (p : Core) (available : List Byte) : Core × List (Event U) :=
  let (q, events) := p.afterBody (p.takeBody available)
  (q, .data (p.takeBody available) :: events)

def parse (platform : Platform U) (p : Core) (byte : Byte) : Flow U :=
  match p.state with
  | .headerEnding =>
    if byte = lf then p.headersEnd platform
    else .raise p (.httpException s!"Failed to parse HTTP, {byte} does not match {lf}")
  | .chunkedBodyDone =>
    if byte = lf then
      let (p, events) := { p with toFields := reset p.toFields }.closeIncoming false
      .next p events
    else .raise p (.httpException s!"Failed to parse HTTP, {byte} does not match {lf}")
  | _ =>
    match parseByte platform byte p.toFields with
    | .ok .next fields => .next { p with toFields := fields } []
    | .ok .again fields => .again { p with toFields := fields }
    | .error e fields => .raise { p with toFields := fields } e

def reportHttpError (p : Core) (e : Exception) : Core × List (Event U) :=
  ({ p with state := .failure }, [.error e, .close])

def reportBodyError (p : Core) (e : Exception) : Core × List (Event U) :=
  ({ p with state := .failure }, if p.incoming then [.bodyError e, .closeBody] else [])

def handle (p : Core) (e : Exception) : Core × List (Event U) :=
  if State.chunkSizeStartingCr.code ≤ p.state.code ∧ p.state.code ≤ State.body.code then p.reportBodyError e
  else p.reportHttpError e

end Core

structure HttpParser (U : Type) extends Core where
  unparsed : Option (List Byte) := none
  pauses : ℕ := 0
  canceled : Bool := false
  events : List (Event U) := []

namespace HttpParser
variable {U : Type} (platform : Platform U)

def emit (c : HttpParser U) (p : Core) (events : List (Event U)) (unparsed : List Byte) : HttpParser U :=
  { c with toCore := p, unparsed := some unparsed, events := c.events ++ events }

def handleError (c : HttpParser U) (e : Exception) : HttpParser U :=
  { c with toCore := (c.handle (U := U) e).1, canceled := true, events := c.events ++ (c.handle e).2 }

def finish (c : HttpParser U) : HttpParser U :=
  let c := { c with parserCalled := false }
  if c.unparsed = some [] then
    { c with unparsed := none, pauses := if c.state = .upgraded ∨ c.state = .failure then c.pauses else c.pauses - 1 }
  else c

def enter (c : HttpParser U) : Except (HttpParser U) (HttpParser U) :=
  let c := { c with parserCalled := true }
  if c.state = .closed then .error (c.handleError (.httpException "Data on closed connection"))
  else if c.state = .failure then .error (c.handleError (.httpException "Data on failed connection"))
  else .ok c

def follow (loop : HttpParser U → Option (HttpParser U)) (c : HttpParser U) (byte : Byte) (rest : List Byte) :
    Core.Flow U → Option (HttpParser U)
  | .next p events => loop (c.emit p events rest)
  | .again p => loop (c.emit p [] (byte :: rest))
  | .exit p events parsed =>
    if parsed then
      match (c.emit p events rest).enter with
      | .ok c => loop c
      | .error c => some c
    else some (c.emit p events rest)
  | .raise p e => some ((c.emit p [] rest).handleError e)

def doParse : ℕ → HttpParser U → Option (HttpParser U)
  | 0, _ => none
  | fuel + 1, c =>
    match c.unparsed with
    | none => some c.finish
    | some [] => some c.finish
    | some (byte :: rest) =>
      if c.state = .failure ∨ c.state = .upgraded then some c.finish
      else if c.incoming && c.bodyPaused || !c.incoming && c.paused then some { c with parserCalled := false }
      else if c.state = .body then
        if c.incoming then
          doParse fuel (c.emit (c.bodyBlock (U := U) (byte :: rest)).1 (c.bodyBlock (byte :: rest)).2
            ((byte :: rest).drop (c.takeBody (byte :: rest)).length))
        else some (c.handleError .typeError)
      else follow (doParse fuel) c byte rest (c.toCore.parse platform byte)

def parse (fuel : ℕ) (c : HttpParser U) : Option (HttpParser U) :=
  match c.enter with
  | .ok c => doParse platform fuel c
  | .error c => some c

def onData (c : HttpParser U) (buffer : List Byte) : Option (HttpParser U) :=
  { c with pauses := c.pauses + 1, unparsed := some buffer }.parse platform (2 * buffer.length + 1)

/-- The buffers that the socket gives to the parser one after the other.  A subscription that is paused or
canceled gives no data; the buffers that are left are returned. -/
def onBuffers : List (List Byte) → HttpParser U → Option (HttpParser U × List (List Byte))
  | [], c => some (c, [])
  | buffer :: buffers, c =>
    if c.canceled ∨ 0 < c.pauses then some (c, buffer :: buffers)
    else match c.onData platform buffer with
      | none => none
      | some c => onBuffers buffers c

end HttpParser
end DartSdk.Http
