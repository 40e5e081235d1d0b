import DartSdk.Http.Parser
import DartSdk.Library.StateExcept

namespace DartSdk.Http
open DartSdk.StateExcept List Core

def State.endsLine : State → Bool
  | requestLineEnding => true
  | responseLineEnding => true
  | headerEnding => true
  | chunkSizeStarting => true
  | chunkSizeEnding => true
  | chunkedBodyDone => true
  | _ => false

variable {U : Type} (platform : Platform U) {byte : Byte}

section
variable {p : Fields}
variable {Q : Unit → Fields → Prop}

@[simp]
lemma ensures_reportSizeLimitError : Ensures reportSizeLimitError p Q := by
  rw [reportSizeLimitError, ensures_bind, ensures_get]
  cases p.state <;> exact ensures_throw

@[simp]
lemma ensures_setState {state : State} : Ensures (setState state) p Q ↔ Q () { p with state } := ensures_modify

@[simp]
lemma ensures_addWithValidation {add : Fields → Fields} :
    Ensures (addWithValidation add) p Q ↔ (p.headersReceivedSize + 1 < headerTotalSizeLimit →
      Q () (add { p with headersReceivedSize := p.headersReceivedSize + 1 })) := by
  simp [addWithValidation, ensures_ite]

@[simp]
lemma ensures_expect {expected : Byte} : Ensures (expect byte expected) p Q ↔ (byte = expected → Q () p) := by
  simp [expect, ensures_ite]

@[simp]
lemma ensures_nonNull {α : Type} {value : Option α} {Q : α → Fields → Prop} :
    Ensures (nonNull value) p Q ↔ ∀ a, value = some a → Q a p := by
  cases value <;> simp [nonNull]

@[simp]
lemma ensures_expectHexDigit {Q : ℕ → Fields → Prop} :
    Ensures (expectHexDigit byte) p Q ↔ ∀ value, hexDigit byte = some value → Q value p := by
  rw [expectHexDigit]
  cases hexDigit byte <;> simp

@[simp]
lemma ensures_lineEnding {ending : State} {other : FieldsM Unit} {Q : Move → Fields → Prop} :
    Ensures (lineEnding byte ending other) p Q ↔ (byte = cr → Q .next { p with state := ending }) ∧
      (¬byte = cr → (byte = lf → Q .again { p with state := ending }) ∧
        (¬byte = lf → Ensures other p fun _ => Q .next)) := by
  simp [lineEnding, ensures_ite]

def Line (n : ℤ) (q : Fields) : Prop := q.state.code < firstBodyState ∧ q.remainingContent = n

variable {n : ℤ}

lemma addToMethod_line (byte : Byte) (h : Line n p) : Ensures (addToMethod byte) p fun _ => Line n :=
  ensures_addWithValidation.2 fun _ => h

section
variable (h : Line n p)
include h

lemma startByte_line : Ensures (startByte byte) p fun _ => Line n := by
  simp +decide [startByte, ensures_ite, addToMethod, Line, h.2]

lemma methodOrVersionByte_line : Ensures (methodOrVersionByte byte) p fun _ => Line n := by
  simp only [methodOrVersionByte, ensures_bind, ensures_get, ensures_nonNull, ensures_ite, ensures_modify]
  intro index _
  refine ⟨fun _ => h, fun _ => ⟨fun _ => ?_, fun _ => ?_⟩⟩
  · simp +decide [Line, h.2]
  · refine (ensures_forM (fun byte q hq => addToMethod_line byte hq) _ h).mono fun _ q hq => ?_
    simp +decide [addToMethod, Line, hq.2]

lemma responseVersionByte_line : Ensures (responseVersionByte byte) p fun _ => Line n := by
  simp +decide [responseVersionByte, ensures_ite, setVersion, Line, h.1, h.2]

lemma requestMethodByte_line : Ensures (requestMethodByte byte) p fun _ => Line n := by
  simp +decide [requestMethodByte, ensures_ite, addToMethod, Line, h.1, h.2]

lemma requestUriByte_line : Ensures (requestUriByte byte) p fun _ => Line n := by
  simp +decide [requestUriByte, ensures_ite, addToUriOrReasonPhrase, Line, h.1, h.2]

lemma responseEndingByte_line : Ensures (responseEndingByte byte) p fun _ => Line n := by
  simp +decide [responseEndingByte, ensures_ite, Line, h.2]

lemma headerFieldByte_line : Ensures (headerFieldByte byte) p fun _ => Line n := by
  simp +decide [headerFieldByte, ensures_ite, addToHeaderField, Line, h.1, h.2]

lemma headerValueStartByte_line : Ensures (headerValueStartByte byte) p fun _ => Line n := by
  simp +decide [headerValueStartByte, ensures_ite, addToHeaderValue, Line, h.1, h.2]

lemma headerValueByte_line : Ensures (headerValueByte byte) p fun _ => Line n := by
  simp +decide [headerValueByte, ensures_ite, addToHeaderValue, Line, h.1, h.2]

end

def LineMove (n : ℤ) (byte : Byte) (move : Move) (q : Fields) : Prop :=
  Line n q ∧ (move = .again → byte = lf ∧ q.state.endsLine = true)

lemma requestVersionByte_line (h : Line n p) : Ensures (requestVersionByte byte) p (LineMove n byte) := by
  simp +decide [requestVersionByte, ensures_ite, setVersion, LineMove, Line, h.1, h.2]

lemma statusCodeByte_line (h : Line n p) : Ensures (statusCodeByte byte) p (LineMove n byte) := by
  simp +decide [statusCodeByte, ensures_ite, LineMove, Line, h.1, h.2]

lemma headerStartByte_line (h : Line n p) : Ensures (headerStartByte byte) p (LineMove n byte) := by
  simp +decide [headerStartByte, addToHeaderField, LineMove, Line, h.2]

lemma addHeader_line (name value : Text) (h : Line n p) :
    Ensures (addHeader platform name value) p fun _ => Line n := by
  rw [addHeader, ensures_bind, ensures_get, ensures_bind, ensures_nonNull]
  intro headers _
  cases headers.add platform name value with
  | error e => exact ensures_throw
  | ok headers => exact ensures_modify.2 h

lemma endHeader_line (h : Line n p) : Ensures (endHeader platform) p fun _ => Line n := by
  have hnote : Ensures (noteFraming p.headerField p.headerValue) p fun _ => Line n := by
    simp +decide [noteFraming, ensures_ite, Line, h.1, h.2]
  have htok (token : Text) (q : Fields) (hq : Line n q) :
      Ensures (addConnectionToken platform token) q fun _ => Line n := by
    simp only [addConnectionToken, ensures_bind, ensures_get, ensures_ite, ensures_modify]
    exact ⟨fun _ => addHeader_line platform _ _ hq, fun _ => addHeader_line platform _ _ hq⟩
  simp only [endHeader, ensures_bind, ensures_get, ensures_ite, ensures_modify]
  refine hnote.mono fun _ q hq => ⟨fun _ => ?_, fun _ => ?_⟩
  · exact ensures_forM htok _ hq
  · exact addHeader_line platform _ _ hq

lemma foldOrEndByte_line (h : Line n p) : Ensures (foldOrEndByte platform byte) p (LineMove n byte) := by
  simp only [foldOrEndByte, ensures_ite, ensures_bind]
  refine ⟨fun _ => ?_, fun _ => (endHeader_line platform h).mono fun _ q hq => ?_⟩
  · simp +decide [LineMove, Line, h.2]
  · simp +decide [addToHeaderField, LineMove, Line, hq.2]

lemma next_lineMove {m : FieldsM Unit} (h : Ensures m p fun _ => Line n) :
    Ensures (do m; return .next) p (LineMove n byte) := by
  rw [ensures_bind]
  exact h.mono fun _ q hq => ensures_pure.2 ⟨hq, nofun⟩

lemma parseByte_line (h : Line n p) : Ensures (parseByte platform byte) p (LineMove n byte) := by
  rw [parseByte, ensures_bind, ensures_get]
  cases hsta : p.state
  case start => exact next_lineMove (startByte_line h)
  case methodOrResponseHttpVersion => exact next_lineMove (methodOrVersionByte_line h)
  case responseHttpVersion => exact next_lineMove (responseVersionByte_line h)
  case requestLineMethod => exact next_lineMove (requestMethodByte_line h)
  case requestLineUri => exact next_lineMove (requestUriByte_line h)
  case requestLineHttpVersion => exact requestVersionByte_line h
  case requestLineEnding => simp +decide [LineMove, Line, h.2]
  case responseLineStatusCode => exact statusCodeByte_line h
  case responseLineReasonPhrase => simp +decide [addToUriOrReasonPhrase, LineMove, Line, h.1, h.2]
  case responseLineEnding => exact next_lineMove (responseEndingByte_line h)
  case headerStart => exact headerStartByte_line h
  case headerField => exact next_lineMove (headerFieldByte_line h)
  case headerValueStart => exact next_lineMove (headerValueStartByte_line h)
  case headerValue => exact next_lineMove (headerValueByte_line h)
  case headerValueFoldOrEndCr => simp +decide [LineMove, Line, h.2]
  case headerValueFoldOrEnd => exact foldOrEndByte_line platform h
  case headerEnding => exact ensures_pure.2 ⟨h, nofun⟩
  all_goals
    rw [Line, hsta] at h
    exact absurd h.1 (by decide)

@[mk_iff]
structure ChunkMove (byte : Byte) (move : Move) (q : Fields) : Prop where
  first : firstBodyState ≤ q.state.code
  last : q.state.code ≤ State.body.code
  body : q.state = .body → q.remainingContent ≠ 0
  again : move = .again → byte = lf ∧ q.state.endsLine = true

lemma parseByte_chunk (hfir : firstBodyState ≤ p.state.code) (hlast : p.state.code < State.body.code) :
    Ensures (parseByte platform byte) p (ChunkMove byte) := by
  rw [parseByte, ensures_bind, ensures_get]
  cases hsta : p.state
  case chunkSizeStartingCr => simp +decide [ensures_ite, chunkMove_iff]
  case chunkSizeStarting => simp +decide [chunkMove_iff]
  case chunkSize => simp +decide [chunkSizeByte, ensures_ite, chunkMove_iff, hsta]
  case chunkSizeExtension => simp +decide [chunkMove_iff, hsta]
  case chunkSizeEnding =>
    simp +decide [chunkSizeEndingByte, ensures_ite, chunkMove_iff]
    omega
  case chunkedBodyDoneCr => simp +decide [ensures_ite, chunkMove_iff, hsta]
  case chunkedBodyDone => simp +decide [chunkMove_iff, hsta]
  all_goals
    rw [hsta] at hfir hlast
    exact absurd (And.intro hfir hlast) (by decide)

lemma parseByte_endsLine (h : p.state.endsLine = true) :
    Ensures (parseByte platform byte) p fun move _ => move = .next := by
  rw [parseByte, ensures_bind, ensures_get]
  cases hsta : p.state
  case responseLineEnding => simp [responseEndingByte, ensures_ite]
  case chunkSizeEnding => simp [chunkSizeEndingByte, ensures_ite]
  case requestLineEnding => simp
  case headerEnding => simp
  case chunkSizeStarting => simp
  case chunkedBodyDone => simp
  all_goals
    rw [hsta] at h
    exact absurd h (by decide)

end

namespace Core

def halted (p : Core) : Prop := p.state = .failure ∨ p.state = .upgraded

instance (p : Core) : Decidable p.halted := inferInstanceAs (Decidable (_ ∨ _))

@[mk_iff]
structure Running (p : Core) : Prop where
  paused : p.paused = false
  bodyPaused : p.bodyPaused = false
  parserCalled : p.parserCalled = true
  live : p.state ≠ .closed ∧ p.state ≠ .failure
  line : p.state.code < firstBodyState → p.remainingContent = -1
  incoming : firstBodyState ≤ p.state.code → p.state.code ≤ State.body.code → p.incoming = true
  body : p.state = .body → p.remainingContent ≠ 0

/-- The loop goes on in a state of the same kind; only a line feed is pushed back, and leaving the function
means that a callback has called the parser again. -/
def Flow.Sound (byte : Byte) : Flow U → Prop
  | .next q _ => q.Running
  | .again q => q.Running ∧ byte = lf ∧ q.state.endsLine = true
  | .exit q _ parsed => parsed = true ∧ { q with parserCalled := true }.Running
  | .raise _ _ => True

lemma determineLength_fields (headers : HttpHeaders) (p : Fields) :
    (determineLength headers p).remainingContent = p.remainingContent ∧ (determineLength headers p).state =
      if (determineLength headers p).connectionUpgrade then .upgraded else p.state := by
  rw [determineLength]
  split_ifs <;> simp_all

lemma endOfHeaders_ensures {p : Fields} : Ensures endOfHeaders p fun _ q =>
    q.remainingContent = p.remainingContent ∧ q.state = if q.connectionUpgrade then .upgraded else p.state := by
  simp only [endOfHeaders, ensures_bind, ensures_get, ensures_ite, ensures_nonNull, ensures_modify]
  refine ⟨fun _ => ?_, fun _ headers _ => determineLength_fields headers p⟩
  rw [ignoreFraming, ensures_bind, ensures_get, ensures_bind, ensures_nonNull]
  intro headers _
  cases (do (← (← headers.clearChunked).removeAll contentLengthHeader).removeAll transferEncodingHeader) with
  | error e => exact ensures_throw
  | ok headers => exact ensures_modify.2 fun headers _ => determineLength_fields headers _

variable {p : Core}

lemma reset_running (hpau : p.paused = false) (hcal : p.parserCalled = true)
    (hinc : p.incoming = true) (hsta : p.state ≠ .upgraded) :
    ({ p with toFields := reset p.toFields }.closeIncoming (U := U) false).1.Running := by
  simp +decide [closeIncoming, running_iff, reset, hpau, hcal, hinc, hsta]

variable {q : Core}

lemma deliver_sound (head : Head U) (hpau : p.paused = false)
    (hcal : p.parserCalled = true) (hinc : p.incoming = true) (hrem : p.remainingContent = -1)
    (hsta : p.state = if p.connectionUpgrade then .upgraded else .headerEnding) : (p.deliver head).Sound byte := by
  rw [deliver]
  dsimp only
  split_ifs with hupg hemp hchu hlen
  · rw [if_pos hupg] at hsta
    simp +decide [Flow.Sound, closeIncoming, pauseStateChanged, running_iff, hpau, hinc, hsta]
  · rw [if_neg hupg] at hsta
    exact reset_running (p := { p with method := [], uriOrReasonPhrase := [] }) hpau hcal hinc
      (by rewrite [hsta]; decide)
  · simp +decide [Flow.Sound, onListen, pauseStateChanged, running_iff, hpau, hinc]
  · simp +decide [Flow.Sound, onListen, pauseStateChanged, running_iff, hpau, hinc]
    omega
  · simp +decide [Flow.Sound, onListen, pauseStateChanged, running_iff, hpau, hinc, hrem]

lemma headersEnd_sound (h : p.Running) (hsta : p.state = .headerEnding) : (p.headersEnd platform).Sound byte := by
  rw [headersEnd]
  cases hfie : endOfHeaders p.toFields with
  | error e fields => trivial
  | ok _ fields =>
    obtain ⟨hrem, hupg⟩ := endOfHeaders_ensures _ _ hfie
    dsimp only
    cases head platform ({ p with toFields := fields }.createIncoming).toFields with
    | error e fields => trivial
    | ok head fields' =>
      refine deliver_sound head h.paused h.parserCalled rfl ?_ ?_
      · rw [← h.line (by rewrite [hsta]; decide)]
        exact hrem
      · rw [← hsta]
        exact hupg

lemma parseByte_running (h : p.Running) (hbody : p.state ≠ .body) (hhalted : ¬p.halted)
    {move : Move} {fields : Fields} (hfie : parseByte platform byte p.toFields = .ok move fields) :
    { p with toFields := fields }.Running ∧ (move = .again → byte = lf ∧ fields.state.endsLine = true) := by
  by_cases hline : p.state.code < firstBodyState
  · obtain ⟨⟨hsta, hrem⟩, haga⟩ := parseByte_line platform ⟨hline, h.line hline⟩ _ _ hfie
    refine ⟨⟨h.paused, h.bodyPaused, h.parserCalled, ⟨fun heq => ?_, fun heq => ?_⟩, fun _ => hrem,
      fun hle => ?_, fun heq => ?_⟩, haga⟩
    · rw [show fields.state = .closed from heq] at hsta
      exact absurd hsta (by decide)
    · rw [show fields.state = .failure from heq] at hsta
      exact absurd hsta (by decide)
    · exact absurd hsta (Nat.not_lt.2 hle)
    · rw [show fields.state = .body from heq] at hsta
      exact absurd hsta (by decide)
  · have hlast : p.state.code < State.body.code := by
      have hclo := h.live.1
      rw [halted] at hhalted
      revert hbody hhalted hclo
      cases p.state <;> decide
    obtain ⟨hfir, hlast', hne, haga⟩ := parseByte_chunk platform (Nat.not_lt.1 hline) hlast _ _ hfie
    refine ⟨⟨h.paused, h.bodyPaused, h.parserCalled, ⟨fun heq => ?_, fun heq => ?_⟩, fun hlt => ?_, fun _ _ => ?_,
      hne⟩, haga⟩
    · rw [show fields.state = .closed from heq] at hlast'
      exact absurd hlast' (by decide)
    · rw [show fields.state = .failure from heq] at hlast'
      exact absurd hlast' (by decide)
    · exact absurd hlt (Nat.not_lt.2 hfir)
    · exact h.incoming (Nat.not_lt.1 hline) (Nat.le_of_lt hlast)

lemma parse_sound (byte : Byte) (h : p.Running) (hbody : p.state ≠ .body) (hhalted : ¬p.halted) :
    (p.parse platform byte).Sound byte := by
  rw [parse]
  split
  · rename_i hsta
    split_ifs with hlf
    · exact headersEnd_sound platform h hsta
    · trivial
  · rename_i hsta
    split_ifs with hlf
    · exact reset_running h.paused h.parserCalled (h.incoming (by rewrite [hsta]; decide) (by rewrite [hsta]; decide))
        (by rewrite [hsta]; decide)
    · trivial
  · cases hfie : parseByte platform byte p.toFields with
    | error e fields => trivial
    | ok move fields =>
      obtain ⟨hrun, haga⟩ := parseByte_running platform h hbody hhalted hfie
      cases move with
      | next => exact hrun
      | again => exact ⟨hrun, haga rfl⟩

lemma deliver_ne_again (head : Head U) : p.deliver head ≠ .again q := by
  rw [deliver]
  split_ifs <;> exact nofun

lemma headersEnd_ne_again : p.headersEnd platform ≠ .again q := by
  rw [headersEnd]
  cases endOfHeaders p.toFields with
  | error e fields => exact nofun
  | ok _ fields =>
    dsimp only
    cases head platform ({ p with toFields := fields }.createIncoming).toFields with
    | error e fields => exact nofun
    | ok head fields' => exact deliver_ne_again head

lemma parse_endsLine (byte : Byte) (h : p.state.endsLine = true) : p.parse platform byte ≠ .again q := by
  rw [parse]
  split
  · split_ifs
    · exact headersEnd_ne_again platform
    · exact nofun
  · split_ifs <;> exact nofun
  · cases hfie : parseByte platform byte p.toFields with
    | error e fields => exact nofun
    | ok move fields =>
      rw [show move = .next from parseByte_endsLine platform h _ _ hfie]
      exact nofun

section

def settle : Flow U → Core × List (Event U)
  | .next q events => (q, events)
  | .again q => (q, [])
  | .exit q events _ => ({ q with parserCalled := true }, events)
  | .raise q e => q.handle e

def feedByte (p : Core) (byte : Byte) : Core × List (Event U) :=
  if p.state = .body then p.bodyBlock [byte]
  else
    match p.parse platform byte with
    | .again q => settle (q.parse platform byte)
    | flow => settle flow

lemma feedByte_again {q : Core} (hbody : p.state ≠ .body) (h : p.parse platform byte = .again q) :
    feedByte platform p byte = settle (q.parse platform byte) := by
  rw [feedByte, if_neg hbody, h]

lemma feedByte_settle (hbody : p.state ≠ .body) (h : ∀ q, p.parse platform byte ≠ .again q) :
    feedByte platform p byte = settle (p.parse platform byte) := by
  rw [feedByte, if_neg hbody]
  cases hflow : p.parse platform byte with
  | again q => exact absurd hflow (h q)
  | next q events | exit q events parsed | raise q e => rfl

def feed : List Byte → Core → Core × List (Event U) × List Byte
  | [], p => (p, [], [])
  | byte :: bytes, p =>
    if p.halted then (p, [], byte :: bytes)
    else
      let fed := feed bytes (feedByte platform p byte).1
      (fed.1, (feedByte platform p byte).2 ++ fed.2.1, fed.2.2)

lemma feed_halted (h : p.halted) (l : List Byte) : feed platform l p = (p, [], l) := by
  cases l with
  | nil => rfl
  | cons byte l => exact if_pos h

lemma feed_rest {l : List Byte} (h : ¬(feed platform l p).1.halted) : (feed platform l p).2.2 = [] := by
  induction l generalizing p with
  | nil => rfl
  | cons byte l ih =>
    rw [feed] at h ⊢
    split_ifs at h ⊢ with hp
    · exact absurd hp h
    · exact ih h

lemma feed_append (l l' : List Byte) (p : Core) : feed platform (l ++ l') p =
    ((feed platform ((feed platform l p).2.2 ++ l') (feed platform l p).1).1,
    (feed platform l p).2.1 ++ (feed platform ((feed platform l p).2.2 ++ l') (feed platform l p).1).2.1,
    (feed platform ((feed platform l p).2.2 ++ l') (feed platform l p).1).2.2) := by
  induction l generalizing p with
  | nil => rfl
  | cons byte l ih =>
    by_cases hp : p.halted
    · rw [feed_halted platform hp, feed_halted platform hp, feed_halted platform hp]
      rfl
    · rw [cons_append, feed, if_neg hp, feed, if_neg hp, ih]
      simp only [append_assoc]

end

section

def advance (p : Core) : Core :=
  { p with remainingContent := if p.remainingContent = -1 then -1 else p.remainingContent - 1 }

lemma takeBody_last (h : p.remainingContent = 1) (byte : Byte) (l : List Byte) : p.takeBody (byte :: l) = [byte] := by
  rw [takeBody, h]
  split_ifs with hlt
  · rfl
  · have hl : l = [] := by
      rw [length_cons] at hlt
      exact length_eq_zero_iff.1 (by omega)
    rw [hl]

lemma takeBody_cons (h0 : p.remainingContent ≠ 0) (h1 : p.remainingContent ≠ 1) (byte : Byte) (l : List Byte) :
    p.takeBody (byte :: l) = byte :: p.advance.takeBody l := by
  rw [takeBody, takeBody, advance]
  dsimp only
  rw [length_cons]
  by_cases hend : p.remainingContent = -1
  · rw [if_neg (by omega), if_neg (by omega)]
  · rw [if_neg hend]
    by_cases hlt : 0 ≤ p.remainingContent ∧ p.remainingContent < ((l.length + 1 : ℕ) : ℤ)
    · rw [if_pos hlt, if_pos (by omega),
        show p.remainingContent.toNat = (p.remainingContent - 1).toNat + 1 by omega, take_succ_cons]
    · rw [if_neg hlt, if_neg (by omega)]

lemma countBody_cons (h0 : p.remainingContent ≠ 0) (byte : Byte) (d : List Byte) :
    p.countBody (byte :: d) = p.advance.countBody d := by
  rw [countBody, countBody, advance]
  dsimp only
  by_cases hend : p.remainingContent = -1
  · rw [if_pos hend, if_neg (not_not.2 hend), if_neg (not_not.2 rfl), ← hend]
  · rw [if_pos hend, if_neg hend, if_pos (by omega), length_cons,
      show p.remainingContent - ((d.length + 1 : ℕ) : ℤ) = p.remainingContent - 1 - d.length by omega]

lemma countBody_nil : p.countBody [] = p := by
  rw [countBody]
  split_ifs with hend
  · rw [length_nil, show p.remainingContent - ((0 : ℕ) : ℤ) = p.remainingContent by omega]
  · rfl

lemma afterBody_cons (h0 : p.remainingContent ≠ 0) (byte : Byte) (d : List Byte) :
    p.afterBody (U := U) (byte :: d) = p.advance.afterBody d := by
  rw [afterBody, afterBody, countBody_cons h0]

lemma afterBody_nil (h0 : p.remainingContent ≠ 0) : p.afterBody (U := U) [] = (p, []) := by
  rw [afterBody, countBody_nil]
  exact if_neg h0

lemma feedByte_body (hsta : p.state = .body) (h0 : p.remainingContent ≠ 0) (byte : Byte) :
    feedByte (U := U) platform p byte = ((p.afterBody (U := U) [byte]).1, .data [byte] :: (p.afterBody [byte]).2) := by
  have htake : p.takeBody [byte] = [byte] := by rw [takeBody, if_neg (by rw [length_singleton]; omega)]
  rw [feedByte, if_pos hsta, bodyBlock, htake]

lemma feed_body {fed} (hsta : p.state = .body) (h0 : p.remainingContent ≠ 0) (byte : Byte) (l : List Byte)
    (hfed : feed (U := U) platform ((byte :: l).drop (p.takeBody (byte :: l)).length)
      (p.afterBody (U := U) (p.takeBody (byte :: l))).1 = fed) :
    feed (U := U) platform (byte :: l) p = (fed.1,
      (p.takeBody (byte :: l)).map (fun b => .data [b]) ++ (p.afterBody (p.takeBody (byte :: l))).2 ++ fed.2.1,
      fed.2.2) := by
  subst hfed
  have hlive : ¬p.halted := by
    rw [halted, hsta]
    decide
  induction l generalizing byte p with
  | nil =>
    have htake : p.takeBody [byte] = [byte] := by rw [takeBody, if_neg (by rw [length_singleton]; omega)]
    rw [feed, if_neg hlive, feedByte_body platform hsta h0, htake]
    rfl
  | cons b l ih =>
    rw [feed, if_neg hlive, feedByte_body platform hsta h0]
    by_cases h1 : p.remainingContent = 1
    · rw [takeBody_last h1]
      rfl
    · have hne : p.advance.remainingContent ≠ 0 := by
        rw [advance]
        dsimp only
        split_ifs <;> omega
      rw [takeBody_cons h0 h1, afterBody_cons h0, afterBody_cons h0, afterBody_nil hne, length_cons]
      rw [ih (p := p.advance) hsta hne b hlive]
      simp

lemma countBody_eq (data : List Byte) : ∃ n, p.countBody data = { p with remainingContent := n } := by
  rw [countBody]
  split_ifs
  · exact ⟨_, rfl⟩
  · exact ⟨p.remainingContent, rfl⟩

lemma afterBody_running (h : p.Running) (hsta : p.state = .body) (data : List Byte) :
    (p.afterBody (U := U) data).1.Running := by
  have hinc : p.incoming = true := h.incoming (by rewrite [hsta]; decide) (by rewrite [hsta]; decide)
  obtain ⟨n, hn⟩ := p.countBody_eq data
  rw [afterBody, hn]
  split_ifs with hzero hchu
  · simp +decide [running_iff, h.paused, h.bodyPaused, h.parserCalled, hinc]
  · exact reset_running h.paused h.parserCalled hinc (by rewrite [hsta]; decide)
  · refine ⟨h.paused, h.bodyPaused, h.parserCalled, h.live, fun hlt => ?_, fun _ _ => hinc, fun _ => hzero⟩
    rw [hsta] at hlt
    exact absurd hlt (by decide)

lemma not_halted_of_endsLine (h : p.state.endsLine = true) : ¬p.halted ∧ p.state ≠ .body := by
  rw [halted]
  revert h
  cases p.state <;> decide

lemma handle_failure (p : Core) (e : Exception) : (p.handle (U := U) e).1.state = .failure := by
  rw [handle]
  split_ifs <;> rfl

lemma settle_running {byte : Byte} {flow : Flow U} (h : flow.Sound byte) :
    (settle flow).1.Running ∨ (settle flow).1.state = .failure := by
  cases flow with
  | next q events => exact .inl h
  | again q => exact .inl h.1
  | exit q events parsed => exact .inl h.2
  | raise q e => exact .inr (handle_failure q e)

lemma feedByte_running (h : p.Running) (hhalted : ¬p.halted) (byte : Byte) :
    (feedByte (U := U) platform p byte).1.Running ∨ (feedByte (U := U) platform p byte).1.state = .failure := by
  by_cases hbody : p.state = .body
  · rw [feedByte_body platform hbody (h.body hbody)]
    exact .inl (afterBody_running h hbody _)
  have hsou := parse_sound platform byte h hbody hhalted
  by_cases haga : ∃ q, p.parse platform byte = .again q
  · obtain ⟨q, hq⟩ := haga
    rw [hq] at hsou
    obtain ⟨hlive, hbody'⟩ := not_halted_of_endsLine hsou.2.2
    rw [feedByte_again platform hbody hq]
    exact settle_running (parse_sound platform byte hsou.1 hbody' hlive)
  · rw [feedByte_settle platform hbody fun q hq => haga ⟨q, hq⟩]
    exact settle_running hsou

lemma feed_running (h : p.Running) {l : List Byte} (hlive : ¬(feed (U := U) platform l p).1.halted) :
    (feed (U := U) platform l p).1.Running := by
  induction l generalizing p with
  | nil => exact h
  | cons byte l ih =>
    rw [feed] at hlive ⊢
    split_ifs at hlive ⊢ with hhalted
    · exact h
    · rcases feedByte_running platform h hhalted byte with hrun | hfai
      · exact ih hrun hlive
      · rw [feed_halted platform (.inl hfai)] at hlive
        exact absurd (.inl hfai) hlive

end
end Core

section

def Event.bytewise : Event U → List (Event U)
  | .data bytes => bytes.map fun byte => .data [byte]
  | event => [event]

def bytewise (events : List (Event U)) : List (Event U) := events.flatMap Event.bytewise

lemma bytewise_append (events events' : List (Event U)) :
    bytewise (events ++ events') = bytewise events ++ bytewise events' := flatMap_append

lemma bytewise_data (data : List Byte) :
    bytewise (data.map fun byte => (.data [byte] : Event U)) = bytewise [.data data] := by
  induction data with
  | nil => rfl
  | cons byte data ih =>
    rw [map_cons, singleton_append.symm, bytewise_append, ih]
    rfl

end

namespace HttpParser

structure Settled (c c' : HttpParser U) (fed : Core × List (Event U) × List Byte) : Prop where
  core : c'.toCore = if fed.1.state = .failure then fed.1 else { fed.1 with parserCalled := false }
  unparsed : c'.unparsed.getD [] = fed.2.2
  released : ¬fed.1.halted → c'.unparsed = none
  pauses : c'.pauses = if fed.1.halted then c.pauses else c.pauses - 1
  canceled : c'.canceled = decide (fed.1.state = .failure)
  events : bytewise c'.events = bytewise (c.events ++ fed.2.1)

variable {l : List Byte}
variable {fed : Core × List (Event U) × List Byte}
variable {c c' : HttpParser U} {fuel : ℕ}

lemma Settled.step {p : Core} {events events' : List (Event U)} (h : Settled (c.emit p events l) c' fed)
    (heve : bytewise events = bytewise events') : Settled c c' (fed.1, events' ++ fed.2.1, fed.2.2) := by
  refine ⟨h.core, h.unparsed, h.released, h.pauses, h.canceled, ?_⟩
  rw [h.events]
  simp only [bytewise_append, emit, heve, append_assoc]

lemma finish_settled (hrun : c.toCore.Running)
    (hunp : c.unparsed = some l) (hcan : c.canceled = false) (h : l = [] ∨ c.toCore.halted) :
    Settled c c.finish (c.toCore, [], l) := by
  have hfai : ¬c.state = .failure := hrun.live.2
  have hcan' : c.canceled = decide (c.state = .failure) := by rw [hcan, decide_eq_false hfai]
  rw [finish]
  by_cases hl : l = []
  · subst hl
    rw [if_pos hunp]
    refine ⟨(if_neg hfai).symm, rfl, fun _ => rfl, ?_, hcan', by rw [append_nil]⟩
    by_cases hhalted : c.toCore.halted
    · rw [if_pos hhalted]
      exact if_pos hhalted.symm
    · rw [if_neg hhalted]
      exact if_neg fun hor => hhalted hor.symm
  · have hhalted := h.resolve_left hl
    rw [if_neg (by rw [hunp]; exact fun heq => hl (Option.some.inj heq))]
    refine ⟨(if_neg hfai).symm, by rw [hunp]; rfl, fun hlive => absurd hhalted hlive,
      (if_pos hhalted).symm, hcan', by rw [append_nil]⟩

lemma raise_settled (p : Core) (e : Exception) :
    Settled c ((c.emit p [] l).handleError e) ((p.handle (U := U) e).1, (p.handle e).2, l) := by
  have hfai := handle_failure (U := U) p e
  refine ⟨(if_pos hfai).symm, rfl, fun hlive => absurd (.inl hfai) hlive, (if_pos (.inl hfai)).symm,
    (decide_eq_true hfai).symm, ?_⟩
  rw [handleError, emit, append_nil]

lemma enter_ok (h : { c.toCore with parserCalled := true }.Running) :
    c.enter = .ok { c with parserCalled := true } := by
  rw [enter]
  rw [if_neg h.live.1, if_neg h.live.2]

lemma doParse_nil (hrun : c.toCore.Running) (hunp : c.unparsed = some []) (hcan : c.canceled = false) :
    ∃ c', doParse platform (fuel + 1) c = some c' ∧ Settled c c' (c.toCore.feed platform []) := by
  rw [doParse, hunp]
  exact ⟨_, rfl, finish_settled hrun hunp hcan (.inl rfl)⟩

section
variable {rest : List Byte} (hrun : c.toCore.Running)
  (hunp : c.unparsed = some (byte :: rest))

include hrun hunp

lemma doParse_cons (hhalted : ¬c.toCore.halted) (hbody : c.state ≠ .body) :
    doParse platform (fuel + 1) c = follow (doParse platform fuel) c byte rest (c.toCore.parse platform byte) := by
  rw [doParse, hunp]
  dsimp only
  rw [if_neg (show ¬(c.state = .failure ∨ c.state = .upgraded) from hhalted),
    if_neg (by simp [hrun.paused, hrun.bodyPaused]), if_neg hbody]

lemma doParse_byte (hcan : c.canceled = false) (hhalted : ¬c.toCore.halted)
    (hbody : c.state ≠ .body) (haga : ∀ p, c.toCore.parse platform byte ≠ .again p)
    (ih : ∀ {d : HttpParser U}, d.toCore.Running → d.unparsed = some rest → d.canceled = false →
    ∃ c', doParse platform fuel d = some c' ∧ Settled d c' (d.toCore.feed platform rest)) :
    ∃ c', doParse platform (fuel + 1) c = some c' ∧ Settled c c' (c.toCore.feed platform (byte :: rest)) := by
  rw [doParse_cons platform hrun hunp hhalted hbody, feed, if_neg hhalted, feedByte_settle platform hbody haga]
  have hsou := parse_sound platform byte hrun hbody hhalted
  cases hflow : c.toCore.parse platform byte with
  | next p events =>
    rw [hflow] at hsou
    obtain ⟨c', hc', hset⟩ := ih (d := c.emit p events rest) hsou rfl hcan
    exact ⟨c', hc', hset.step rfl⟩
  | again p => exact absurd hflow (haga p)
  | exit p events parsed =>
    rw [hflow] at hsou
    obtain ⟨rfl, hrun'⟩ := hsou
    rw [follow, enter_ok hrun']
    obtain ⟨c', hc', hset⟩ := ih (d := c.emit { p with parserCalled := true } events rest) hrun' rfl hcan
    exact ⟨c', hc', hset.step rfl⟩
  | raise p e =>
    dsimp only [settle]
    rw [feed_halted platform (.inl (handle_failure p e)), append_nil]
    exact ⟨_, rfl, raise_settled p e⟩

lemma doParse_block (hcan : c.canceled = false) (hbody : c.state = .body)
    (ih : ∀ {d : HttpParser U} {l : List Byte}, l.length ≤ rest.length → d.toCore.Running → d.unparsed = some l →
    d.canceled = false → ∃ c', doParse platform fuel d = some c' ∧ Settled d c' (d.toCore.feed platform l)) :
    ∃ c', doParse platform (fuel + 1) c = some c' ∧ Settled c c' (c.toCore.feed platform (byte :: rest)) := by
  have hinc := hrun.incoming (by rewrite [hbody]; decide) (by rewrite [hbody]; decide)
  have hrem := hrun.body hbody
  rw [doParse, hunp]
  dsimp only
  rw [if_neg (by rewrite [hbody]; decide), if_neg (by simp [hrun.paused, hrun.bodyPaused]), if_pos hbody,
    if_pos hinc, feed_body platform hbody hrem _ _ rfl]
  have htak : 0 < (c.takeBody (byte :: rest)).length := by
    rw [takeBody]
    split_ifs
    · rw [length_take]
      omega
    · exact Nat.succ_pos _
  obtain ⟨c', hc', hset⟩ := ih (l := (byte :: rest).drop (c.takeBody (byte :: rest)).length)
    (d := c.emit (c.afterBody (c.takeBody (byte :: rest))).1
      (.data (c.takeBody (byte :: rest)) :: (c.afterBody (c.takeBody (byte :: rest))).2) _)
    (by rw [length_drop, length_cons]; omega) (afterBody_running hrun hbody _) rfl hcan
  refine ⟨c', hc', hset.step ?_⟩
  rw [bytewise_append, bytewise_data, ← bytewise_append]
  rfl

end

lemma doParse_feed (n : ℕ) (hl : l.length ≤ n) (hfuel : 2 * l.length < fuel)
    (hrun : c.toCore.Running) (hunp : c.unparsed = some l)
    (hcan : c.canceled = false) :
    ∃ c', doParse platform fuel c = some c' ∧ Settled c c' (c.toCore.feed platform l) := by
  induction n generalizing l fuel c with
  | zero =>
    obtain ⟨fuel, rfl⟩ : ∃ k, fuel = k + 1 := ⟨fuel - 1, by omega⟩
    obtain rfl := length_eq_zero_iff.1 (Nat.le_zero.1 hl)
    exact doParse_nil platform hrun hunp hcan
  | succ n ih =>
    obtain ⟨fuel, rfl⟩ : ∃ k, fuel = k + 1 := ⟨fuel - 1, by omega⟩
    cases l with
    | nil => exact doParse_nil platform hrun hunp hcan
    | cons byte rest =>
      rw [length_cons] at hl hfuel
      by_cases hhalted : c.toCore.halted
      · rw [doParse, hunp]
        dsimp only
        rw [if_pos (show c.state = .failure ∨ c.state = .upgraded from hhalted), feed_halted platform hhalted]
        exact ⟨_, rfl, finish_settled hrun hunp hcan (.inr hhalted)⟩
      by_cases hbody : c.state = .body
      · exact doParse_block platform hrun hunp hcan hbody fun hle => ih (by omega) (by omega)
      by_cases haga : ∃ p, c.toCore.parse platform byte = .again p
      · -- The byte is a line feed, and the state that was entered takes it.
        obtain ⟨p, hp⟩ := haga
        obtain ⟨fuel, rfl⟩ : ∃ k, fuel = k + 1 := ⟨fuel - 1, by omega⟩
        have hsou := parse_sound platform byte hrun hbody hhalted
        rw [hp] at hsou
        obtain ⟨hrun', -, hends⟩ := hsou
        obtain ⟨hlive, hbody'⟩ := not_halted_of_endsLine hends
        have htak : ∀ q, p.parse platform byte ≠ .again q := fun q => parse_endsLine platform byte hends
        have hlt : 2 * rest.length < fuel := by omega
        obtain ⟨c', hc', hset⟩ := doParse_byte platform (c := c.emit p [] (byte :: rest)) hrun' rfl hcan
          hlive hbody' htak fun {d} => ih (by omega) hlt
        rw [show (c.emit p [] (byte :: rest)).toCore = p from rfl] at hset
        refine ⟨c', ?_, ?_⟩
        · rw [doParse_cons platform hrun hunp hhalted hbody, hp]
          exact hc'
        · have hstep := hset.step (rfl : bytewise [] = bytewise [])
          rw [feed, if_neg hhalted, feedByte_again platform hbody hp]
          rw [feed, if_neg hlive, feedByte_settle platform hbody' htak] at hstep
          exact hstep
      · exact doParse_byte platform hrun hunp hcan hhalted hbody (fun p hp => haga ⟨p, hp⟩)
          fun {d} => ih (by omega) (by omega)

structure Idle (c : HttpParser U) : Prop where
  parserCalled : c.parserCalled = false
  running : { c.toCore with parserCalled := true }.Running
  live : ¬c.toCore.halted
  unparsed : c.unparsed = none
  pauses : c.pauses = 0
  canceled : c.canceled = false

lemma onData_feed (h : c.Idle) (buffer : List Byte) : ∃ c', c.onData platform buffer = some c' ∧
    Settled { c with pauses := 1 } c' (feed platform buffer { c.toCore with parserCalled := true }) := by
  have hent : ({ c with pauses := c.pauses + 1, unparsed := some buffer } : HttpParser U).enter =
      .ok { c with pauses := 1, unparsed := some buffer, parserCalled := true } := by
    rw [enter_ok (c := { c with pauses := c.pauses + 1, unparsed := some buffer }) h.running, h.pauses]
  rw [onData, parse, hent]
  obtain ⟨c', hc', hset⟩ := doParse_feed platform buffer.length (Nat.le_refl _) (Nat.lt_succ_self (2 * buffer.length))
    (c := { c with pauses := 1, unparsed := some buffer, parserCalled := true }) h.running rfl h.canceled
  exact ⟨c', hc', hset.core, hset.unparsed, hset.released, hset.pauses, hset.canceled, hset.events⟩

structure Outcome (c : HttpParser U) (r : HttpParser U × List (List Byte))
    (fed : Core × List (Event U) × List Byte) : Prop where
  core : r.1.toCore = if fed.1.state = .failure then fed.1 else { fed.1 with parserCalled := false }
  unparsed : r.1.unparsed.getD [] ++ r.2.flatten = fed.2.2
  released : ¬fed.1.halted → r.1.unparsed = none ∧ r.2 = []
  pauses : r.1.pauses = if fed.1.halted then 1 else 0
  canceled : r.1.canceled = decide (fed.1.state = .failure)
  events : bytewise r.1.events = bytewise (c.events ++ fed.2.1)

lemma onBuffers_halted (h : c.canceled = true ∨ 0 < c.pauses) (buffers : List (List Byte)) :
    onBuffers platform buffers c = some (c, buffers) := by
  cases buffers with
  | nil => rfl
  | cons buffer buffers => exact if_pos h

lemma Settled.idle (h : Settled { c with pauses := 1 } c' fed) (hlive : ¬fed.1.halted) (hrun : fed.1.Running) :
    c'.Idle ∧ { c'.toCore with parserCalled := true } = fed.1 := by
  have hcore : c'.toCore = { fed.1 with parserCalled := false } := by rw [h.core, if_neg fun hfai => hlive (.inl hfai)]
  have hcal : { c'.toCore with parserCalled := true } = fed.1 := by rw [hcore, ← hrun.parserCalled]
  refine ⟨⟨by rw [hcore], by rw [hcal]; exact hrun, by rw [hcore]; exact hlive, h.released hlive, ?_, ?_⟩, hcal⟩
  · rw [h.pauses, if_neg hlive]
    rfl
  · rw [h.canceled, decide_eq_false fun hfai => hlive (.inl hfai)]

lemma onBuffers_feed (h : c.Idle) (buffers : List (List Byte)) : ∃ r, onBuffers platform buffers c = some r ∧
    Outcome c r (feed platform buffers.flatten { c.toCore with parserCalled := true }) := by
  induction buffers generalizing c with
  | nil =>
    refine ⟨(c, []), rfl, ?_, ?_, fun _ => ⟨h.unparsed, rfl⟩, ?_, ?_, ?_⟩
    · rw [flatten_nil, feed, if_neg h.running.live.2, ← h.parserCalled]
    · rw [h.unparsed]
      rfl
    · rw [h.pauses]
      exact (if_neg h.live).symm
    · rw [h.canceled]
      exact (decide_eq_false h.running.live.2).symm
    · rw [flatten_nil, feed, append_nil]
  | cons buffer buffers ih =>
    obtain ⟨c1, hc1, hset⟩ := onData_feed platform h buffer
    rw [flatten_cons, feed_append, onBuffers, if_neg (by simp [h.canceled, h.pauses]), hc1]
    dsimp only
    generalize hfed : feed platform buffer { c.toCore with parserCalled := true } = fed at hset ⊢
    by_cases hhalted : fed.1.halted
    · have hpaus : c1.pauses = 1 := by rw [hset.pauses, if_pos hhalted]
      rw [feed_halted platform hhalted, onBuffers_halted platform (.inr (by rw [hpaus]; exact Nat.one_pos))]
      refine ⟨_, rfl, hset.core, ?_, fun hlive => absurd hhalted hlive, ?_, hset.canceled, ?_⟩
      · rw [← hset.unparsed]
      · rw [hpaus]
        exact (if_pos hhalted).symm
      · rw [append_nil]
        exact hset.events
    · have hrun : fed.1.Running := by
        rw [← hfed] at hhalted ⊢
        exact feed_running platform h.running hhalted
      have hrest : fed.2.2 = [] := by
        rw [← hfed] at hhalted ⊢
        exact feed_rest platform hhalted
      obtain ⟨hidle, hcore⟩ := hset.idle hhalted hrun
      obtain ⟨r, hr, houtcome⟩ := ih hidle
      rw [hcore] at houtcome
      rw [hrest, nil_append]
      refine ⟨r, hr, houtcome.core, houtcome.unparsed, houtcome.released, houtcome.pauses, houtcome.canceled, ?_⟩
      rw [houtcome.events, bytewise_append, hset.events]
      simp only [bytewise_append, append_assoc]

def listening (requestParser connectMethod isHead : Bool) : HttpParser U :=
  { requestParser, connectMethod, noMessageBody := isHead }

lemma listening_idle (requestParser connectMethod isHead : Bool) :
    (listening requestParser connectMethod isHead : HttpParser U).Idle := by
  refine ⟨rfl, ?_, ?_, rfl, rfl, rfl⟩
  · simp +decide [listening, running_iff]
  · simp +decide [listening, halted]

/-- The same messages with the same heads, bodies, completions and errors, and the same state.  What was not
parsed is a part of the buffer together with the buffers that were not given; before a failure or an upgrade
there is nothing of either. -/
structure SameOutcome (r r' : HttpParser U × List (List Byte)) : Prop where
  events : bytewise r.1.events = bytewise r'.1.events
  core : r.1.toCore = r'.1.toCore
  pauses : r.1.pauses = r'.1.pauses
  canceled : r.1.canceled = r'.1.canceled
  unparsed : r.1.unparsed.getD [] ++ r.2.flatten = r'.1.unparsed.getD [] ++ r'.2.flatten
  released : ¬r.1.toCore.halted → r.1.unparsed = none ∧ r'.1.unparsed = none ∧ r.2 = [] ∧ r'.2 = []

theorem onBuffers_independent (platform : Platform U) (requestParser connectMethod isHead : Bool)
    {buffers buffers' : List (List Byte)} (h : buffers.flatten = buffers'.flatten) :
    ∃ r r', onBuffers platform buffers (listening requestParser connectMethod isHead) = some r ∧
      onBuffers platform buffers' (listening requestParser connectMethod isHead) = some r' ∧ SameOutcome r r' := by
  have hidle := listening_idle (U := U) requestParser connectMethod isHead
  obtain ⟨r, hr, houtcome⟩ := onBuffers_feed platform hidle buffers
  obtain ⟨r', hr', houtcome'⟩ := onBuffers_feed platform hidle buffers'
  rw [← h] at houtcome'
  refine ⟨r, r', hr, hr', ?_, ?_, ?_, ?_, ?_, fun hlive => ?_⟩
  · rw [houtcome.events, houtcome'.events]
  · rw [houtcome.core, houtcome'.core]
  · rw [houtcome.pauses, houtcome'.pauses]
  · rw [houtcome.canceled, houtcome'.canceled]
  · rw [houtcome.unparsed, houtcome'.unparsed]
  · have hfed : ¬(feed platform buffers.flatten
        { (listening requestParser connectMethod isHead : HttpParser U).toCore with parserCalled := true }).1.halted := by
      intro hhalted
      apply hlive
      rw [houtcome.core]
      split_ifs
      · exact hhalted
      · exact hhalted
    exact ⟨(houtcome.released hfed).1, (houtcome'.released hfed).1, (houtcome.released hfed).2,
      (houtcome'.released hfed).2⟩

theorem onBuffers_independent_post : ∃ r r', onBuffers (⟨some, fun _ => none⟩ : Platform Text)
      [ascii "POST / HTTP/1.1\r\nContent-Length: 2\r\n\r\nok"] (listening true false false) = some r ∧
    onBuffers (⟨some, fun _ => none⟩ : Platform Text)
      [ascii "POST / HTTP/1.1\r\nContent-", ascii "Length: 2\r\n\r\no", ascii "k"] (listening true false false) =
        some r' ∧ SameOutcome r r' :=
  onBuffers_independent _ true false false (by decide)

end HttpParser
end DartSdk.Http
