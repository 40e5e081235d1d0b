import DartSdk.WebSocket.Frames

namespace DartSdk.WebSocket
open List Transformer StateExcept
variable {D T : Type}

structure Control where
  pong : Bool
  key : Key
  payload : List Byte
  short : payload.length ≤ 125

structure Fragment where
  key : Key
  payload : List Byte
  fits : payload.length < 2 ^ 63

structure Message where
  text : Bool
  compressed : Bool
  first : Fragment
  rest : List (List Control × Fragment)

inductive Item
  | control (x : Control)
  | message (m : Message)

section

def Control.frame (x : Control) : Frame where
  fin := true
  rsv1 := false
  opcode := if x.pong then .pong else .ping
  key := x.key
  payload := x.payload
  fits := lt_of_le_of_lt x.short (by decide)
  control := fun _ => ⟨rfl, x.short⟩

def Fragment.frame (f : Fragment) (fin rsv1 : Bool) (opcode : Opcode) (h : opcode.isControl = false) : Frame where
  fin := fin
  rsv1 := rsv1
  opcode := opcode
  key := f.key
  payload := f.payload
  fits := f.fits
  control := fun hc => absurd (h.symm.trans hc) Bool.false_ne_true

def continuations : List (List Control × Fragment) → List Frame
  | [] => []
  | (controls, f) :: rest => controls.map Control.frame ++
      f.frame rest.isEmpty false .continuation rfl :: continuations rest

namespace Message

def opcode (m : Message) : Opcode := if m.text then .text else .binary

lemma opcode_data (m : Message) : m.opcode.isControl = false := by
  rw [opcode]
  cases m.text <;> rfl

def frames (m : Message) : List Frame :=
  m.first.frame m.rest.isEmpty m.compressed m.opcode m.opcode_data :: continuations m.rest

def bytes (m : Message) : List Byte := m.first.payload ++ m.rest.flatMap fun r => r.2.payload

def controls (m : Message) : List Control := m.rest.flatMap Prod.fst

end Message

def Item.frames : Item → List Frame
  | control x => [x.frame]
  | message m => m.frames

end

section

def Control.event (x : Control) (payload : Option (List Byte)) : Event T :=
  if x.pong then .pong payload else .ping payload

def Control.expected (x : Control) : Event T :=
  x.event (if x.payload = [] then none else some x.payload)

variable (c : Config D T)

def inflate (decoder : Option D) (compressed : Bool) (bytes : List Byte) :
    Except Error (Option D × List Byte × Bool) :=
  match c.deflate with
  | none => .ok (decoder, bytes, false)
  | some deflate =>
    if compressed then (deflate.processIncomingMessage decoder bytes).map fun r => (r.1, r.2, true)
    else .ok (decoder, bytes, false)

def messageEvent (text : Bool) (bytes : List Byte) (inflated : Bool) : Except Error (Event T) :=
  if text then
    match c.decode bytes with
    | none => .error .formatException
    | some string => .ok (.text string inflated)
  else .ok (.binary bytes inflated)

def Message.expected (decoder : Option D) (m : Message) : Except Error (Option D × Event T) :=
  (inflate c decoder m.compressed m.bytes).bind fun r =>
    (messageEvent c m.text r.2.1 r.2.2).map fun e => (r.1, e)

def expected : Option D → List Item → Except Error (List (Event T))
  | _, [] => .ok []
  | decoder, .control x :: items => (expected decoder items).map fun events => x.expected :: events
  | decoder, .message m :: items => do
    let (decoder, event) ← m.expected c decoder
    let events ← expected decoder items
    .ok (m.controls.map Control.expected ++ event :: events)

def Quiet : List Byte → List (List Control × Fragment) → Prop
  | _, [] => True
  | buffered, (controls, f) :: rest =>
    (buffered = [] ∨ ∀ x ∈ controls, x.payload = []) ∧ Quiet (buffered ++ f.payload) rest

def Undisturbed (m : Message) : Prop :=
  Quiet m.first.payload m.rest ∧ (c.deflate.isSome = true → m.compressed = true → ∀ r ∈ m.rest, r.1 = [])

end

namespace Assembly
variable (c : Config D T)

def frames (a : Assembly D T) (fs : List Frame) : Except Error (Assembly D T) :=
  fs.foldlM (fun a f => a.frame c f) a

variable {c} {a a' : Assembly D T}

lemma frames_cons (f : Frame) (fs : List Frame) :
    a.frames c (f :: fs) = (a.frame c f).bind fun a => a.frames c fs := rfl

lemma frames_append (fs fs' : List Frame) :
    a.frames c (fs ++ fs') = (a.frames c fs).bind fun a => a.frames c fs' := foldlM_append

section

def seen (buffered : List Byte) : List Control → List (Event T) × List Byte
  | [] => ([], buffered)
  | x :: controls =>
    if x.payload = [] then
      let r := seen buffered controls
      (x.event none :: r.1, r.2)
    else
      let r := seen [] controls
      (x.event (some (buffered ++ x.payload)) :: r.1, r.2)

def seenRest (buffered : List Byte) : List (List Control × Fragment) → List (Event T) × List Byte
  | [] => ([], buffered)
  | (controls, f) :: rest =>
    let r := seen buffered controls
    let q := seenRest (r.2 ++ f.payload) rest
    (r.1 ++ q.1, q.2)

lemma frame_control (x : Control) : a.frame c x.frame = .ok (if x.payload = [] then
    { a with compressed := false, events := a.events ++ [x.event none] } else { a with
      compressed := false, payload := [], events := a.events ++ [x.event (some (a.payload ++ x.payload))] }) := by
  obtain ⟨pong, key, payload, short⟩ := x
  cases pong <;> cases payload <;> rfl

lemma frames_controls (controls : List Control) : a.frames c (controls.map Control.frame) = .ok { a with
    compressed := a.compressed && controls.isEmpty
    payload := (seen (T := T) a.payload controls).2
    events := a.events ++ (seen a.payload controls).1 } := by
  induction controls generalizing a with
  | nil =>
    simp only [seen, isEmpty_nil, Bool.and_true, append_nil]
    rfl
  | cons x controls ih =>
    rw [map_cons, frames_cons, frame_control, seen]
    change frames c _ _ = _
    rw [ih]
    split
    · simp
    · simp

def collected (a : Assembly D T) (rest : List (List Control × Fragment)) : Assembly D T :=
  { a with
    compressed := a.compressed && rest.all fun r => r.1.isEmpty
    payload := (seenRest (T := T) a.payload rest).2
    events := a.events ++ (seenRest a.payload rest).1 }

lemma frame_continuation (htype : a.currentMessageType ≠ .none) (f : Fragment) (fin : Bool) :
    a.frame c (f.frame fin false .continuation rfl) =
      if fin then { a with payload := a.payload ++ f.payload }.messageEnd c
      else .ok { a with payload := a.payload ++ f.payload } := by
  have hbeg : a.begin (f.frame fin false .continuation rfl) = .ok a := if_neg htype
  rw [frame, hbeg]
  rfl

lemma frames_continuations (rest : List (List Control × Fragment)) (hne : rest ≠ [])
    (htype : a.currentMessageType ≠ .none) : a.frames c (continuations rest) = (a.collected rest).messageEnd c := by
  induction rest generalizing a with
  | nil => exact absurd rfl hne
  | cons r rest ih =>
    rw [continuations, frames_append, frames_controls]
    change frames c _ _ = _
    rw [frames_cons, frame_continuation (by exact htype)]
    by_cases hlast : rest = []
    · subst hlast
      rw [collected, seenRest, seenRest, all_cons, all_nil, Bool.and_true, append_nil]
      cases messageEnd c _ <;> rfl
    · rw [if_neg (by rw [List.isEmpty_iff]; exact hlast)]
      change frames c _ _ = _
      rw [ih hlast (by exact htype), collected, collected, seenRest, all_cons]
      rw [Bool.and_assoc, append_assoc]

lemma frames_message (m : Message) (htype : a.currentMessageType = .none) (hpay : a.payload = []) :
    a.frames c m.frames = ({ a with
      compressed := m.compressed, currentMessageType := if m.text then .text else .binary,
      payload := m.first.payload }.collected m.rest).messageEnd c := by
  have hbeg : a.begin (m.first.frame m.rest.isEmpty m.compressed m.opcode m.opcode_data) = .ok { a with
        compressed := m.compressed, currentMessageType := if m.text then .text else .binary } := by
    obtain ⟨text, compressed, first, rest⟩ := m
    cases text <;> exact if_neg (not_not_intro htype)
  have hfin : ∀ b : Assembly D T, b.finish c (m.first.frame m.rest.isEmpty m.compressed m.opcode m.opcode_data) =
        if m.rest.isEmpty then { b with payload := b.payload ++ m.first.payload }.messageEnd c
        else .ok { b with payload := b.payload ++ m.first.payload } := by
    intro b
    obtain ⟨text, compressed, first, rest⟩ := m
    cases text <;> rfl
  rw [Message.frames, frames_cons, frame, hbeg]
  change (finish c _ _).bind _ = _
  rw [hfin]
  rw [hpay, nil_append]
  by_cases hlast : m.rest = []
  · rw [hlast, collected, seenRest, all_nil, Bool.and_true, append_nil]
    cases messageEnd c _ <;> rfl
  · rw [if_neg (by rw [List.isEmpty_iff]; exact hlast)]
    change frames c _ _ = _
    rw [frames_continuations m.rest hlast (by cases m.text <;> simp)]

lemma event_inj {x : Control} {p q : Option (List Byte)} (h : (x.event p : Event T) = x.event q) : p = q := by
  rw [Control.event, Control.event] at h
  split at h <;> cases h <;> rfl

lemma seen_eq_iff (buffered : List Byte) (controls : List Control) :
    ((seen buffered controls).1 : List (Event T)) = controls.map Control.expected ↔
    buffered = [] ∨ ∀ x ∈ controls, x.payload = [] := by
  induction controls generalizing buffered with
  | nil => simp [seen]
  | cons x controls ih =>
    rw [seen, map_cons, Control.expected, forall_mem_cons]
    by_cases hx : x.payload = []
    · rw [if_pos hx, if_pos hx]
      rw [List.cons.injEq, ih]
      tauto
    · rw [if_neg hx, if_neg hx]
      rw [List.cons.injEq, ih]
      constructor
      · rintro ⟨heq, -⟩
        have := event_inj heq
        rw [Option.some.injEq, append_left_eq_self] at this
        exact .inl this
      · rintro (rfl | ⟨h, -⟩)
        · exact ⟨rfl, .inl rfl⟩
        · exact absurd h hx

variable {buffered : List Byte}

lemma seen_buffer {controls : List Control}
    (h : buffered = [] ∨ ∀ x ∈ controls, x.payload = []) : (seen (T := T) buffered controls).2 = buffered := by
  induction controls generalizing buffered with
  | nil => rfl
  | cons x controls ih =>
    rw [seen]
    by_cases hx : x.payload = []
    · rw [if_pos hx]
      exact ih (by tauto)
    · rw [if_neg hx]
      have hb : buffered = [] := by tauto
      rw [hb]
      exact ih (.inl rfl)

lemma seen_length (buffered : List Byte) (controls : List Control) :
    (seen (T := T) buffered controls).1.length = controls.length := by
  induction controls generalizing buffered with
  | nil => rfl
  | cons x controls ih =>
    rw [seen]
    split <;> rw [length_cons, ih, length_cons]

lemma seenRest_length (buffered : List Byte) (rest : List (List Control × Fragment)) :
    (seenRest (T := T) buffered rest).1.length = (rest.flatMap Prod.fst).length := by
  induction rest generalizing buffered with
  | nil => rfl
  | cons r rest ih => rw [seenRest, length_append, seen_length, ih, flatMap_cons, length_append]

lemma seenRest_eq_iff (buffered : List Byte) (rest : List (List Control × Fragment)) :
    ((seenRest buffered rest).1 : List (Event T)) = (rest.flatMap Prod.fst).map Control.expected ↔
    Quiet buffered rest := by
  induction rest generalizing buffered with
  | nil => simp [seenRest, Quiet]
  | cons r rest ih =>
    obtain ⟨controls, f⟩ := r
    rw [seenRest, flatMap_cons, map_append]
    constructor
    · intro h
      obtain ⟨h1, h2⟩ := append_inj h (by rw [seen_length, length_map])
      have hqui := (seen_eq_iff buffered controls).1 h1
      rw [seen_buffer hqui] at h2
      exact ⟨hqui, (ih _).1 h2⟩
    · rintro ⟨h1, h2⟩
      rw [(seen_eq_iff buffered controls).2 h1, seen_buffer h1, (ih _).2 h2]

lemma seenRest_buffer {rest : List (List Control × Fragment)} (h : Quiet buffered rest) :
    (seenRest (T := T) buffered rest).2 = buffered ++ rest.flatMap fun r => r.2.payload := by
  induction rest generalizing buffered with
  | nil => rw [seenRest, flatMap_nil, append_nil]
  | cons r rest ih =>
    rw [seenRest]
    rw [seen_buffer h.1, ih h.2, flatMap_cons, append_assoc]

end

section Delivery
variable {bytes : List Byte} {text : Bool} {f : Frame} {evs : List (Event T)} {items : List Item}

lemma inflate_flag {decoder : Option D} {compressed : Bool}
    {r : Option D × List Byte × Bool} (h : inflate c decoder compressed bytes = .ok r) :
    r.2.2 = (c.deflate.isSome && compressed) := by
  rw [inflate] at h
  cases hd : c.deflate with
  | none =>
    rw [hd] at h
    cases h
    rfl
  | some deflate =>
    rw [hd] at h
    cases compressed with
    | false =>
      cases h
      rfl
    | true =>
      obtain ⟨q, hp, h⟩ := except_bind_ok h
      cases h
      rfl

lemma messageEvent_flag {inflated inflated' : Bool} {bytes' : List Byte} {e : Event T}
    (h : messageEvent c text bytes inflated = .ok e)
    (h' : messageEvent c text bytes' inflated' = .ok e) : inflated = inflated' := by
  rw [messageEvent] at h h'
  cases text with
  | false =>
    cases h
    cases h'
    rfl
  | true =>
    rw [if_pos rfl] at h h'
    split at h
    · cases h
    · split at h'
      · cases h'
      · cases h
        cases h'
        rfl

lemma takeMessage_eq : a.takeMessage c = (inflate c a.decoder a.compressed a.payload).map fun r =>
    ({ a with payload := [], decoder := r.1 }, r.2) := by
  rw [takeMessage, inflate]
  cases c.deflate with
  | none => rfl
  | some deflate =>
    dsimp only
    cases a.compressed with
    | false => rfl
    | true => cases deflate.processIncomingMessage a.decoder a.payload <;> rfl

lemma sendMessage_eq (htype : a.currentMessageType = if text then .text else .binary)
    (bytes : List Byte) (inflated : Bool) : a.sendMessage c bytes inflated =
      (messageEvent c text bytes inflated).map fun e => { a with events := a.events ++ [e] } := by
  rw [sendMessage, htype, messageEvent]
  cases text with
  | false => rfl
  | true => cases c.decode bytes <;> rfl

lemma messageEnd_eq (text : Bool) (htype : a.currentMessageType = if text then .text else .binary) :
    a.messageEnd c = (inflate c a.decoder a.compressed a.payload).bind fun r =>
      (messageEvent c text r.2.1 r.2.2).bind fun e => .ok { a with
        currentMessageType := .none, payload := [], decoder := r.1, events := a.events ++ [e] } := by
  rw [messageEnd, takeMessage_eq]
  cases inflate c a.decoder a.compressed a.payload with
  | error e => rfl
  | ok r =>
    change (sendMessage c _ _ _).bind _ = (messageEvent c text r.2.1 r.2.2).bind _
    rw [sendMessage_eq (by exact htype)]
    cases messageEvent c text r.2.1 r.2.2 <;> rfl

structure Between (decoder : Option D) (events : List (Event T)) (a : Assembly D T) : Prop where
  type : a.currentMessageType = .none
  payload : a.payload = []
  decoder_eq : a.decoder = decoder
  events_eq : a.events = events

variable {decoder decoder' : Option D} {events : List (Event T)} {m : Message} {e : Event T}

lemma frames_message_eq (h : Between decoder events a) (m : Message) : a.frames c m.frames =
    (inflate c decoder (m.compressed && m.rest.all fun r => r.1.isEmpty)
        (seenRest (T := T) m.first.payload m.rest).2).bind fun r =>
      (messageEvent c m.text r.2.1 r.2.2).bind fun e => .ok
        { compressed := m.compressed && m.rest.all fun r => r.1.isEmpty
          currentMessageType := .none
          payload := []
          decoder := r.1
          events := events ++ (seenRest m.first.payload m.rest).1 ++ [e] } := by
  rw [frames_message m h.type h.payload, messageEnd_eq m.text (by rfl), ← h.decoder_eq, ← h.events_eq]
  rfl

lemma all_isEmpty_iff (rest : List (List Control × Fragment)) :
    (rest.all fun r => r.1.isEmpty) = true ↔ ∀ r ∈ rest, r.1 = [] := by
  simp [List.isEmpty_iff]

lemma inflate_undisturbed (h : Undisturbed c m) (bytes : List Byte) :
    inflate c decoder (m.compressed && m.rest.all fun r => r.1.isEmpty) bytes
      = inflate c decoder m.compressed bytes := by
  cases hd : c.deflate with
  | none => rw [inflate, inflate, hd]
  | some deflate =>
    cases hc : m.compressed with
    | false => rfl
    | true =>
      have hall := (all_isEmpty_iff m.rest).2 (h.2 (by rw [hd]; rfl) hc)
      rw [hall]
      rfl

lemma message_arrives (h : Between decoder events a) (hm : Undisturbed c m)
    (he : m.expected c decoder = .ok (decoder', e)) : ∃ a', a.frames c m.frames = .ok a' ∧
    Between decoder' (events ++ m.controls.map Control.expected ++ [e]) a' := by
  rw [frames_message_eq h, inflate_undisturbed hm, seenRest_buffer hm.1, (seenRest_eq_iff _ _).2 hm.1]
  rw [Message.expected, Message.bytes] at he
  obtain ⟨r, hi, he⟩ := except_bind_ok he
  obtain ⟨e', hev, he⟩ := except_map_ok he
  cases he
  rw [hi]
  change ∃ a', (messageEvent c m.text r.2.1 r.2.2).bind _ = .ok a' ∧ _
  rw [hev]
  exact ⟨_, rfl, rfl, rfl, rfl, rfl⟩

lemma undisturbed_of_arrives (h : Between decoder events a)
    (he : m.expected c decoder = .ok (decoder', e)) (ha : a.frames c m.frames = .ok a')
    (hevents : a'.events = events ++ m.controls.map Control.expected ++ [e]) : Undisturbed c m := by
  rw [frames_message_eq h] at ha
  obtain ⟨r, hi, he⟩ := except_bind_ok he
  obtain ⟨r', hi', ha⟩ := except_bind_ok ha
  obtain ⟨e1, hev, he⟩ := except_map_ok he
  obtain ⟨e2, hev', ha⟩ := except_bind_ok ha
  cases he
  cases ha
  rw [append_assoc, append_assoc, append_cancel_left_eq] at hevents
  obtain ⟨hseen, hlast⟩ := append_inj hevents (by rw [seenRest_length, length_map, Message.controls])
  rw [singleton_inj] at hlast
  subst hlast
  refine ⟨(seenRest_eq_iff _ _).1 hseen, fun hd hc => ?_⟩
  have hflag := messageEvent_flag hev' hev
  rw [inflate_flag hi, inflate_flag hi', hd, hc] at hflag
  exact (all_isEmpty_iff m.rest).1 hflag

lemma messageEnd_events (h : a.messageEnd c = .ok a') : a.events <+: a'.events := by
  rw [messageEnd, takeMessage_eq] at h
  obtain ⟨_, hi, h⟩ := except_bind_ok h
  obtain ⟨r, -, rfl⟩ := except_map_ok hi
  change (sendMessage c _ r.2.1 r.2.2).bind _ = _ at h
  rw [sendMessage] at h
  cases htype : a.currentMessageType with
  | none =>
    rw [htype] at h
    cases h
    exact prefix_rfl
  | binary =>
    rw [htype] at h
    cases h
    exact prefix_append _ _
  | text =>
    rw [htype] at h
    cases hd : c.decode r.2.1 with
    | none =>
      rw [hd] at h
      cases h
    | some string =>
      rw [hd] at h
      cases h
      exact prefix_append _ _

lemma finish_events (h : a.finish c f = .ok a') : a.events <+: a'.events := by
  have hcon : ∀ event : Option (List Byte) → Event T, a.events <+: (a.sendControl f event).events := by
    intro event
    rw [sendControl]
    split
    · exact prefix_append _ _
    · exact prefix_append _ _
  have hdata : (if f.fin then { a with payload := a.payload ++ f.payload }.messageEnd c
      else .ok { a with payload := a.payload ++ f.payload }) = .ok a' → a.events <+: a'.events := by
    intro h
    split at h
    · exact messageEnd_events (a := { a with payload := a.payload ++ f.payload }) h
    · cases h
      exact prefix_rfl
  rw [finish] at h
  split at h
  · cases h
    exact hcon _
  · cases h
    exact hcon _
  · exact hdata h

lemma begin_events (h : a.begin f = .ok a') : a'.events = a.events := by
  rw [begin] at h
  split at h
  · split_ifs at h
    cases h
    rfl
  · split_ifs at h
    cases h
    rfl
  · split_ifs at h
    cases h
    rfl
  · cases h
    rfl
  · cases h
    rfl

lemma frame_events (h : a.frame c f = .ok a') : a.events <+: a'.events := by
  obtain ⟨b, hb, h⟩ := except_bind_ok h
  rw [← begin_events hb]
  exact finish_events h

lemma message_length (h : Between decoder events a) (ha : a.frames c m.frames = .ok a') :
    a'.events.length = events.length + m.controls.length + 1 := by
  rw [frames_message_eq h] at ha
  obtain ⟨r, hi, ha⟩ := except_bind_ok ha
  obtain ⟨e, hev, ha⟩ := except_bind_ok ha
  cases ha
  rw [length_append, length_append, seenRest_length]
  rfl

lemma frames_events {fs : List Frame} (h : a.frames c fs = .ok a') : a.events <+: a'.events := by
  induction fs generalizing a with
  | nil =>
    cases h
    exact prefix_rfl
  | cons f fs ih =>
    obtain ⟨b, hf, h⟩ := except_bind_ok h
    exact (frame_events hf).trans (ih h)

lemma control_arrives (h : Between decoder events a) (x : Control) : ∃ a',
    a.frames c [x.frame] = .ok a' ∧ Between decoder (events ++ [x.expected]) a' := by
  rw [frames_cons, frame_control, Control.expected]
  refine ⟨_, rfl, ?_⟩
  by_cases hx : x.payload = []
  · rw [if_pos hx, if_pos hx]
    exact ⟨h.type, h.payload, h.decoder_eq, by rw [h.events_eq]⟩
  · rw [if_neg hx, if_neg hx]
    exact ⟨h.type, rfl, h.decoder_eq, by rw [h.events_eq, h.payload, nil_append]⟩

lemma expected_control {x : Control} (h : expected c decoder (.control x :: items) = .ok evs) :
    ∃ evs', expected c decoder items = .ok evs' ∧ evs = x.expected :: evs' := by
  obtain ⟨evs', hrest, h⟩ := except_map_ok h
  exact ⟨evs', hrest, h.symm⟩

lemma expected_message (h : expected c decoder (.message m :: items) = .ok evs) :
    ∃ r evs', m.expected c decoder = .ok r ∧ expected c r.1 items = .ok evs' ∧
    evs = m.controls.map Control.expected ++ [r.2] ++ evs' := by
  obtain ⟨r, hm, h⟩ := except_bind_ok h
  obtain ⟨evs', hrest, h⟩ := except_bind_ok h
  cases h
  refine ⟨r, evs', hm, hrest, ?_⟩
  rw [append_assoc, singleton_append]

-- The events of a message are as many as expected, so a later prefix of the expected events has them all.
lemma message_events {b : Assembly D T} {fs : List Frame} {evs : List (Event T)} (h : Between decoder events a)
    (hb : a.frames c m.frames = .ok b) (ha : b.frames c fs = .ok a')
    (hevents : a'.events = events ++ m.controls.map Control.expected ++ [e] ++ evs) :
    b.events = events ++ m.controls.map Control.expected ++ [e] := by
  have hpre := frames_events ha
  rw [hevents] at hpre
  have hlen : b.events.length = (events ++ m.controls.map Control.expected ++ [e]).length := by
    rw [message_length h hb, length_append, length_append, length_map]
    rfl
  exact (prefix_of_prefix_length_le hpre (prefix_append _ _) hlen.le).eq_of_length hlen

lemma items_arrive_iff (items : List Item) (h : Between decoder events a) (he : expected c decoder items = .ok evs) :
    (∃ a', a.frames c (items.flatMap Item.frames) = .ok a' ∧ a'.events = events ++ evs) ↔
    ∀ m, .message m ∈ items → Undisturbed c m := by
  induction items generalizing a decoder events evs with
  | nil =>
    cases he
    refine ⟨fun _ m hm => (not_mem_nil hm).elim, fun _ => ⟨a, rfl, ?_⟩⟩
    rw [h.events_eq, append_nil]
  | cons item items ih =>
    rw [flatMap_cons, frames_append]
    cases item with
    | control x =>
      obtain ⟨evs', hrest, rfl⟩ := expected_control he
      obtain ⟨b, hb, hbetween⟩ := control_arrives h x
      have hspl : events ++ x.expected :: evs' = events ++ [x.expected] ++ evs' := by simp
      rw [Item.frames, hb]
      change (∃ a', b.frames c _ = .ok a' ∧ a'.events = events ++ x.expected :: evs') ↔ _
      rw [hspl, ih hbetween hrest]
      simp only [mem_cons, reduceCtorEq, false_or]
    | message m =>
      obtain ⟨r, evs', hm, hrest, rfl⟩ := expected_message he
      rw [Item.frames, ← append_assoc, ← append_assoc]
      constructor
      · rintro ⟨a', ha', hevents⟩
        obtain ⟨b, hb, ha'⟩ := except_bind_ok ha'
        have hu := undisturbed_of_arrives h hm hb (message_events h hb ha' hevents)
        obtain ⟨b', hb', hbetween⟩ := message_arrives h hu hm
        rw [hb] at hb'
        cases hb'
        have hrest' := (ih hbetween hrest).1 ⟨a', ha', hevents⟩
        intro m' hm'
        rcases mem_cons.1 hm' with heq | hmem
        · cases heq
          exact hu
        · exact hrest' m' hmem
      · intro hall
        obtain ⟨b, hb, hbetween⟩ := message_arrives h (hall m mem_cons_self) hm
        rw [hb]
        change ∃ a', b.frames c _ = .ok a' ∧ _
        rw [ih hbetween hrest]
        exact fun m' hm' => hall m' (mem_cons_of_mem _ hm')

end Delivery
end Assembly

section
variable {c : Config D T} {frames : List Frame} {chunks : List Chunk}
  (hstream : chunks.flatMap Chunk.bytes = frames.flatMap (Frame.bytes c.serverSide))
  (haligned : c.serverSide = true → ∀ chunk ∈ chunks, chunk.Viewable)

include hstream haligned

lemma chunks_reach : Transformer.Reaches ((addChunks c {} chunks).map norm) (Assembly.frames c {} frames) := by
  have hrea : Transformer.Reaches (feed c {} (chunks.flatMap Chunk.bytes)) (Assembly.frames c {} frames) := by
    rw [hstream]
    exact reaches_frames frames ⟨rfl, rfl, rfl, rfl⟩
  have hchu := (addChunks_eq (t := {}) chunks (ready_of_state nofun nofun) haligned).1 ?_
  · rw [hchu]
    exact hrea
  · intro s hs
    change feed c {} _ = _ at hs
    rw [hs] at hrea
    cases hf : Assembly.frames c {} frames with
    | error e =>
      rw [hf] at hrea
      cases hrea
    | ok a =>
      rw [hf] at hrea
      obtain ⟨t, ht, hidle, -⟩ := hrea
      cases ht
      rw [isOpen, hidle.state]
      rfl

lemma chunks_iff_frames (events : List (Event T)) : (∃ t, addChunks c {} chunks = .ok t ∧ t.events = events) ↔
    ∃ a, Assembly.frames c {} frames = .ok a ∧ a.events = events := by
  have hrea := chunks_reach hstream haligned
  cases hf : Assembly.frames c {} frames with
  | error e =>
    rw [hf] at hrea
    refine ⟨?_, fun ⟨_, ha, _⟩ => nomatch ha⟩
    rintro ⟨t, ht, -⟩
    rw [ht] at hrea
    cases hrea
  | ok a =>
    rw [hf] at hrea
    obtain ⟨s, hs, -, rfl⟩ := hrea
    cases ht : addChunks c {} chunks with
    | error e =>
      rw [ht] at hs
      cases hs
    | ok t =>
      rw [ht] at hs
      cases hs
      constructor
      · rintro ⟨t', ht', hevents⟩
        cases ht'
        exact ⟨_, rfl, hevents⟩
      · rintro ⟨a, ha, hevents⟩
        cases ha
        exact ⟨t, rfl, hevents⟩

end

theorem transformer_delivers_iff (c : Config D T) (items : List Item) (chunks : List Chunk)
    (hstream : chunks.flatMap Chunk.bytes = (items.flatMap Item.frames).flatMap (Frame.bytes c.serverSide))
    (haligned : c.serverSide = true → ∀ chunk ∈ chunks, chunk.Viewable) :
    (∃ t events, addChunks c {} chunks = .ok t ∧ expected c none items = .ok events ∧ t.events = events) ↔
      (∃ events, expected c none items = .ok events) ∧ ∀ m, .message m ∈ items → Undisturbed c m := by
  have hbetween : Assembly.Between none [] ({} : Assembly D T) := ⟨rfl, rfl, rfl, rfl⟩
  constructor
  · rintro ⟨t, events, ht, he, hevents⟩
    have harrive := (chunks_iff_frames hstream haligned events).1 ⟨t, ht, hevents⟩
    exact ⟨⟨events, he⟩, (Assembly.items_arrive_iff items hbetween he).1 harrive⟩
  · rintro ⟨⟨events, he⟩, hm⟩
    have harrive := (Assembly.items_arrive_iff items hbetween he).2 hm
    obtain ⟨t, ht, hevents⟩ := (chunks_iff_frames hstream haligned events).2 harrive
    exact ⟨t, events, ht, he, hevents⟩

def plainConfig : Config Unit (List Byte) := ⟨false, none, some⟩

def whole : Message where
  text := true
  compressed := true
  first := ⟨⟨0, 0, 0, 0⟩, [104], by decide⟩
  rest := [([⟨false, ⟨0, 0, 0, 0⟩, [], by decide⟩], ⟨⟨0, 0, 0, 0⟩, [105], by decide⟩)]

theorem transformer_delivers_whole : ∃ t events, addChunks plainConfig {}
      [⟨0, [0x41, 0x01]⟩, ⟨3, [104, 0x89, 0x00, 0x80]⟩, ⟨0, [0x01, 105]⟩] = .ok t ∧
    expected plainConfig none [.message whole] = .ok events ∧ t.events = events :=
  (transformer_delivers_iff plainConfig [.message whole] _ (by decide) nofun).2 ⟨⟨_, rfl⟩, by
      intro m hm
      cases mem_singleton.1 hm
      exact ⟨⟨.inr (by decide), trivial⟩, nofun⟩⟩

def disturbed : Message where
  text := false
  compressed := false
  first := ⟨⟨0, 0, 0, 0⟩, [1], by decide⟩
  rest := [([⟨false, ⟨0, 0, 0, 0⟩, [7], by decide⟩], ⟨⟨0, 0, 0, 0⟩, [2], by decide⟩)]

theorem transformer_mixes : (addChunks plainConfig {} [⟨0, disturbed.frames.flatMap (Frame.bytes false)⟩]).map
      (fun t => t.events) = .ok [.ping (some [1, 7]), .binary [2] false] ∧
    expected plainConfig none [.message disturbed] = .ok [.ping (some [7]), .binary [1, 2] false] :=
  ⟨rfl, rfl⟩

end DartSdk.WebSocket
