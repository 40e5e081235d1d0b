import DartSdk.Convert.Utf8RoundTrip
import DartSdk.WebSocket.Messages

namespace DartSdk.WebSocket
open DartSdk.Convert Transformer List UInt8 Utf8Decoder

section

inductive Outgoing
  | text (string : List CodeUnit)
  | binary (bytes : List Byte)
  | ping (payload : Option (List Byte))
  | pong (payload : Option (List Byte))

def keyWord (maskBytes : List Byte) : BitVec 32 :=
  [3, 2, 1, 0].foldl (fun mask i => mask <<< 8 ||| (maskBytes.getD i 0).toBitVec.setWidth 32) 0

def maskData (maskBytes list : List Byte) : List Byte :=
  let blockCount := list.length / 16
  let list := if 0 < blockCount then onSlice list 0 (blockCount * 16) (xorLanes (keyWord maskBytes))
    else list
  onSlice list (blockCount * 16) (list.length - blockCount * 16) (xorBytes maskBytes (blockCount * 16))

def lengthField (lengthBytes dataLength : ℕ) : List Byte :=
  (List.range lengthBytes).map fun i => ofNat (dataLength >>> ((lengthBytes - 1 - i) * 8) &&& 0xFF)

def createFrame (opcode : ℕ) (data : Option (List Byte)) (serverSide compressed : Bool)
    (maskBytes : List Byte) : List (List Byte) :=
  let mask := !serverSide
  let dataLength := (data.map List.length).getD 0
  let hoc : Byte := 0x80 ||| (if compressed then 0x40 else 0) ||| (ofNat opcode &&& 0xF)
  let size := if 65535 < dataLength then 127 :: lengthField 8 dataLength
    else if 125 < dataLength then 126 :: lengthField 2 dataLength
    else lengthField 1 dataLength
  if mask then
    let header := hoc :: (size.set 0 (size.headD 0 ||| 0x80) ++ maskBytes)
    match data with
    | none => [header]
    | some data => [header, maskData maskBytes data]
  else
    match data with
    | none => [hoc :: size]
    | some data => [hoc :: size, data]

def utf8Encode (string : List CodeUnit) : Option (List Byte) :=
  (Utf8Encoder.convert string).map fun bytes => bytes.map ofNat

def addMessage (serverSide : Bool) (maskBytes : List Byte) : Outgoing → Option (List Byte)
  | .pong payload => some (createFrame 10 payload serverSide false maskBytes).flatten
  | .ping payload => some (createFrame 9 payload serverSide false maskBytes).flatten
  | .text string => do
    let messageData ← utf8Encode string
    some (createFrame 1 (some messageData) serverSide false maskBytes).flatten
  | .binary bytes => some (createFrame 2 (some bytes) serverSide false maskBytes).flatten

def addMessages (serverSide : Bool) : List (Outgoing × Key) → Option (List Byte)
  | [] => some []
  | (message, key) :: messages => do
    let bytes ← addMessage serverSide key.toList message
    let rest ← addMessages serverSide messages
    some (bytes ++ rest)

def utf8Decode (bytes : List Byte) : Option (List CodeUnit) :=
  match convertSingle false new (bytes.map fun b => Fin.ofNat 256 b.toNat) with
  | some (.ok string) => some string
  | _ => none

def receiver (serverSide : Bool) : Config Unit (List CodeUnit) := ⟨!serverSide, none, utf8Decode⟩

end

section

lemma ofNat_and (n : ℕ) : UInt8.ofNat (n &&& 0xFF) = UInt8.ofNat n := by
  have hmod := Nat.and_two_pow_sub_one_eq_mod n 8
  apply UInt8.toNat_inj.1
  rw [UInt8.toNat_ofNat', UInt8.toNat_ofNat', hmod, Nat.mod_mod]

lemma lengthField_succ (k n : ℕ) : lengthField (k + 1) n = ofNat (n / 256 ^ k) :: lengthField k n := by
  have hpow : (256 : ℕ) ^ k = 2 ^ (k * 8) := by rw [Nat.mul_comm, Nat.pow_mul]
  rw [lengthField, range_succ_eq_map, map_cons, map_map, ofNat_and, Nat.add_sub_cancel, Nat.shiftRight_eq_div_pow, hpow]
  congr 1
  apply map_congr_left
  intro i _
  rw [Function.comp_apply, show k - i.succ = k - 1 - i by omega]

lemma lengthField_eq (k n : ℕ) : lengthField k n = bigEndian k n := by
  induction k with
  | zero => rfl
  | succ k ih => rw [lengthField_succ, bigEndian, ih]

lemma keyWord_eq (key : List Byte) : keyWord key = maskWord key 0 := rfl

lemma maskData_eq (key list : List Byte) : maskData key list = xorBytes key 0 list := by
  have hblocks : (if 0 < list.length / 16
      then onSlice list 0 (list.length / 16 * 16) (xorLanes (keyWord key)) else list) =
        onSlice list 0 (list.length / 16 * 16) (xorBytes key 0) := by
    have hslice : ((list.drop 0).take (list.length / 16 * 16)).length = 4 * (list.length / 16 * 4) := by
      rw [length_take, length_drop]
      omega
    split_ifs with hcount
    · rw [onSlice, onSlice, keyWord_eq, xorLanes_eq key 0 _ _ hslice]
    · rw [show list.length / 16 = 0 by omega]
      rfl
  have hlen : (onSlice list 0 (list.length / 16 * 16) (xorBytes key 0)).length = list.length :=
    onSlice_length (by omega)
  have hboth := onSlice_onSlice key list 0 (list.length / 16 * 16) (list.length - list.length / 16 * 16)
    0 (list.length / 16 * 16) (by omega)
    (by rw [Nat.zero_add]) fun _ _ => rfl
  rw [Nat.zero_add] at hboth
  rw [maskData, hblocks, hlen, hboth, show list.length / 16 * 16 + (list.length - list.length / 16 * 16) = list.length
    by omega, onSlice, take_zero, nil_append, drop_zero, take_length, Nat.zero_add,
    drop_length, append_nil]

lemma lengthBytes_eq (n : ℕ) : (if 65535 < n then 127 :: lengthField 8 n
    else if 125 < n then 126 :: lengthField 2 n else lengthField 1 n) = lengthBytes 0 n := by
  rw [lengthBytes]
  by_cases hshort : n < 126
  · rw [if_neg (by omega), if_neg (by omega), if_pos hshort, lengthField_eq, bigEndian, bigEndian,
      Nat.pow_zero, Nat.div_one, UInt8.zero_or]
  · rw [if_neg hshort]
    by_cases hmedium : n < 65536
    · rw [if_neg (by omega), if_pos (by omega), if_pos hmedium, lengthField_eq, UInt8.zero_or]
    · rw [if_pos (by omega), if_neg hmedium, lengthField_eq, UInt8.zero_or]

lemma lengthBytes_masked (n : ℕ) :
    (lengthBytes 0 n).set 0 ((lengthBytes 0 n).headD 0 ||| 0x80) = lengthBytes 0x80 n := by
  rw [lengthBytes, lengthBytes]
  split_ifs
  · rw [headD_cons, set_cons_zero, UInt8.zero_or, UInt8.or_comm]
  · rw [headD_cons, set_cons_zero, UInt8.zero_or, UInt8.or_comm]
  · rw [headD_cons, set_cons_zero, UInt8.zero_or, UInt8.or_comm]

lemma createFrame_eq (f : Frame) (hfin : f.fin = true) (hrsv1 : f.rsv1 = false)
    (data : Option (List Byte)) (hdata : f.payload = data.getD []) (serverSide : Bool) :
    (createFrame f.opcode.toNat data serverSide false f.key.toList).flatten = f.bytes !serverSide := by
  have hhead : (0x80 ||| (if false then 0x40 else 0) ||| (ofNat f.opcode.toNat &&& 0xF) : Byte) = f.head := by
    rw [Frame.head, hfin, hrsv1]
    cases f.opcode <;> rfl
  rw [createFrame.eq_def]
  dsimp only
  rw [lengthBytes_eq, lengthBytes_masked, hhead, Frame.bytes]
  cases serverSide with
  | true =>
    cases data with
    | none | some data =>
      rw [hdata]
      simp
  | false =>
    cases data with
    | none =>
      rw [maskedPayload_eq, hdata]
      simp [xorBytes]
    | some data =>
      rw [maskedPayload_eq, hdata]
      simp [maskData_eq]

end

section Messages

namespace Outgoing

def Sendable : Outgoing → Prop
  | text string => (encoded string).length < 2 ^ 63
  | binary bytes => bytes.length < 2 ^ 63
  | ping payload | pong payload => (payload.getD []).length ≤ 125

def event : Outgoing → Event (List CodeUnit)
  | text string => .text string false
  | binary bytes => .binary bytes false
  | ping payload => .ping payload
  | pong payload => .pong payload

def Survives : Outgoing → Prop
  | text string => string.head? ≠ some 0xFEFF ∧ replaceUnpaired string = string
  | binary _ => True
  | ping payload | pong payload => payload ≠ some []

def received : Outgoing → Event (List CodeUnit)
  | text string => .text (replaceUnpaired (withoutMark string)) false
  | binary bytes => .binary bytes false
  | ping payload => .ping (if payload.getD [] = [] then none else some (payload.getD []))
  | pong payload => .pong (if payload.getD [] = [] then none else some (payload.getD []))

lemma length_replaceUnpaired (string : List CodeUnit) : (replaceUnpaired string).length = string.length := by
  fun_induction replaceUnpaired string with
  | case1 => rfl
  | case2 u hu => rfl
  | case3 u hu v rest hv ih => rw [length_cons, length_cons, ih, length_cons, length_cons]
  | case4 u hu v rest hv ih => rw [length_cons, ih, length_cons, length_cons, length_cons]
  | case5 u rest hu hv ih | case6 u rest hu hv ih => rw [length_cons, ih, length_cons]

lemma payload_eq_iff (payload : Option (List Byte)) :
    (if payload.getD [] = [] then none else some (payload.getD [])) = payload ↔ payload ≠ some [] := by
  rcases payload with _ | _ | ⟨b, bytes⟩
  · simp
  · simp
  · simp

lemma received_eq_iff (m : Outgoing) : m.received = m.event ↔ m.Survives := by
  cases m with
  | text string =>
    rw [received, event, Event.text.injEq, and_iff_left rfl, withoutMark]
    by_cases hhead : string.head? = some 0xFEFF
    · rw [if_pos hhead]
      refine ⟨fun h => ?_, fun h => absurd hhead h.1⟩
      obtain ⟨rest, rfl⟩ := List.head?_eq_some_iff.1 hhead
      have hlen := congrArg List.length h
      rw [length_replaceUnpaired, tail_cons, length_cons] at hlen
      omega
    · rw [if_neg hhead]
      exact ⟨fun h => ⟨hhead, h⟩, fun h => h.2⟩
  | binary bytes => exact ⟨fun _ => trivial, fun _ => rfl⟩
  | ping payload => rw [received, event, Survives, Event.ping.injEq, payload_eq_iff]
  | pong payload => rw [received, event, Survives, Event.pong.injEq, payload_eq_iff]

def item (key : Key) : (m : Outgoing) → m.Sendable → Item
  | text string, h => .message ⟨true, false, ⟨key, (encoded string).map ofNat, by
      rw [length_map]; exact h⟩, []⟩
  | binary bytes, h => .message ⟨false, false, ⟨key, bytes, h⟩, []⟩
  | ping payload, h => .control ⟨false, key, payload.getD [], h⟩
  | pong payload, h => .control ⟨true, key, payload.getD [], h⟩

lemma utf8Decode_encoded (string : List CodeUnit) : utf8Decode ((encoded string).map ofNat) =
    some (replaceUnpaired (withoutMark string)) := by
  have hbytes : ((encoded string).map ofNat).map (fun b => Fin.ofNat 256 b.toNat) = octets (encoded string) := by
    rw [map_map]
    apply map_congr_left
    intro b _
    apply Fin.ext
    exact Nat.mod_mod _ _
  rw [utf8Decode, hbytes, decode_encoded]

variable (serverSide : Bool)

lemma addMessage_eq (key : Key) (m : Outgoing) (h : m.Sendable) :
    addMessage serverSide key.toList m = some ((m.item key h).frames.flatMap (Frame.bytes !serverSide)) := by
  cases m with
  | text string =>
    rw [addMessage, utf8Encode, convert_eq]
    exact congrArg some ((createFrame_eq ⟨true, false, .text, key, (encoded string).map ofNat, by
      rw [length_map]; exact h, nofun⟩ rfl rfl (some _) rfl serverSide).trans (append_nil _).symm)
  | binary bytes =>
    exact congrArg some ((createFrame_eq ⟨true, false, .binary, key, bytes, h, nofun⟩
      rfl rfl (some bytes) rfl serverSide).trans (append_nil _).symm)
  | ping payload =>
    exact congrArg some ((createFrame_eq (Control.frame ⟨false, key, payload.getD [], h⟩)
      rfl rfl payload rfl serverSide).trans (append_nil _).symm)
  | pong payload =>
    exact congrArg some ((createFrame_eq (Control.frame ⟨true, key, payload.getD [], h⟩)
      rfl rfl payload rfl serverSide).trans (append_nil _).symm)

lemma expected_item (key : Key) (m : Outgoing) (h : m.Sendable)
    {items : List Item} {events : List (Event (List CodeUnit))}
    (he : expected (receiver serverSide) none items = .ok events) :
    expected (receiver serverSide) none (m.item key h :: items) = .ok (m.received :: events) := by
  cases m with
  | text string =>
    have hmessage : Message.expected (receiver serverSide) none
        ⟨true, false, ⟨key, (encoded string).map ofNat, by rw [length_map]; exact h⟩, []⟩ =
          .ok (none, (text string).received) := by
      rw [Message.expected, Message.bytes, flatMap_nil, append_nil]
      change (messageEvent (receiver serverSide) true _ false).map _ = _
      have hdecode : (receiver serverSide).decode ((encoded string).map ofNat) = some _ := utf8Decode_encoded string
      rw [messageEvent]
      rw [hdecode]
      rfl
    rw [item, expected, hmessage]
    change (expected (receiver serverSide) none items).bind _ = _
    rw [he]
    rfl
  | binary bytes =>
    change (expected (receiver serverSide) none items).bind _ = _
    rw [he]
    have hbytes : (Message.bytes ⟨false, false, ⟨key, bytes, h⟩, []⟩) = bytes := append_nil bytes
    rw [hbytes]
    rfl
  | ping payload | pong payload =>
    rw [item, expected, he]
    rfl

lemma undisturbed_item {serverSide : Bool} {key : Key} {m : Outgoing} {h : m.Sendable} {x : Message}
    (hx : .message x = m.item key h) : Undisturbed (receiver serverSide) x := by
  cases m with
  | text string | binary bytes =>
    cases hx
    exact ⟨trivial, nofun⟩
  | ping payload | pong payload => cases hx

lemma addMessages_eq (messages : List (Outgoing × Key)) (h : ∀ m ∈ messages, m.1.Sendable) : ∃ items : List Item,
    addMessages serverSide messages = some ((items.flatMap Item.frames).flatMap (Frame.bytes !serverSide)) ∧
    expected (receiver serverSide) none items = .ok (messages.map fun m => m.1.received) ∧
    ∀ x, .message x ∈ items → Undisturbed (receiver serverSide) x := by
  induction messages with
  | nil => exact ⟨[], rfl, rfl, nofun⟩
  | cons message messages ih =>
    obtain ⟨m, key⟩ := message
    obtain ⟨hm, hrest⟩ := forall_mem_cons.1 h
    obtain ⟨items, hbytes, hexpected, hundisturbed⟩ := ih hrest
    refine ⟨m.item key hm :: items, ?_, expected_item serverSide key m hm hexpected, ?_⟩
    · rw [addMessages, addMessage_eq serverSide key m hm, hbytes, flatMap_cons, flatMap_append]
      rfl
    · intro x hx
      rcases mem_cons.1 hx with hx | hx
      · exact undisturbed_item hx
      · exact hundisturbed x hx

end Outgoing

theorem framing_roundTrip_iff (serverSide : Bool) (messages : List (Outgoing × Key))
    (hsend : ∀ m ∈ messages, m.1.Sendable) :
    (∃ stream, addMessages serverSide messages = some stream ∧ ∀ chunks : List Chunk,
      chunks.flatMap Chunk.bytes = stream → (∀ chunk ∈ chunks, chunk.offsetInBytes % 16 = 0) →
        ∃ t, addChunks (receiver serverSide) {} chunks = .ok t ∧ t.state = .start ∧
          (t.events = (messages.map fun m => m.1.event) ↔ ∀ m ∈ messages, m.1.Survives)) ∧
    (∀ key list : List Byte, maskData key list = xorBytes key 0 list) ∧
    ∀ (key : List Byte) (unmaskingIndex offsetInBytes index length : ℕ) (buffer : List Byte),
      offsetInBytes % 16 = 0 → index + length ≤ buffer.length → ∃ unmaskingIndex',
        unmask key unmaskingIndex offsetInBytes index length buffer =
            .ok (onSlice buffer index length (xorBytes key unmaskingIndex), unmaskingIndex') ∧
          unmaskingIndex' % 4 = (unmaskingIndex + length) % 4 := by
  refine ⟨?_, maskData_eq, fun key _ _ _ _ _ haligned h => unmask_eq key (.inl haligned) h⟩
  obtain ⟨items, hbytes, hexpected, hundisturbed⟩ := Outgoing.addMessages_eq serverSide messages hsend
  refine ⟨_, hbytes, fun chunks hstream haligned => ?_⟩
  have hbetween : Assembly.Between none [] ({} : Assembly Unit (List CodeUnit)) := ⟨rfl, rfl, rfl, rfl⟩
  obtain ⟨a, ha, hevents⟩ := (Assembly.items_arrive_iff items hbetween hexpected).2 hundisturbed
  have hreach := chunks_reach (c := receiver serverSide) hstream fun _ chunk hchunk => .inl (haligned chunk hchunk)
  rw [ha] at hreach
  obtain ⟨s, hs, hidle, rfl⟩ := hreach
  cases ht : addChunks (receiver serverSide) {} chunks with
  | error e =>
    rw [ht] at hs
    cases hs
  | ok t =>
    rw [ht] at hs
    cases hs
    refine ⟨t, rfl, hidle.state, ?_⟩
    change t.events = _ at hevents
    rw [hevents]
    constructor
    · intro heq m hm
      exact (Outgoing.received_eq_iff m.1).1 (map_inj_left.1 heq m hm)
    · intro hall
      exact map_congr_left fun m hm => (Outgoing.received_eq_iff m.1).2 (hall m hm)

theorem framing_roundTrip_binary : ∃ t, addChunks (receiver false) {}
    [⟨0, [0x82, 0x82, 1, 2]⟩, ⟨16, [3, 4, 8, 7]⟩] = .ok t ∧ t.state = .start ∧ t.events = [.binary [9, 5] false] := by
  obtain ⟨⟨stream, hstream, hchunks⟩, -⟩ := framing_roundTrip_iff false
    [(.binary [9, 5], ⟨1, 2, 3, 4⟩)] (forall_mem_singleton.2 (show 2 < 2 ^ 63 by decide))
  obtain ⟨t, ht, hstate, hevents⟩ := hchunks [⟨0, [0x82, 0x82, 1, 2]⟩, ⟨16, [3, 4, 8, 7]⟩]
    (Option.some.inj ((show some _ = _ from rfl).trans hstream))
    (forall_mem_cons.2 ⟨rfl, forall_mem_singleton.2 rfl⟩)
  exact ⟨t, ht, hstate, hevents.2 (forall_mem_singleton.2 trivial)⟩

theorem framing_losesMark : (addMessages true [(.text [0xFEFF, 0x61], ⟨0, 0, 0, 0⟩)]).map (fun stream =>
      (addChunks (receiver true) {} [⟨0, stream⟩]).map fun t => t.events) =
    some (.ok [.text [0x61] false]) := by
  decide +kernel

end Messages

section

structure Heap where
  buffers : ℕ → List Byte
  lists : ℕ → List ℤ

/-- A `List<int>` of the caller. A `Uint8List` is a view of a buffer. -/
inductive ByteList
  | typed (buffer offsetInBytes length : ℕ)
  | plain (list : ℕ)

inductive Sent
  | string (string : List CodeUnit)
  | list (bytes : ByteList)
  | encodedString (bytes : ByteList)

variable (key : Key) (h : Heap)

def Heap.view (buffer offsetInBytes length : ℕ) : List Byte := ((h.buffers buffer).drop offsetInBytes).take length

def clientFrame (opcode : ℕ) (data : List Byte) : List (List Byte) :=
  createFrame opcode (some data) false false key.toList

/-- What `createFrame` does on the client side, with the heap after it; `none` stands for an error. -/
def frameOf (opcode : ℕ) : ByteList → Option (List (List Byte)) × Heap
  | .plain list =>
    let bytes := (h.lists list).mapM fun b => if b < 0 ∨ 255 < b then none else some (ofNat b.toNat)
    (bytes.map (clientFrame key opcode), h)
  | .typed buffer offsetInBytes length =>
    let bytes := h.view buffer offsetInBytes length
    let frames := clientFrame key opcode bytes
    if opcode ≠ 1 then (some frames, h)
    else if 0 < bytes.length / 16 ∧ offsetInBytes % 16 ≠ 0 then (none, h)
    else
      -- A text is masked inside the buffer of the caller.
      let masked := onSlice (h.buffers buffer) offsetInBytes length (maskData key.toList)
      (some frames, { h with buffers := Function.update h.buffers buffer masked })

def sendMessage : Sent → Option (List (List Byte)) × Heap
  | .string string => ((utf8Encode string).map (clientFrame key 1), h)
  | .list bytes => frameOf key h 2 bytes
  | .encodedString bytes => frameOf key h 1 bytes

def unmasked (sent : Option (List (List Byte)) × Heap) : Option (List Byte) × Heap :=
  (sent.1.map fun frames => xorBytes key.toList 0 (frames.getD 1 []), sent.2)

def sendAll (m : Sent) : List Key → Heap → List (Option (List Byte)) × Heap
  | [], h => ([], h)
  | key :: keys, h =>
    let (payload, h) := unmasked key (sendMessage key h m)
    let (payloads, h) := sendAll m keys h
    (payload :: payloads, h)

def Sent.MaskedInPlace : Sent → Prop
  | .encodedString (.typed buffer offsetInBytes length) => h.view buffer offsetInBytes length ≠ [] ∧
      ((h.view buffer offsetInBytes length).length / 16 = 0 ∨ offsetInBytes % 16 = 0)
  | _ => False

lemma onSlice_eq_self_iff (buffer : List Byte) (index length : ℕ) (f : List Byte → List Byte) :
    onSlice buffer index length f = buffer ↔ f ((buffer.drop index).take length) = (buffer.drop index).take length := by
  have hself : onSlice buffer index length id = buffer := by
    rw [onSlice, id, append_assoc, ← drop_drop, take_append_drop, take_append_drop]
  nth_rewrite 2 [← hself]
  rw [onSlice, onSlice, append_left_inj, append_right_inj, id]

variable {h} {m : Sent}

lemma unmasked_clientFrame (opcode : ℕ) (data : Option (List Byte)) :
    unmasked key (data.map (clientFrame key opcode), h) = (data, h) := by
  cases data with
  | none => rfl
  | some data =>
    change (some (xorBytes key.toList 0 (maskData key.toList data)), h) = _
    rw [maskData_eq, xorBytes_xorBytes]

lemma frameOf_keeps (opcode : ℕ) (data : ByteList) (hnot : opcode = 1 → ¬(Sent.encodedString data).MaskedInPlace h) :
    ∃ payload, ∀ key, unmasked key (frameOf key h opcode data) = (payload, h) := by
  cases data with
  | plain list => exact ⟨_, fun key => unmasked_clientFrame key opcode _⟩
  | typed buffer offsetInBytes length =>
    by_cases hopcode : opcode = 1
    · by_cases hrange : 0 < (h.view buffer offsetInBytes length).length / 16 ∧ offsetInBytes % 16 ≠ 0
      · refine ⟨none, fun key => ?_⟩
        rw [frameOf, if_neg (not_not.2 hopcode), if_pos hrange]
        rfl
      · have hnil : h.view buffer offsetInBytes length = [] := by
          by_contra hne
          exact hnot hopcode ⟨hne, by omega⟩
        refine ⟨some (h.view buffer offsetInBytes length), fun key => ?_⟩
        rw [frameOf, if_neg (not_not.2 hopcode), if_neg hrange]
        dsimp only
        rw [(onSlice_eq_self_iff ..).2, Function.update_eq_self]
        · exact unmasked_clientFrame key opcode (some _)
        · exact (congrArg (maskData _) hnil).trans hnil.symm
    · refine ⟨some (h.view buffer offsetInBytes length), fun key => ?_⟩
      rw [frameOf, if_pos hopcode]
      exact unmasked_clientFrame key opcode (some _)

lemma sendMessage_keeps (hm : ¬m.MaskedInPlace h) :
    ∃ payload, ∀ key, unmasked key (sendMessage key h m) = (payload, h) := by
  cases m with
  | string string => exact ⟨_, fun key => unmasked_clientFrame key 1 _⟩
  | list bytes => exact frameOf_keeps 2 bytes nofun
  | encodedString bytes => exact frameOf_keeps 1 bytes fun _ => hm

lemma sendMessage_changes (hm : m.MaskedInPlace h) : (sendMessage ⟨1, 0, 0, 0⟩ h m).2 ≠ h := by
  rcases m with _ | _ | ⟨buffer, offsetInBytes, length⟩ | _
  case encodedString.typed =>
    obtain ⟨hne, haligned⟩ := hm
    rw [sendMessage, frameOf, if_neg (not_not.2 rfl), if_neg (by omega)]
    intro heq
    have hbuffer := congrFun (congrArg Heap.buffers heq) buffer
    dsimp only at hbuffer
    rw [Function.update_self, onSlice_eq_self_iff, maskData_eq] at hbuffer
    obtain ⟨byte, rest, hview⟩ := exists_cons_of_ne_nil hne
    rw [Heap.view] at hview
    rw [hview] at hbuffer
    have hbyte : byte ^^^ (byte ^^^ 1) = byte ^^^ byte := congrArg (byte ^^^ ·) (cons.inj hbuffer).1
    rw [← UInt8.xor_assoc, UInt8.xor_self] at hbyte
    cases hbyte
  all_goals exact hm.elim

theorem sending_harmless_iff (h : Heap) (m : Sent) :
    (∃ payload, ∀ keys, sendAll m keys h = (keys.map fun _ => payload, h)) ↔ ¬m.MaskedInPlace h := by
  constructor
  · rintro ⟨payload, hkeys⟩ hm
    exact sendMessage_changes hm (congrArg Prod.snd (hkeys [⟨1, 0, 0, 0⟩]))
  · intro hm
    obtain ⟨payload, hsend⟩ := sendMessage_keeps hm
    refine ⟨payload, fun keys => ?_⟩
    induction keys with
    | nil => rfl
    | cons key keys ih =>
      rw [sendAll, hsend]
      dsimp only
      rw [ih, map_cons]

/-- The second frame of an encoded text that is sent twice carries other bytes than the first. -/
theorem sending_masks_caller : (sendAll (.encodedString (.typed 0 0 1)) [⟨1, 0, 0, 0⟩, ⟨1, 0, 0, 0⟩]
    ⟨fun _ => [0x61], fun _ => []⟩).1 = [some [0x61], some [0x60]] := by
  decide

end
end DartSdk.WebSocket
