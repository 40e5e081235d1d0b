import DartSdk.WebSocket.Transformer
import DartSdk.Library.StateExcept
import Mathlib.Tactic.IntervalCases

namespace DartSdk.WebSocket
open List StateExcept
variable {D T : Type}
variable {buffer : List Byte}

section
variable (key : List Byte)

lemma and_three (u : ℕ) : u &&& 3 = u % 4 := Nat.and_two_pow_sub_one_eq_mod u 2

lemma xorBytes_length (u : ℕ) (l : List Byte) : (xorBytes key u l).length = l.length := by
  induction l generalizing u with
  | nil => rfl
  | cons b l ih => rw [xorBytes, length_cons, length_cons, ih]

lemma xorBytes_append (u : ℕ) (l l' : List Byte) :
    xorBytes key u (l ++ l') = xorBytes key u l ++ xorBytes key (u + l.length) l' := by
  induction l generalizing u with
  | nil => rfl
  | cons b l ih => rw [cons_append, xorBytes, xorBytes, ih, length_cons, cons_append, Nat.add_assoc, Nat.add_comm 1]

variable {u : ℕ}

lemma xorBytes_congr {v : ℕ} (h : u % 4 = v % 4) (l : List Byte) : xorBytes key u l = xorBytes key v l := by
  induction l generalizing u v with
  | nil => rfl
  | cons b l ih => rw [xorBytes, xorBytes, and_three, and_three, h, ih (v := v + 1) (by omega)]

lemma laneByte_xor (w v : BitVec 32) (i : ℕ) : laneByte (w ^^^ v) i = laneByte w i ^^^ laneByte v i := by
  apply UInt8.toBitVec_inj.1
  exact BitVec.extractLsb'_xor

lemma laneByte_lane (b₀ b₁ b₂ b₃ : Byte) : laneByte (lane b₀ b₁ b₂ b₃) 0 = b₀ ∧
    laneByte (lane b₀ b₁ b₂ b₃) 1 = b₁ ∧ laneByte (lane b₀ b₁ b₂ b₃) 2 = b₂ ∧ laneByte (lane b₀ b₁ b₂ b₃) 3 = b₃ := by
  refine ⟨?_, ?_, ?_, ?_⟩ <;>
  · apply UInt8.toBitVec_inj.1
    ext j hj
    simp only [laneByte, lane, BitVec.getElem_extractLsb', BitVec.getLsbD_append]
    interval_cases j <;> rfl

lemma maskWord_eq (u : ℕ) : maskWord key u = lane (key.getD (u % 4) 0)
    (key.getD ((u + 1) % 4) 0) (key.getD ((u + 2) % 4) 0) (key.getD ((u + 3) % 4) 0) := by
  simp only [maskWord, foldl_cons, foldl_nil, and_three, Nat.add_zero]
  generalize key.getD ((u + 2) % 4) 0 = k2
  generalize key.getD ((u + 3) % 4) 0 = k3
  apply BitVec.eq_of_getLsbD_eq
  intro j hj
  simp only [lane, BitVec.getLsbD_or, BitVec.getLsbD_shiftLeft, BitVec.getLsbD_setWidth, BitVec.getLsbD_append]
  interval_cases j <;> simp

lemma xorLanes_eq (u : ℕ) (n : ℕ) (l : List Byte) (hl : l.length = 4 * n) :
    xorLanes (maskWord key u) l = xorBytes key u l := by
  induction n generalizing l with
  | zero =>
    rw [length_eq_zero_iff.1 hl]
    rfl
  | succ n ih =>
    match l, hl with
    | b₀ :: b₁ :: b₂ :: b₃ :: l, hl =>
      have hrest := ih l (by simp only [length_cons] at hl; omega)
      rw [xorBytes_congr key (v := u + 1 + 1 + 1 + 1) (by omega)] at hrest
      obtain ⟨hb0, hb1, hb2, hb3⟩ := laneByte_lane b₀ b₁ b₂ b₃
      simp only [xorLanes, xorBytes, hrest, laneByte_xor, hb0, hb1, hb2, hb3, and_three]
      rw [maskWord_eq]
      obtain ⟨hk0, hk1, hk2, hk3⟩ := laneByte_lane (key.getD (u % 4) 0)
        (key.getD ((u + 1) % 4) 0) (key.getD ((u + 2) % 4) 0) (key.getD ((u + 3) % 4) 0)
      rw [hk0, hk1, hk2, hk3]

lemma onSlice_onSlice (buffer : List Byte) (index n m u v : ℕ) {g : List Byte → List Byte}
    (h : index + (n + m) ≤ buffer.length) (hv : v % 4 = (u + n) % 4)
    (hg : ∀ l : List Byte, l.length = m → g l = xorBytes key v l) :
    onSlice (onSlice buffer index n (xorBytes key u)) (index + n) m g
    = onSlice buffer index (n + m) (xorBytes key u) := by
  have hn : ((buffer.drop index).take n).length = n := by
    rw [length_take, length_drop]
    omega
  have hm : ((buffer.drop (index + n)).take m).length = m := by
    rw [length_take, length_drop]
    omega
  have hpre : (buffer.take index ++ xorBytes key u ((buffer.drop index).take n)).length = index + n := by
    rw [length_append, xorBytes_length, length_take]
    omega
  have hspl : (buffer.drop index).take (n + m) = (buffer.drop index).take n ++ (buffer.drop (index + n)).take m := by
    rw [take_add, drop_drop]
  have htake : (onSlice buffer index n (xorBytes key u)).take (index + n)
      = buffer.take index ++ xorBytes key u ((buffer.drop index).take n) := by
    rw [onSlice, ← hpre, take_left]
  have hdrop (k : ℕ) : (onSlice buffer index n (xorBytes key u)).drop (index + n + k) = buffer.drop (index + n + k) := by
    rw [onSlice, ← drop_drop, ← hpre, drop_left, drop_drop]
  have hdrop0 := hdrop 0
  rw [Nat.add_zero] at hdrop0
  rw [onSlice.eq_1 (onSlice _ _ _ _), htake, hdrop, hdrop0, hg _ hm, xorBytes_congr key hv, onSlice, hspl,
    xorBytes_append, hn, ← Nat.add_assoc]
  simp only [append_assoc]

lemma unmask_eq {offsetInBytes index length : ℕ}
    (hali : offsetInBytes % 16 = 0 ∨ buffer.length < 32) (h : index + length ≤ buffer.length) : ∃ v,
    unmask key u offsetInBytes index length buffer
    = .ok (onSlice buffer index length (xorBytes key u), v) ∧ v % 4 = (u + length) % 4 := by
  rw [unmask]
  by_cases hleng : 16 ≤ length
  · have hand : index &&& 15 = index % 16 := Nat.and_two_pow_sub_one_eq_mod index 4
    rw [if_pos hleng, hand]
    dsimp only
    generalize hn : 16 - index % 16 = n
    by_cases hblo : 0 < (length - n) / 16
    · rw [if_pos hblo, if_pos (by omega)]
      generalize hk : (length - n) / 16 = k at hblo
      have hfir := onSlice_onSlice key buffer index n (k * 16) u (u + n) (by omega) rfl
        fun l hl => xorLanes_eq key _ (k * 4) l (by omega)
      have hsec := onSlice_onSlice key buffer index (n + k * 16) (length - n - k * 16) u (u + n) (by omega)
        (by omega) fun _ _ => rfl
      rw [← Nat.add_assoc] at hsec
      rw [hfir, hsec, show n + k * 16 + (length - n - k * 16) = length by omega]
      exact ⟨_, rfl, by omega⟩
    · have hsec := onSlice_onSlice key buffer index n (length - n) u (u + n) (by omega) rfl fun _ _ => rfl
      rw [if_neg hblo, hsec, show n + (length - n) = length by omega]
      exact ⟨_, rfl, by omega⟩
  · rw [if_neg hleng]
    exact ⟨_, rfl, rfl⟩

/-- A view whose bytes do not start at a multiple of 16 of the buffer. -/
example : unmask [1, 2, 3, 4] 0 1 0 32 (List.replicate 32 0) = .error .rangeError := rfl

end

/-- An `Int32x4List.view` of the chunk's buffer is aligned, or the chunk is too short for one: a block that is unmasked
through a view ends 32 bytes after the chunk's start or later. -/
def Chunk.Viewable (chunk : Chunk) : Prop := chunk.offsetInBytes % 16 = 0 ∨ chunk.bytes.length < 32

namespace Transformer
variable (c : Config D T) (t : Transformer D T)

def norm : Transformer D T := { t with unmaskingIndex := t.unmaskingIndex % 4 }

def unmasked (byte : Byte) : Byte :=
  if t.masked then byte ^^^ t.maskingBytes.getD (t.unmaskingIndex % 4) 0 else byte

def feedByte (byte : Byte) : Except Error (Transformer D T) :=
  if !t.isOpen then .ok t
  else if t.state = .payload then
    if t.remainingPayloadBytes < 0 then .error .rangeError
    else
      { t with
        remainingPayloadBytes := t.remainingPayloadBytes - 1
        payload := t.payload ++ [t.unmasked byte]
        unmaskingIndex := if t.masked then (t.unmaskingIndex + 1) % 4 else t.unmaskingIndex
        }.payloadAdded c
  else t.addByte c byte

def feed (bytes : List Byte) : Except Error (Transformer D T) := bytes.foldlM (feedByte c) t

section

lemma messageFrameEnd_norm : t.norm.messageFrameEnd c = (t.messageFrameEnd c).map norm := by
  rw [messageFrameEnd, messageFrameEnd]
  change (if t.fin then _ else _) = _
  split
  · change (t.toAssembly.messageEnd c).bind _ = Except.map norm ((t.toAssembly.messageEnd c).bind _)
    cases t.toAssembly.messageEnd c <;> rfl
  · rfl

lemma closeFrameEnd_norm : t.norm.closeFrameEnd c = (t.closeFrameEnd c).map norm := by
  obtain ⟨⟨_, _, payload, _, _⟩, _⟩ := t
  rcases payload with _ | ⟨b₀, _ | ⟨b₁, reason⟩⟩
  · rfl
  · rfl
  · simp only [closeFrameEnd, norm]
    cases c.decode reason <;> split_ifs <;> rfl

lemma controlFrameEnd_norm : t.norm.controlFrameEnd c = (t.controlFrameEnd c).map norm := by
  rw [controlFrameEnd, controlFrameEnd]
  change (if t.opcode = 8 then _ else _) = _
  split
  · exact closeFrameEnd_norm c t
  · change (if t.opcode = 9 then _ else _) = _
    split
    · rfl
    · change (if t.opcode = 10 then _ else _) = _
      split <;> rfl

lemma startPayload_norm : t.norm.startPayload c = (t.startPayload c).map norm := by
  rw [startPayload, startPayload]
  change (if t.remainingPayloadBytes = 0 then _ else _) = _
  split
  · change (if t.isControlFrame then _ else _) = _
    split
    · change (if t.opcode = 8 then _ else _) = _
      split
      · rfl
      · change (if t.opcode = 9 then _ else _) = _
        split <;> rfl
    · exact messageFrameEnd_norm c t
  · rfl

lemma lengthDone_norm : t.norm.lengthDone c = (t.lengthDone c).map norm := by
  rw [lengthDone, lengthDone]
  change (if t.masked then _ else _) = _
  split
  · split <;> rfl
  · split
    · rfl
    · exact startPayload_norm c { t with remainingPayloadBytes := t.len.toInt }

variable (byte : Byte)

lemma addStart_norm : t.norm.addStart byte = (t.addStart byte).map norm := by
  have htype : t.norm.currentMessageType = t.currentMessageType := rfl
  rw [addStart, addStart]
  split
  · rfl
  · by_cases h0 : ((byte &&& 0xF).toNat : ℤ) = 0
    · simp only [h0, htype, ne_eq, not_true_eq_false, if_false]
      split_ifs <;> rfl
    · simp only [h0, htype, ne_eq, not_false_eq_true, if_false, if_true]
      split_ifs <;> rfl

lemma addLenFirst_norm : t.norm.addLenFirst c byte = (t.addLenFirst c byte).map norm := by
  have hdone := lengthDone_norm c { t with masked := byte &&& 0x80 ≠ 0, len := (byte &&& 0x7F).toBitVec.setWidth 64 }
  change (if t.isControlFrame = true ∧ 125 < ((byte &&& 0x7F).toBitVec.setWidth 64).toInt then _ else _)
    = Except.map norm (if t.isControlFrame = true ∧ 125 < ((byte &&& 0x7F).toBitVec.setWidth 64).toInt then _ else _)
  split
  · rfl
  · split
    · rfl
    · split
      · rfl
      · exact hdone

lemma addLenRest_norm : t.norm.addLenRest c byte = (t.addLenRest c byte).map norm := by
  have hdone := lengthDone_norm c { t with
    len := t.len <<< 8 ||| byte.toBitVec.setWidth 64
    remainingLenBytes := t.remainingLenBytes - 1 }
  rw [addLenRest, addLenRest]
  change (if t.remainingLenBytes - 1 = 0 then _ else _) = _
  split
  · exact hdone
  · rfl

lemma addMask_norm : t.norm.addMask c byte = (t.addMask c byte).map norm := by
  have hdone := startPayload_norm c { t with
    maskingBytes := t.maskingBytes.set (4 - t.remainingMaskingKeyBytes).toNat byte
    remainingMaskingKeyBytes := t.remainingMaskingKeyBytes - 1
    remainingPayloadBytes := t.len.toInt }
  rw [addMask, addMask]
  change (if t.remainingMaskingKeyBytes - 1 = 0 then _ else _) = _
  split
  · exact hdone
  · rfl

lemma addByte_norm : t.norm.addByte c byte = (t.addByte c byte).map norm := by
  have hstart := addStart_norm t byte
  have hfir := addLenFirst_norm c t byte
  have hrest := addLenRest_norm c t byte
  have hmask := addMask_norm c t byte
  rw [addByte, addByte, show t.norm.state = t.state from rfl]
  cases t.state <;> first | rfl | assumption

lemma payloadAdded_norm : t.norm.payloadAdded c = (t.payloadAdded c).map norm := by
  rw [payloadAdded, payloadAdded]
  change (if t.isControlFrame then _ else _) = _
  split
  · change (if t.remainingPayloadBytes = 0 then _ else _) = _
    split
    · exact controlFrameEnd_norm c t
    · rfl
  · change (if t.currentMessageType ≠ .text ∧ t.currentMessageType ≠ .binary then _ else _) = _
    split
    · rfl
    · change (if t.remainingPayloadBytes = 0 then _ else _) = _
      split
      · exact messageFrameEnd_norm c t
      · rfl

end

section

def blockAdded (bytes : List Byte) : Transformer D T :=
  { t with
    remainingPayloadBytes := t.remainingPayloadBytes - bytes.length
    payload := t.payload ++ if t.masked then xorBytes t.maskingBytes t.unmaskingIndex bytes else bytes
    unmaskingIndex := if t.masked then (t.unmaskingIndex + bytes.length) % 4 else t.unmaskingIndex }

lemma feed_cons (byte : Byte) (bytes : List Byte) :
    t.feed c (byte :: bytes) = (t.feedByte c byte).bind fun t => t.feed c bytes := rfl

lemma feed_append (bytes bytes' : List Byte) :
    t.feed c (bytes ++ bytes') = (t.feed c bytes).bind fun t => t.feed c bytes' :=
  foldlM_append

lemma feed_closed {t : Transformer D T} (h : t.isOpen = false) (bytes : List Byte) : t.feed c bytes = .ok t := by
  induction bytes with
  | nil => rfl
  | cons byte bytes ih =>
    have hstep : t.feedByte c byte = .ok t := by
      rw [feedByte, h]
      rfl
    rw [feed_cons, hstep]
    exact ih

variable {t}

lemma feedByte_payload (hsta : t.state = .payload) (hrem : 0 ≤ t.remainingPayloadBytes)
    (byte : Byte) : t.feedByte c byte = (t.blockAdded [byte]).payloadAdded c := by
  have hopen : t.isOpen = true := by rw [isOpen, hsta]; rfl
  rw [feedByte, hopen, if_neg (by decide), if_pos hsta, if_neg (by omega)]
  congr 1
  rw [blockAdded, unmasked, xorBytes, and_three]
  cases t.masked <;> rfl

def Expected (t : Transformer D T) : Prop :=
  t.isControlFrame = true ∨ t.currentMessageType = .text ∨ t.currentMessageType = .binary

lemma payloadAdded_unexpected (h : ¬ t.Expected) : t.payloadAdded c = .error protocolError := by
  rw [Expected] at h
  rw [payloadAdded, if_neg (by tauto), if_pos (by tauto)]

lemma payloadAdded_more (h : t.Expected) (hrem : t.remainingPayloadBytes ≠ 0) : t.payloadAdded c = .ok t := by
  rw [payloadAdded, if_neg hrem, if_neg hrem]
  by_cases hc : t.isControlFrame = true
  · rw [if_pos hc]
  · rw [Expected] at h
    rw [if_neg hc, if_neg (by tauto)]

lemma blockAdded_cons (byte : Byte) (bytes : List Byte) :
    (t.blockAdded [byte]).blockAdded bytes = t.blockAdded (byte :: bytes) := by
  rw [blockAdded, blockAdded, blockAdded, Transformer.mk.injEq]
  have hxor := xorBytes_congr t.maskingBytes (u := (t.unmaskingIndex + 1) % 4)
    (v := t.unmaskingIndex + 1) (by omega) bytes
  cases t.masked with
  | false =>
    simp only [length_cons, length_nil, if_false, Bool.false_eq_true, append_assoc, singleton_append, true_and, and_true]
    omega
  | true =>
    simp only [length_cons, length_nil, if_true, append_assoc, hxor, xorBytes, singleton_append, true_and, and_true]
    omega

lemma feed_payload (hsta : t.state = .payload) (bytes : List Byte) (hne : bytes ≠ [])
    (hle : bytes.length ≤ t.remainingPayloadBytes) : t.feed c bytes = (t.blockAdded bytes).payloadAdded c := by
  induction bytes generalizing t with
  | nil => exact absurd rfl hne
  | cons byte bytes ih =>
    rw [length_cons] at hle
    rw [feed_cons, feedByte_payload c hsta (by omega)]
    by_cases hlast : bytes = []
    · subst hlast
      cases (t.blockAdded [byte]).payloadAdded c <;> rfl
    · have hpos := length_pos_iff.2 hlast
      have hrem : (t.blockAdded [byte]).remainingPayloadBytes = t.remainingPayloadBytes - 1 := rfl
      by_cases hok : t.Expected
      · rw [payloadAdded_more c (t := t.blockAdded [byte]) hok (by rw [hrem]; omega)]
        exact (ih (t := t.blockAdded [byte]) hsta hlast (by rw [hrem]; omega)).trans (by rw [blockAdded_cons])
      · rw [payloadAdded_unexpected c (t := t.blockAdded [byte]) hok,
          payloadAdded_unexpected c (t := t.blockAdded (byte :: bytes)) hok]
        rfl

end

section Loop

structure Ready (t : Transformer D T) : Prop where
  masked : t.state = .mask ∨ t.state = .payload → t.masked = c.serverSide
  remaining : t.state = .payload → t.remainingPayloadBytes ≠ 0

variable {c t} {t' : Transformer D T}

lemma ready_of_state (h : t.state ≠ .mask) (h' : t.state ≠ .payload) : Ready c t :=
  ⟨fun hs => absurd hs (not_or.2 ⟨h, h'⟩), fun hs => absurd hs h'⟩

lemma ready_prepareForNextFrame (t : Transformer D T) : Ready c t.prepareForNextFrame := by
  apply ready_of_state <;>
  · rw [prepareForNextFrame]
    dsimp only
    split
    · decide
    · next h =>
      intro hs
      rw [hs] at h
      exact h ⟨by decide, by decide⟩

/-- The call returns a value with the property, or throws an exception that its caller is told of. -/
def Gives {α : Type} (P : α → Prop) : Except Error α → Prop
  | .ok a => P a
  | .error .rangeError | .error .outOfFuel => False
  | .error _ => True

lemma gives_bind {α β : Type} {P : α → Prop} {Q : β → Prop} {x : Except Error α}
    {f : α → Except Error β} (hx : Gives P x) (hf : ∀ a, P a → Gives Q (f a)) : Gives Q (x.bind f) := by
  rcases x with (_ | _ | _ | _ | _) | a
  all_goals first | exact hf a hx | exact hx

lemma gives_messageEnd (a : Assembly D T) : Gives (fun _ => True) (a.messageEnd c) := by
  refine gives_bind (P := fun _ => True) ?_ fun r _ => gives_bind (P := fun _ => True) ?_ fun _ _ => trivial
  · rw [Assembly.takeMessage]
    split
    · trivial
    · split_ifs
      · refine gives_bind (P := fun _ => True) ?_ fun _ _ => trivial
        rw [PerMessageDeflate.processIncomingMessage]
        split
        · trivial
        · split_ifs <;> trivial
      · trivial
  · rw [Assembly.sendMessage]
    split
    · trivial
    · split <;> trivial
    · trivial

lemma gives_messageFrameEnd : Gives (Ready c) (t.messageFrameEnd c) := by
  rw [messageFrameEnd]
  split
  · exact gives_bind (gives_messageEnd _) fun _ _ => ready_prepareForNextFrame _
  · exact ready_prepareForNextFrame _

lemma gives_controlFrameEnd : Gives (Ready c) (t.controlFrameEnd c) := by
  have hclose : Gives (Ready c) (t.closeFrameEnd c) := by
    rw [closeFrameEnd]
    split
    · exact ready_prepareForNextFrame _
    · trivial
    · dsimp only
      split_ifs
      · trivial
      · exact ready_prepareForNextFrame _
      · split
        · trivial
        · exact ready_prepareForNextFrame _
  rw [controlFrameEnd]
  split_ifs
  · exact hclose
  all_goals exact ready_prepareForNextFrame _

lemma gives_payloadAdded (hmas : t.masked = c.serverSide) : Gives (Ready c) (t.payloadAdded c) := by
  rw [payloadAdded]
  split_ifs with hc hzero hz' hzero
  · exact gives_controlFrameEnd
  · exact ⟨fun _ => hmas, fun _ => hzero⟩
  · trivial
  · exact gives_messageFrameEnd
  · exact ⟨fun _ => hmas, fun _ => hzero⟩

lemma gives_startPayload (hmas : t.masked = c.serverSide) : Gives (Ready c) (t.startPayload c) := by
  rw [startPayload]
  split_ifs with hzero
  · exact ready_prepareForNextFrame _
  · exact ready_prepareForNextFrame _
  · exact ready_prepareForNextFrame _
  · exact gives_messageFrameEnd
  · exact ⟨fun _ => hmas, fun _ => hzero⟩

lemma gives_lengthDone : Gives (Ready c) (t.lengthDone c) := by
  rw [lengthDone]
  split_ifs with hmas hside hside
  · trivial
  · refine ⟨fun _ => ?_, nofun⟩
    rw [show t.masked = true from hmas]
    simpa using hside
  · trivial
  · refine gives_startPayload ?_
    rw [Bool.eq_false_iff.2 hmas, Bool.eq_false_iff.2 hside]

lemma gives_addByte (hrea : Ready c t) (hsta : t.state ≠ .payload) (byte : Byte) :
    Gives (Ready c) (t.addByte c byte) := by
  rw [addByte]
  split
  · rw [addStart]
    dsimp only
    split_ifs
    all_goals first | trivial | exact ready_of_state nofun nofun
  · rw [addLenFirst]
    dsimp only
    split_ifs
    all_goals first | trivial | exact ready_of_state nofun nofun | exact gives_lengthDone
  · next hs =>
    rw [addLenRest]
    dsimp only
    split_ifs
    · exact gives_lengthDone
    · exact ready_of_state (by rw [hs]; decide) (by rw [hs]; decide)
  · next hs =>
    rw [addMask]
    dsimp only
    split_ifs
    · exact gives_startPayload (hrea.masked (.inl hs))
    · exact ⟨fun _ => hrea.masked (.inl hs), fun hp => absurd hp hsta⟩
  · exact hrea

/-- Before a byte of the stream the payload has a negative length. -/
def ReadsNegative (c : Config D T) (t : Transformer D T) (stream : List Byte) : Prop :=
  ∃ before byte after s, stream = before ++ byte :: after ∧ t.feed c before = .ok s ∧ s.state = .payload ∧
    s.remainingPayloadBytes < 0

lemma feed_of_readsNegative {stream : List Byte} (h : ReadsNegative c t stream) :
    t.feed c stream = .error .rangeError := by
  obtain ⟨before, byte, after, s, rfl, hs, hsta, hneg⟩ := h
  rw [feed_append, hs]
  change (s.feedByte c byte).bind _ = _
  rw [feedByte, isOpen, hsta, if_pos hneg]
  rfl

lemma gives_feed (hrea : Ready c t) {stream : List Byte} (h : ¬ReadsNegative c t stream) :
    Gives (Ready c) (t.feed c stream) := by
  induction stream generalizing t with
  | nil => exact hrea
  | cons byte stream ih =>
    have hbyte : Gives (Ready c) (t.feedByte c byte) := by
      rw [feedByte]
      split_ifs with hopen hsta hneg
      · exact hrea
      · exact h ⟨[], byte, stream, t, rfl, rfl, hsta, hneg⟩
      · exact gives_payloadAdded (hrea.masked (.inr hsta))
      · exact gives_payloadAdded (hrea.masked (.inr hsta))
      · exact gives_addByte hrea hsta byte
    rw [feed_cons]
    cases hs : t.feedByte c byte with
    | error e =>
      rw [hs] at hbyte
      cases e <;> exact hbyte
    | ok s =>
      rw [hs] at hbyte
      refine ih hbyte fun hneg => h ?_
      obtain ⟨before, byte', after, s', rfl, hs', hrest⟩ := hneg
      refine ⟨byte :: before, byte', after, s', rfl, ?_, hrest⟩
      rw [feed_cons, hs]
      exact hs'

lemma norm_isOpen : t.norm.isOpen = t.isOpen := rfl

lemma feed_addByte (hopen : t.isOpen = true) (hsta : t.state ≠ .payload) (byte : Byte) :
    t.norm.feedByte c byte = (t.addByte c byte).map norm := by
  rw [feedByte, norm_isOpen, hopen, if_neg (by decide), if_neg (c := t.norm.state = .payload) hsta, addByte_norm]

variable {index n u offsetInBytes : ℕ} {chunk : Chunk}

lemma onSlice_length {key : List Byte} (h : index + n ≤ buffer.length) :
    (onSlice buffer index n (xorBytes key u)).length = buffer.length := by
  rw [onSlice, length_append, length_append, xorBytes_length, length_take, length_take, length_drop, length_drop]
  omega

lemma onSlice_drop (key : List Byte) (h : index + n ≤ buffer.length) :
    (onSlice buffer index n (xorBytes key u)).drop (index + n) = buffer.drop (index + n) ∧
    ((onSlice buffer index n (xorBytes key u)).drop index).take n = xorBytes key u ((buffer.drop index).take n) := by
  have hpre : (buffer.take index).length = index := by
    rw [length_take]
    omega
  have hmid : (xorBytes key u ((buffer.drop index).take n)).length = n := by
    rw [xorBytes_length, length_take, length_drop]
    omega
  constructor
  · have hlen : (buffer.take index ++ xorBytes key u ((buffer.drop index).take n)).length = index + n := by
      rw [length_append, hpre, hmid]
    rw [onSlice, drop_left' hlen]
  · rw [onSlice, append_assoc, drop_left' hpre, take_left' hmid]

section
variable (hali : t.masked = true → offsetInBytes % 16 = 0 ∨ buffer.length < 32)
include hali

lemma unmaskBlock_eq (h : index + n ≤ buffer.length) :
    ∃ v buffer', t.unmaskBlock offsetInBytes index n buffer = .ok ({ t with unmaskingIndex := v }, buffer') ∧
      v % 4 = (if t.masked then t.unmaskingIndex + n else t.unmaskingIndex) % 4 ∧
      buffer'.length = buffer.length ∧ buffer'.drop (index + n) = buffer.drop (index + n) ∧
      (buffer'.drop index).take n = if t.masked
        then xorBytes t.maskingBytes t.unmaskingIndex ((buffer.drop index).take n) else (buffer.drop index).take n := by
  rw [unmaskBlock]
  by_cases hmas : t.masked = true
  · obtain ⟨v, hv, hmod⟩ := unmask_eq t.maskingBytes (hali hmas) h
    obtain ⟨hrest, hblo⟩ := onSlice_drop t.maskingBytes h
    rw [if_pos hmas, if_pos hmas, if_pos hmas, hv]
    exact ⟨v, _, rfl, hmod, onSlice_length h, hrest, hblo⟩
  · rw [if_neg hmas, if_neg hmas, if_neg hmas]
    exact ⟨t.unmaskingIndex, buffer, rfl, rfl, rfl, rfl, rfl⟩

lemma addPayload_eq (hind : index < buffer.length) (hpos : 0 < t.remainingPayloadBytes) :
    ∃ (n : ℕ) (buffer' : List Byte) (s : Transformer D T),
    0 < n ∧ index + n ≤ buffer.length ∧ n ≤ t.remainingPayloadBytes ∧
    buffer'.length = buffer.length ∧ buffer'.drop (index + n) = buffer.drop (index + n) ∧
    s.masked = t.masked ∧ s.norm = t.norm.blockAdded ((buffer.drop index).take n) ∧
    t.addPayload c offsetInBytes index buffer = (s.payloadAdded c).map fun t => (t, buffer', n) := by
  obtain ⟨n, hn⟩ : ∃ n : ℕ, min (buffer.length - index : ℤ) t.remainingPayloadBytes = n :=
    Int.eq_ofNat_of_zero_le (by omega)
  have hle : index + n ≤ buffer.length := by omega
  obtain ⟨v, buffer', hblo, hv, hlen, hrest, hsli⟩ := unmaskBlock_eq
    (t := { t with remainingPayloadBytes := t.remainingPayloadBytes - n }) hali hle
  refine ⟨n, buffer', { t with
    remainingPayloadBytes := t.remainingPayloadBytes - n
    unmaskingIndex := v
    payload := t.payload ++ (buffer'.drop index).take n }, by omega, hle, by omega, hlen, hrest, rfl, ?_, ?_⟩
  · have hleng : ((buffer.drop index).take n).length = n := by
      rw [length_take, length_drop]
      omega
    have hxor := xorBytes_congr t.maskingBytes (u := t.unmaskingIndex % 4) (v := t.unmaskingIndex)
      (by omega) ((buffer.drop index).take n)
    rw [norm, norm, blockAdded, hsli, hleng]
    rw [hxor, hv]
    cases t.masked
    · rfl
    · simp only [if_true, Nat.mod_add_mod]
  · rw [addPayload, hn]
    dsimp only
    rw [Int.toNat_natCast, hblo]
    rfl

end

lemma addLoop_eq (hali : c.serverSide = true → offsetInBytes % 16 = 0 ∨ buffer.length < 32) (fuel : ℕ)
    (hrea : Ready c t) (hind : index ≤ buffer.length) (hfuel : buffer.length - index < fuel) :
    (addLoop c offsetInBytes fuel t buffer index).map norm = t.norm.feed c (buffer.drop index) := by
  induction fuel generalizing t buffer index with
  | zero => omega
  | succ fuel ih =>
    rw [addLoop]
    by_cases hlast : index = buffer.length
    · rw [List.getElem?_eq_none (by omega), drop_of_length_le (by omega)]
      rfl
    have hlt : index < buffer.length := by omega
    rw [List.getElem?_eq_getElem hlt]
    dsimp only
    by_cases hopen : t.isOpen = true
    · rw [hopen]
      by_cases hsta : t.state = .payload
      · have hmask := hrea.masked (.inr hsta)
        rw [if_pos hsta]
        by_cases hneg : t.remainingPayloadBytes < 0
        · have hmin : min (buffer.length - index : ℤ) t.remainingPayloadBytes < 0 := by omega
          rw [addPayload, if_pos hmin, drop_eq_getElem_cons hlt, feed_cons, feedByte, norm_isOpen,
            hopen, if_neg (by decide), if_pos (c := t.norm.state = .payload) hsta,
            if_pos (c := t.norm.remainingPayloadBytes < 0) hneg]
          rfl
        have hpos : 0 < t.remainingPayloadBytes := by
          have := hrea.remaining hsta
          omega
        obtain ⟨n, buffer', s, hn, hle, hrem, hlen, hrest, hsm, hnorm, hadd⟩ := addPayload_eq
          (fun h => hali (hmask ▸ h)) hlt hpos
        have hleng : ((buffer.drop index).take n).length = n := by
          rw [length_take, length_drop]
          omega
        have hfeed := feed_payload c (t := t.norm) hsta ((buffer.drop index).take n)
          (ne_nil_of_length_pos (by omega)) (by rw [hleng]; exact hrem)
        rw [← hnorm, payloadAdded_norm] at hfeed
        rw [hadd, ← take_append_drop n (buffer.drop index), feed_append, hfeed, drop_drop]
        cases hs : s.payloadAdded c with
        | error e => rfl
        | ok t' =>
          have hready := gives_payloadAdded (hsm.trans hmask)
          rw [hs] at hready
          have hloop := ih (hlen ▸ hali) hready (show index + n ≤ buffer'.length by omega) (by omega)
          rw [hrest] at hloop
          exact hloop
      · rw [if_neg hsta, drop_eq_getElem_cons hlt, feed_cons, feed_addByte hopen hsta]
        cases hbyte : t.addByte c buffer[index] with
        | error e => rfl
        | ok t' =>
          have hready := gives_addByte hrea hsta buffer[index]
          rw [hbyte] at hready
          exact ih hali hready hlt (by omega)
    · rw [Bool.not_eq_true] at hopen
      rw [hopen, feed_closed c (t := t.norm) hopen]
      rfl

lemma add_eq (hrea : Ready c t) (hopen : t.isOpen = true) (hali : c.serverSide = true → chunk.Viewable) :
    (t.add c chunk).map norm = t.norm.feed c chunk.bytes := by
  rw [isOpen, Bool.and_eq_true, decide_eq_true_eq, decide_eq_true_eq] at hopen
  rw [add, if_neg hopen.1, if_neg hopen.2]
  exact addLoop_eq hali _ hrea (Nat.zero_le _) (by omega)

lemma ready_add (hrea : Ready c t) (hadd : (t.add c chunk).map norm = t.norm.feed c chunk.bytes)
    (h : t.add c chunk = .ok t') : Ready c t' := by
  rw [h] at hadd
  have hgives := gives_feed (t := t.norm) ⟨hrea.1, hrea.2⟩ fun hneg => by
    rw [feed_of_readsNegative hneg] at hadd
    cases hadd
  rw [← hadd] at hgives
  exact ⟨hgives.1, hgives.2⟩

lemma add_throws_iff : (∀ chunk, ∃ message, t.add c chunk = .error (.webSocketException message)) ↔
    t.isOpen = false := by
  constructor
  · intro h
    obtain ⟨message, hm⟩ := h ⟨0, []⟩
    by_contra hopen
    rw [Bool.not_eq_false, isOpen, Bool.and_eq_true, decide_eq_true_eq, decide_eq_true_eq] at hopen
    rw [add, if_neg hopen.1, if_neg hopen.2] at hm
    cases hm
  · intro hopen chunk
    rw [add]
    split_ifs with hclosed hfailure
    · exact ⟨_, rfl⟩
    · exact ⟨_, rfl⟩
    · rw [isOpen, decide_eq_true hclosed, decide_eq_true hfailure] at hopen
      cases hopen

lemma addChunks_eq (chunks : List Chunk) (hrea : Ready c t)
    (hali : c.serverSide = true → ∀ chunk ∈ chunks, chunk.Viewable) :
    ((∀ s, t.norm.feed c (chunks.flatMap Chunk.bytes) = .ok s → s.isOpen = true) →
    (t.addChunks c chunks).map norm = t.norm.feed c (chunks.flatMap Chunk.bytes)) ∧
    (Gives (Ready c) (t.addChunks c chunks) ↔ Gives (Ready c) (t.norm.feed c (chunks.flatMap Chunk.bytes))) := by
  induction chunks generalizing t with
  | nil => exact ⟨fun _ => rfl, fun h => ⟨h.1, h.2⟩, fun h => ⟨h.1, h.2⟩⟩
  | cons chunk chunks ih =>
    by_cases htop : t.isOpen = true
    · have hadd := add_eq hrea htop fun hs => hali hs chunk mem_cons_self
      rw [flatMap_cons, feed_append, ← hadd, addChunks, foldlM_cons]
      cases hs : t.add c chunk with
      | error e => exact ⟨fun _ => rfl, Iff.rfl⟩
      | ok s => exact ih (ready_add hrea hadd hs) fun hside x hx => hali hside x (mem_cons_of_mem _ hx)
    · rw [Bool.not_eq_true] at htop
      rw [feed_closed c (t := t.norm) htop]
      constructor
      · intro hopen
        have := hopen _ rfl
        rw [norm_isOpen, htop] at this
        cases this
      · obtain ⟨message, hm⟩ := add_throws_iff.2 htop chunk
        rw [addChunks, foldlM_cons, hm]
        exact ⟨fun _ => ⟨hrea.1, hrea.2⟩, fun _ => trivial⟩

/-- Aligned chunks meet only errors meant for the caller exactly when no payload of negative length is read. -/
theorem add_reports_iff (c : Config D T) :
    (∀ chunks : List Chunk, (c.serverSide = true → ∀ chunk ∈ chunks, chunk.Viewable) →
      (Gives (Ready c) (addChunks c {} chunks) ↔ ¬ReadsNegative c {} (chunks.flatMap Chunk.bytes))) ∧
    (∀ (t r : Transformer D T) (buffer buffer' : List Byte) (offsetInBytes index n : ℕ), index < buffer.length →
      t.addPayload c offsetInBytes index buffer = .ok (r, buffer', n) → index + n ≤ buffer.length) ∧
    ∀ t : Transformer D T, (∀ chunk, ∃ message, t.add c chunk = .error (.webSocketException message)) ↔
      t.isOpen = false := by
  refine ⟨fun chunks hali => ?_, ?_, fun t => add_throws_iff⟩
  · have hrea : Ready c {} := ready_of_state nofun nofun
    rw [(addChunks_eq chunks hrea hali).2]
    refine ⟨fun h hneg => ?_, gives_feed hrea⟩
    rwa [show feed c (norm {}) _ = _ from feed_of_readsNegative hneg] at h
  · intro t r buffer buffer' offsetInBytes index n hind h
    rw [addPayload] at h
    split_ifs at h
    obtain ⟨⟨s, _⟩, -, h⟩ := except_bind_ok h
    obtain ⟨s', -, h⟩ := except_bind_ok h
    cases h
    omega

theorem add_negative_view : addChunks (⟨false, none, some⟩ : Config Unit (List Byte)) {}
    [⟨0, [0x82, 127, 0x80, 0, 0, 0, 0, 0, 0, 0, 0]⟩] = .error .rangeError :=
  rfl

end Loop
end Transformer
end DartSdk.WebSocket
