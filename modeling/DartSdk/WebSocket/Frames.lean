import DartSdk.WebSocket.Chunks
import Mathlib.Tactic.Ring

namespace DartSdk.WebSocket

open List Nat Assembly
variable {D T : Type}

inductive Opcode
  | continuation
  | text
  | binary
  | ping
  | pong
deriving DecidableEq

def Opcode.toNat : Opcode → ℕ
  | continuation => 0
  | text => 1
  | binary => 2
  | ping => 9
  | pong => 10

def Opcode.isControl : Opcode → Bool
  | ping | pong => true
  | _ => false

structure Key where
  b₀ : Byte
  b₁ : Byte
  b₂ : Byte
  b₃ : Byte

def Key.toList (k : Key) : List Byte := [k.b₀, k.b₁, k.b₂, k.b₃]

structure Frame where
  fin : Bool
  rsv1 : Bool
  opcode : Opcode
  /-- The masking key, if the frame is sent by a client. -/
  key : Key
  payload : List Byte
  fits : payload.length < 2 ^ 63
  control : opcode.isControl = true → fin = true ∧ payload.length ≤ 125

def bigEndian : ℕ → ℕ → List Byte
  | 0, _ => []
  | k + 1, n => UInt8.ofNat (n / 256 ^ k) :: bigEndian k n

def lengthBytes (maskBit : Byte) (n : ℕ) : List Byte :=
  if n < 126 then [maskBit ||| UInt8.ofNat n]
  else if n < 65536 then (maskBit ||| 126) :: bigEndian 2 n
  else (maskBit ||| 127) :: bigEndian 8 n

namespace Frame

def head (f : Frame) : Byte :=
  (if f.fin then 0x80 else 0) ||| (if f.rsv1 then 0x40 else 0) ||| UInt8.ofNat f.opcode.toNat

def maskedPayload (f : Frame) : List Byte :=
  f.payload.mapIdx fun i byte => byte ^^^ f.key.toList.getD (i % 4) 0

def bytes (serverSide : Bool) (f : Frame) : List Byte :=
  f.head :: if serverSide then lengthBytes 0x80 f.payload.length ++ (f.key.toList ++ f.maskedPayload)
    else lengthBytes 0 f.payload.length ++ f.payload

end Frame

namespace Assembly

variable (c : Config D T) (a : Assembly D T) (f : Frame)

def begin : Except Error (Assembly D T) :=
  match f.opcode with
  | .continuation => if a.currentMessageType = .none then .error protocolError else .ok a
  | .text =>
    if a.currentMessageType ≠ .none then .error protocolError
    else .ok { a with compressed := f.rsv1, currentMessageType := .text }
  | .binary =>
    if a.currentMessageType ≠ .none then .error protocolError
    else .ok { a with compressed := f.rsv1, currentMessageType := .binary }
  | .ping | .pong => .ok { a with compressed := f.rsv1 }

def sendControl (event : Option (List Byte) → Event T) : Assembly D T :=
  if f.payload = [] then { a with events := a.events ++ [event none] }
  else { a with payload := [], events := a.events ++ [event (some (a.payload ++ f.payload))] }

def finish : Except Error (Assembly D T) :=
  match f.opcode with
  | .ping => .ok (a.sendControl f .ping)
  | .pong => .ok (a.sendControl f .pong)
  | _ =>
    let a := { a with payload := a.payload ++ f.payload }
    if f.fin then a.messageEnd c else .ok a

def frame : Except Error (Assembly D T) := (a.begin f).bind fun a => a.finish c f

end Assembly

namespace Transformer

variable (c : Config D T)

structure Idle (t : Transformer D T) : Prop where
  state : t.state = .start
  remaining : t.remainingMaskingKeyBytes = 4
  index : t.unmaskingIndex = 0
  bytes : t.maskingBytes.length = 4

def Reaches (r : Except Error (Transformer D T)) : Except Error (Assembly D T) → Prop
  | .ok a => ∃ t, r = .ok t ∧ Idle t ∧ t.toAssembly = a
  | .error e => r = .error e

section
variable {c} {t : Transformer D T} {f : Frame}

lemma bind_feed_nil (r : Except Error (Transformer D T)) : (r.bind fun t => t.feed c []) = r := by cases r <;> rfl

lemma feedByte_start (hsta : t.state = .start) (byte : Byte) : t.feedByte c byte = t.addStart byte := by
  rw [feedByte, isOpen, addByte, hsta]
  rfl

lemma head_bits (f : Frame) : f.head &&& (0x20 ||| 0x10) = 0 ∧
    decide (f.head &&& 0x80 ≠ 0) = f.fin ∧ decide (f.head &&& 0x40 ≠ 0) = f.rsv1 ∧
    (f.head &&& 0xF).toNat = f.opcode.toNat := by
  rw [Frame.head]
  cases f.fin <;> cases f.rsv1 <;> cases f.opcode <;> decide

lemma feed_head (hsta : t.state = .start) : t.feedByte c f.head = (t.toAssembly.begin f).map
    fun a => { t with toAssembly := a, fin := f.fin, opcode := f.opcode.toNat, state := .lenFirst } := by
  obtain ⟨hrsv, hfin, hrsv1, hopc⟩ := head_bits f
  have hcon := f.control
  rw [feedByte_start hsta, addStart, if_neg (not_not_intro hrsv), hfin, hrsv1, hopc, begin]
  cases hop : f.opcode with
  | continuation | text | binary =>
    simp only [Opcode.toNat]
    by_cases htype : t.currentMessageType = .none <;> simp [htype, Except.map]
  | ping | pong =>
    rw [(hcon (by rw [hop]; rfl)).1]
    rfl

variable {n v : ℕ}

lemma length_bits (masked : Bool) (hn : n < 128) :
    decide (((if masked then 0x80 else 0) ||| UInt8.ofNat n) &&& 0x80 ≠ 0) = masked ∧
      ((((if masked then 0x80 else 0) ||| UInt8.ofNat n) &&& 0x7F : Byte).toBitVec.setWidth 64 : BitVec 64)
        = BitVec.ofNat 64 n := by
  have hall : ∀ m : Fin 128, ∀ b : Bool,
      decide (((if b then 0x80 else 0) ||| UInt8.ofNat m) &&& 0x80 ≠ 0) = b ∧
        ((((if b then 0x80 else 0) ||| UInt8.ofNat m) &&& 0x7F : Byte).toBitVec.setWidth 64 : BitVec 64)
          = BitVec.ofNat 64 m := by decide +kernel
  exact hall ⟨n, hn⟩ masked

lemma toInt_ofNat (hn : n < 2 ^ 63) : (BitVec.ofNat 64 n).toInt = n := by
  rw [BitVec.toInt_eq_toNat_of_lt, BitVec.toNat_ofNat, mod_eq_of_lt (by omega)]
  rw [BitVec.toNat_ofNat]
  omega

lemma shift_or (b : Byte) (hv : (v + 1) * 256 ≤ 2 ^ 64) :
    BitVec.ofNat 64 v <<< 8 ||| b.toBitVec.setWidth 64 = BitVec.ofNat 64 (v * 256 + b.toNat) := by
  have hb : b.toNat < 2 ^ 8 := b.toBitVec.isLt
  apply BitVec.eq_of_toNat_eq
  rw [BitVec.toNat_or, BitVec.toNat_shiftLeft, BitVec.toNat_ofNat, BitVec.toNat_ofNat,
    BitVec.toNat_setWidth, UInt8.toNat_toBitVec, mod_eq_of_lt (by omega),
    mod_eq_of_lt (by omega), mod_eq_of_lt (by omega),
    shiftLeft_eq, mod_eq_of_lt (by omega), Nat.mul_comm,
    ← two_pow_add_eq_or_of_lt hb]

lemma feedByte_lenRest (hsta : t.state = .lenRest) (byte : Byte) : t.feedByte c byte = t.addLenRest c byte := by
  rw [feedByte, isOpen, addByte, hsta]
  rfl

lemma feed_bigEndian {k : ℕ} (hsta : t.state = .lenRest) (hk : 0 < k)
    (hrem : t.remainingLenBytes = k) (hlen : t.len = BitVec.ofNat 64 v) (hfits : (v + 1) * 256 ^ k ≤ 2 ^ 64) :
    t.feed c (bigEndian k n) = { t with
      len := BitVec.ofNat 64 (v * 256 ^ k + n % 256 ^ k), remainingLenBytes := 0 }.lengthDone c := by
  induction k generalizing t v with
  | zero => omega
  | succ k ih =>
    have hpos : 0 < 256 ^ k := Nat.pow_pos (by decide)
    have hle : (v + 1) * 256 ≤ 2 ^ 64 := by
      refine le_trans ?_ hfits
      rw [Nat.pow_succ, Nat.mul_comm (256 ^ k), ← Nat.mul_assoc]
      exact Nat.le_mul_of_pos_right _ hpos
    have hval : v * 256 ^ (k + 1) + n % 256 ^ (k + 1) = (v * 256 + n / 256 ^ k % 256) * 256 ^ k + n % 256 ^ k := by
      rw [Nat.mod_pow_succ]
      ring
    rw [bigEndian, feed_cons, feedByte_lenRest hsta, addLenRest, hlen, shift_or _ hle]
    dsimp only
    by_cases hzero : k = 0
    · subst hzero
      have hdone : t.remainingLenBytes - 1 = 0 := by omega
      rw [hval, hdone, pow_zero, mod_one, mul_one, add_zero]
      exact bind_feed_nil _
    · rw [if_neg (by omega), hval]
      have := ih (t := { t with
        len := BitVec.ofNat 64 (v * 256 + n / 256 ^ k % 256)
        remainingLenBytes := t.remainingLenBytes - 1 }) hsta
        (by omega) (by dsimp only; omega) rfl (by
          refine le_trans (mul_le_mul_right _ ?_) (le_of_eq_of_le (b := (v + 1) * 256 * 256 ^ k) rfl ?_)
          · omega
          · rw [Nat.pow_succ, Nat.mul_comm (256 ^ k), ← Nat.mul_assoc] at hfits
            exact hfits)
      exact this

lemma feedByte_lenFirst (hsta : t.state = .lenFirst) (byte : Byte) : t.feedByte c byte = t.addLenFirst c byte := by
  rw [feedByte, isOpen, addByte, hsta]
  rfl

lemma ofNat_inj {m : ℕ} (hn : n < 2 ^ 64) (hm : m < 2 ^ 64) : BitVec.ofNat 64 n = BitVec.ofNat 64 m ↔ n = m := by
  rw [← BitVec.toNat_inj, BitVec.toNat_ofNat, BitVec.toNat_ofNat, mod_eq_of_lt hn, mod_eq_of_lt hm]

lemma addLenFirst_long (hsta : t.state = .lenFirst) (masked long : Bool) {rest : List Byte}
    (hcon : t.isControlFrame = false) :
    t.feed c (((if masked then 0x80 else 0) ||| if long then 127 else 126) :: rest) =
      { t with masked := masked, len := 0, remainingLenBytes := if long then 8 else 2,
               state := .lenRest }.feed c rest := by
  have hbyte : (if long then 127 else 126 : Byte) = UInt8.ofNat (if long then 127 else 126) := by cases long <;> rfl
  obtain ⟨hmask, hlen⟩ := length_bits masked (n := if long then 127 else 126) (by cases long <;> decide)
  rw [← hbyte] at hmask hlen
  rw [feed_cons, feedByte_lenFirst hsta, addLenFirst, hmask, hlen]
  rw [if_neg fun h => by
    have hc : t.isControlFrame = true := h.1
    rw [hcon] at hc
    cases hc]
  cases long <;> rfl

lemma feed_length (hsta : t.state = .lenFirst) (masked : Bool) (hn : n < 2 ^ 63)
    (hcon : t.isControlFrame = true → n ≤ 125) : ∃ r s, (s = .lenFirst ∨ s = .lenRest) ∧
    t.feed c (lengthBytes (if masked then 0x80 else 0) n) = { t with
      masked := masked, len := BitVec.ofNat 64 n, remainingLenBytes := r, state := s }.lengthDone c := by
  rw [lengthBytes]
  by_cases hshort : n < 126
  · obtain ⟨hmask, hlen⟩ := length_bits masked (n := n) (by omega)
    refine ⟨t.remainingLenBytes, t.state, .inl hsta, ?_⟩
    rw [if_pos hshort, feed_cons, feedByte_lenFirst hsta, addLenFirst, hmask, hlen]
    rw [if_neg fun h => by
        have := h.2
        rw [toInt_ofNat hn] at this
        omega,
      if_neg fun h => by
        have := (ofNat_inj (m := 126) (by omega) (by decide)).1 h
        omega,
      if_neg fun h => by
        have := (ofNat_inj (m := 127) (by omega) (by decide)).1 h
        omega]
    exact bind_feed_nil _
  · have hdata : t.isControlFrame = false := by
      rw [Bool.eq_false_iff]
      intro h
      have := hcon h
      omega
    refine ⟨0, .lenRest, .inr rfl, ?_⟩
    rw [if_neg hshort]
    by_cases hmedium : n < 65536
    · rw [if_pos hmedium]
      refine (addLenFirst_long hsta masked false hdata).trans ?_
      rw [feed_bigEndian (v := 0) rfl (by decide) rfl rfl (by decide), zero_mul, zero_add, mod_eq_of_lt (by omega)]
    · rw [if_neg hmedium]
      refine (addLenFirst_long hsta masked true hdata).trans ?_
      rw [feed_bigEndian (v := 0) rfl (by decide) rfl rfl (by decide), zero_mul, zero_add, mod_eq_of_lt (by omega)]

lemma feedByte_mask (hsta : t.state = .mask) (byte : Byte) : t.feedByte c byte = t.addMask c byte := by
  rw [feedByte, isOpen, addByte, hsta]
  rfl

lemma feed_key (hsta : t.state = .mask) (hrem : t.remainingMaskingKeyBytes = 4)
    (hlen : t.maskingBytes.length = 4) (key : Key) : t.feed c key.toList = { t with
      maskingBytes := key.toList, remainingMaskingKeyBytes := 0,
      remainingPayloadBytes := t.len.toInt }.startPayload c := by
  obtain ⟨k0, k1, k2, k3, hk⟩ : ∃ k0 k1 k2 k3, t.maskingBytes = [k0, k1, k2, k3] := by
    match t.maskingBytes, hlen with
    | [k0, k1, k2, k3], _ => exact ⟨k0, k1, k2, k3, rfl⟩
  have hstep : ∀ (s : Transformer D T) (n : ℤ) (byte : Byte), s.state = .mask →
      s.remainingMaskingKeyBytes = n → n ≠ 1 → s.feedByte c byte = .ok { s with
        maskingBytes := s.maskingBytes.set (4 - n).toNat byte, remainingMaskingKeyBytes := n - 1 } := by
    intro s n byte hs hn hne
    rw [feedByte_mask hs, addMask, hn]
    dsimp only
    rw [if_neg (by omega)]
  rw [Key.toList, feed_cons, hstep t 4 _ hsta hrem (by decide), Except.bind, feed_cons,
    hstep _ 3 _ (by exact hsta) (by rfl) (by decide), Except.bind, feed_cons,
    hstep _ 2 _ (by exact hsta) (by rfl) (by decide), Except.bind, feed_cons,
    feedByte_mask (by exact hsta), hk]
  exact bind_feed_nil (startPayload c _)

end

section Body
variable {c} {t : Transformer D T} {f : Frame}

section
variable (hopen : t.isOpen = true) (hlen : t.maskingBytes.length = 4)
include hopen hlen

lemma idle_prepareForNextFrame : Idle t.prepareForNextFrame := by
  rw [isOpen, Bool.and_eq_true, decide_eq_true_eq, decide_eq_true_eq] at hopen
  exact ⟨if_pos hopen, rfl, rfl, hlen⟩

lemma reaches_messageFrameEnd :
    Reaches (t.messageFrameEnd c) (if t.fin then t.toAssembly.messageEnd c else .ok t.toAssembly) := by
  rw [messageFrameEnd]
  split
  · cases t.toAssembly.messageEnd c with
    | error e => rfl
    | ok a => exact ⟨_, rfl, idle_prepareForNextFrame hopen hlen, rfl⟩
  · exact ⟨_, rfl, idle_prepareForNextFrame hopen hlen, rfl⟩

end

structure Began (t : Transformer D T) (f : Frame) : Prop where
  isOpen : t.isOpen = true
  fin : t.fin = f.fin
  opcode : t.opcode = f.opcode.toNat
  bytes : t.maskingBytes.length = 4
  type : f.opcode.isControl = false → t.currentMessageType = .text ∨ t.currentMessageType = .binary

lemma Began.isControlFrame (h : Began t f) : t.isControlFrame = f.opcode.isControl := by
  rw [Transformer.isControlFrame, h.opcode]
  cases f.opcode <;> rfl

lemma reaches_empty (h : Began t f) (hemp : f.payload = []) (hrem : t.remainingPayloadBytes = 0) :
    Reaches (t.startPayload c) (t.toAssembly.finish c f) := by
  have hopc := h.opcode
  have hend := reaches_messageFrameEnd (c := c) h.isOpen h.bytes
  rw [startPayload, if_pos hrem, h.isControlFrame, finish]
  rw [h.fin] at hend
  cases hop : f.opcode with
  | ping =>
    rw [hop] at hopc
    rw [if_pos (by rfl), if_neg (by rw [hopc]; decide), if_pos (by rw [hopc]; rfl)]
    refine ⟨_, rfl, idle_prepareForNextFrame h.isOpen h.bytes, ?_⟩
    rw [sendControl, if_pos hemp]
    rfl
  | pong =>
    rw [hop] at hopc
    rw [if_pos (by rfl), if_neg (by rw [hopc]; decide), if_neg (by rw [hopc]; decide)]
    refine ⟨_, rfl, idle_prepareForNextFrame h.isOpen h.bytes, ?_⟩
    rw [sendControl, if_pos hemp]
    rfl
  | continuation | text | binary =>
    simp only [hemp, append_nil]
    exact hend

lemma reaches_payload (h : Began t f) (hne : f.payload ≠ []) {p : List Byte}
    (hpay : t.payload = p ++ f.payload) (hrem : t.remainingPayloadBytes = 0) :
    Reaches (t.payloadAdded c) ({ t.toAssembly with payload := p }.finish c f) := by
  have hopc := h.opcode
  have hend := reaches_messageFrameEnd (c := c) h.isOpen h.bytes
  rw [payloadAdded, if_pos hrem, if_pos hrem, h.isControlFrame, finish]
  rw [h.fin] at hend
  have hdata : f.opcode.isControl = false → Reaches
      (if t.currentMessageType ≠ .text ∧ t.currentMessageType ≠ .binary then .error protocolError
        else t.messageFrameEnd c)
      (if f.fin then { t.toAssembly with payload := p ++ f.payload }.messageEnd c
        else .ok { t.toAssembly with payload := p ++ f.payload }) := by
    intro hcon
    have htype := h.type hcon
    rw [if_neg (by tauto), ← hpay]
    exact hend
  cases hop : f.opcode with
  | ping =>
    rw [hop] at hopc
    rw [if_pos (by rfl), controlFrameEnd, if_neg (by rw [hopc]; decide), if_pos (by rw [hopc]; rfl)]
    refine ⟨_, rfl, idle_prepareForNextFrame h.isOpen h.bytes, ?_⟩
    rw [sendControl, if_neg hne, ← hpay]
    rfl
  | pong =>
    rw [hop] at hopc
    rw [if_pos (by rfl), controlFrameEnd, if_neg (by rw [hopc]; decide),
      if_neg (by rw [hopc]; decide), if_pos (by rw [hopc]; rfl)]
    refine ⟨_, rfl, idle_prepareForNextFrame h.isOpen h.bytes, ?_⟩
    rw [sendControl, if_neg hne, ← hpay]
    rfl
  | continuation | text | binary => exact hdata (by rw [hop]; rfl)

lemma reaches_body (h : Began t f) (hind : t.unmaskingIndex = 0) {bytes : List Byte}
    (hrem : t.remainingPayloadBytes = f.payload.length) (hlen : bytes.length = f.payload.length)
    (hbyt : (if t.masked then xorBytes t.maskingBytes 0 bytes else bytes) = f.payload) :
    Reaches ((t.startPayload c).bind fun t => t.feed c bytes) (t.toAssembly.finish c f) := by
  by_cases hemp : f.payload = []
  · rw [hemp] at hlen hrem
    rw [length_eq_zero_iff.1 hlen, bind_feed_nil]
    exact reaches_empty h hemp hrem
  · have hpos := length_pos_iff.2 hemp
    have hstart : t.startPayload c = .ok { t with state := .payload } := by rw [startPayload, if_neg (by omega)]
    have hfeed := feed_payload c (t := { t with state := .payload }) rfl bytes
      (ne_nil_of_length_pos (by omega)) (by dsimp only; omega)
    rw [hstart]
    change Reaches (feed c _ bytes) _
    rw [hfeed]
    refine reaches_payload (t := blockAdded { t with state := .payload } bytes)
      ⟨rfl, h.fin, h.opcode, h.bytes, h.type⟩ hemp ?_ ?_
    · rw [blockAdded]
      rw [hind, hbyt]
    · rw [blockAdded]
      dsimp only
      omega

lemma xorBytes_mapIdx (key : List Byte) (u : ℕ) (l : List Byte) :
    xorBytes key u l = l.mapIdx fun i byte => byte ^^^ key.getD ((u + i) % 4) 0 := by
  induction l generalizing u with
  | nil => rfl
  | cons b l ih =>
    rw [xorBytes, ih, mapIdx_cons, and_three]
    congr 2
    funext i byte
    rw [add_assoc, add_comm 1]

lemma xorBytes_xorBytes (key : List Byte) (u : ℕ) (l : List Byte) : xorBytes key u (xorBytes key u l) = l := by
  induction l generalizing u with
  | nil => rfl
  | cons b l ih => rw [xorBytes, xorBytes, ih, UInt8.xor_assoc, UInt8.xor_self, UInt8.xor_zero]

lemma maskedPayload_eq (f : Frame) : f.maskedPayload = xorBytes f.key.toList 0 f.payload := by
  rw [xorBytes_mapIdx, Frame.maskedPayload]
  simp only [zero_add]

lemma begin_type {a a' : Assembly D T} (h : a.begin f = .ok a') (hdata : f.opcode.isControl = false) :
    a'.currentMessageType = .text ∨ a'.currentMessageType = .binary := by
  rw [begin] at h
  cases hop : f.opcode with
  | continuation =>
    rw [hop] at h
    split_ifs at h with htype
    cases h
    cases ha : a.currentMessageType with
    | none => exact absurd ha htype
    | text => exact .inl rfl
    | binary => exact .inr rfl
  | text =>
    rw [hop] at h
    split_ifs at h
    cases h
    exact .inl rfl
  | binary =>
    rw [hop] at h
    split_ifs at h
    cases h
    exact .inr rfl
  | ping | pong =>
    rw [hop] at hdata
    cases hdata

lemma reaches_frame (h : Idle t) (f : Frame) : Reaches (t.feed c (f.bytes c.serverSide)) (t.toAssembly.frame c f) := by
  rw [Frame.bytes, feed_cons, feed_head h.state, frame]
  cases ha : t.toAssembly.begin f with
  | error e => rfl
  | ok a =>
    have htype := begin_type ha
    obtain ⟨s, hs⟩ : ∃ s : Transformer D T, { t with
      toAssembly := a, fin := f.fin, opcode := f.opcode.toNat, state := .lenFirst } = s := ⟨_, rfl⟩
    change Reaches (feed c { t with
      toAssembly := a, fin := f.fin, opcode := f.opcode.toNat, state := .lenFirst } _) (a.finish c f)
    rw [hs]
    have hcon : s.isControlFrame = f.opcode.isControl := by
      rw [← hs]
      cases f.opcode <;> rfl
    obtain ⟨r, st, hst, hleng⟩ := feed_length (by rw [← hs]) c.serverSide f.fits fun hc => (f.control (hcon ▸ hc)).2
    have hopen : (decide (st ≠ .closed) && decide (st ≠ .failure)) = true := by rcases hst with rfl | rfl <;> rfl
    have hlen := toInt_ofNat f.fits
    obtain ⟨hsa, hfin, hopc, hrem, hind, hbyt⟩ : s.toAssembly = a ∧ s.fin = f.fin ∧
        s.opcode = f.opcode.toNat ∧ s.remainingMaskingKeyBytes = 4 ∧ s.unmaskingIndex = 0 ∧
          s.maskingBytes.length = 4 := by
      rw [← hs]
      exact ⟨rfl, rfl, rfl, h.remaining, h.index, h.bytes⟩
    subst hsa
    cases hside : c.serverSide with
    | false =>
      rw [hside, if_neg Bool.false_ne_true] at hleng
      rw [if_neg Bool.false_ne_true, feed_append, hleng, lengthDone, hside, if_neg Bool.false_ne_true]
      refine reaches_body (t := { s with
        masked := false, len := BitVec.ofNat 64 f.payload.length, remainingLenBytes := r, state := st,
        remainingPayloadBytes := (BitVec.ofNat 64 f.payload.length).toInt }) ?_ hind hlen rfl rfl
      exact ⟨hopen, hfin, hopc, hbyt, htype⟩
    | true =>
      have hmas : f.maskedPayload.length = f.payload.length := length_mapIdx
      rw [hside, if_pos rfl] at hleng
      rw [if_pos rfl, feed_append, hleng, lengthDone, if_pos rfl, hside]
      change Reaches (feed c _ (f.key.toList ++ f.maskedPayload)) _
      rw [feed_append, feed_key (by rfl) (by exact hrem) (by exact hbyt)]
      refine reaches_body (t := { s with
        masked := true, len := BitVec.ofNat 64 f.payload.length, remainingLenBytes := r, state := .mask,
        maskingBytes := f.key.toList, remainingMaskingKeyBytes := 0,
        remainingPayloadBytes := (BitVec.ofNat 64 f.payload.length).toInt }) ?_ hind hlen hmas ?_
      · exact ⟨rfl, hfin, hopc, rfl, htype⟩
      · rw [maskedPayload_eq]
        exact xorBytes_xorBytes _ _ _

lemma reaches_frames (frames : List Frame) (h : Idle t) : Reaches (t.feed c (frames.flatMap (Frame.bytes c.serverSide)))
      (frames.foldlM (fun a f => a.frame c f) t.toAssembly) := by
  induction frames generalizing t with
  | nil => exact ⟨t, rfl, h, rfl⟩
  | cons f frames ih =>
    have hfra := reaches_frame (c := c) h f
    rw [flatMap_cons, feed_append, foldlM_cons]
    cases ha : t.toAssembly.frame c f with
    | error e =>
      rw [ha] at hfra
      rw [show t.feed c (f.bytes c.serverSide) = .error e from hfra]
      rfl
    | ok a =>
      rw [ha] at hfra
      obtain ⟨s, hs, hidle, rfl⟩ := hfra
      rw [hs]
      exact ih hidle

end Body
end Transformer
end DartSdk.WebSocket
