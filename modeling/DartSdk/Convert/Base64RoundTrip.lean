import DartSdk.Convert.Base64DecoderCorrect
import DartSdk.Convert.Base64EncoderCorrect

namespace DartSdk.Convert.Base64
open List Base64Decoder
open Base64Encoder (Byte ints)

def encodeParts (urlSafe : Bool) (state : ℕ) : List (List Byte) → List Byte → Option (List (List ℕ))
  | [], last => do
    let (_, buffer) ← Base64Encoder.encode urlSafe state (ints last) true
    some buffer.toList
  | part :: parts, last => do
    let (state, buffer) ← Base64Encoder.encode urlSafe state (ints part) false
    let buffers ← encodeParts urlSafe state parts last
    some (buffer.toList ++ buffers)

def decodeParts (state : ℤ) : List (List ℕ) → Except Error (ℤ × List (List ℕ))
  | [] => .ok (state, [])
  | part :: parts => do
    let (state, buffer) ← decode state part 0 part
    let (state, buffers) ← decodeParts state parts
    .ok (state, buffer.toList ++ buffers)

def decodeAndClose (parts : List (List ℕ)) : Except Error (List (List ℕ)) := do
  let (state, buffers) ← decodeParts 0 parts
  let _ ← close state none none
  .ok buffers

inductive Escaped : List ℕ → List ℕ → Prop
  | nil : Escaped [] []
  | keep (char : ℕ) {text text' : List ℕ} : Escaped text text' →
      Escaped (char :: text) (char :: text')
  | escape {d : ℕ} {text text' : List ℕ} : d = 0x44 ∨ d = 0x64 → Escaped text text' →
      Escaped (0x3d :: text) (0x25 :: 0x33 :: d :: text')

section
variable (urlSafe : Bool)

lemma toList_buffer (output : List ℕ) :
    ((if output = [] then none else some output : Option (List ℕ)).toList).flatten = output := by
  by_cases h : output = []
  · rw [h]
    rfl
  · rw [if_neg h]
    simp

lemma encodeParts_eq (parts : List (List Byte)) (last : List Byte) : ∀ {p : List Byte}, p.length < 3 → ∃ buffers,
    encodeParts urlSafe (Base64Encoder.stateOf p) parts last = some buffers ∧
    buffers.flatten = Base64Encoder.base64 urlSafe (p ++ parts.flatten ++ last) := by
  induction parts with
  | nil =>
    intro p hp
    rw [encodeParts, Base64Encoder.encode_eq urlSafe hp]
    refine ⟨_, rfl, ?_⟩
    rw [toList_buffer, flatten_nil, append_nil]
    rfl
  | cons part parts ih =>
    intro p hp
    have hleft : (Base64Encoder.leftover (p ++ part)).length < 3 := by
      rw [Base64Encoder.length_leftover]
      omega
    obtain ⟨buffers, hb, hflat⟩ := ih hleft
    rw [encodeParts, Base64Encoder.encode_eq urlSafe hp]
    simp only [Option.bind_eq_bind, Option.bind_some, Bool.false_eq_true, if_false, hb]
    refine ⟨_, rfl, ?_⟩
    have happend := Base64Encoder.base64_append urlSafe (p ++ part) (parts.flatten ++ last)
    rw [flatten_append, toList_buffer, hflat, flatten_cons]
    simp only [append_assoc] at happend ⊢
    rw [happend]
    rfl

end

section

open Base64Decoder (Sextet IsDigit Final)

def six (n : ℕ) : Sextet := ⟨n % 64, Nat.mod_lt n (by decide)⟩

def digits : List Byte → List Sextet
  | a :: b :: c :: rest =>
    [six (a.val / 4), six (a.val % 4 * 16 + b.val / 16), six (b.val % 16 * 4 + c.val / 64), six c.val] ++ digits rest
  | [a, b] => [six (a.val / 4), six (a.val % 4 * 16 + b.val / 16), six (b.val % 16 * 4)]
  | [a] => [six (a.val / 4), six (a.val % 4 * 16)]
  | [] => []

def paddings : List Byte → List ℕ
  | _ :: _ :: _ :: rest => paddings rest
  | [_, _] => [0x3d]
  | [_] => [0x3d, 0x3d]
  | [] => []

lemma isDigit_code (urlSafe : Bool) (s : Sextet) : IsDigit (Base64Encoder.code urlSafe s.val) s := by
  have h : ∀ (urlSafe : Bool) (s : Sextet), Base64Encoder.code urlSafe s.val ≤ 127 ∧
      inverseAlphabet.getD (Base64Encoder.code urlSafe s.val) (-2) = (s.val : ℤ) := by
    decide
  exact h urlSafe s

lemma code_six (urlSafe : Bool) {n : ℕ} (h : n < 64) :
    Base64Encoder.code urlSafe (six n).val = Base64Encoder.code urlSafe n := by
  rw [six]
  dsimp only
  rw [Nat.mod_eq_of_lt h]

lemma base64_eq (urlSafe : Bool) : ∀ bytes : List Byte, Base64Encoder.base64 urlSafe bytes =
    (digits bytes).map (fun s => Base64Encoder.code urlSafe s.val) ++ paddings bytes
  | [] => rfl
  | [a] => by
    simp only [digits, map_cons, map_nil]
    rw [code_six urlSafe (by omega), code_six urlSafe (by omega)]
    rfl
  | [a, b] => by
    simp only [digits, map_cons, map_nil]
    rw [code_six urlSafe (by omega), code_six urlSafe (by omega), code_six urlSafe (by omega)]
    rfl
  | a :: b :: c :: rest => by
    have ih := base64_eq urlSafe rest
    rw [Base64Encoder.base64] at ih
    rw [Base64Encoder.base64, Base64Encoder.groups, Base64Encoder.leftover, append_assoc, ih, digits, map_append]
    simp only [map_cons, map_nil]
    rw [code_six urlSafe (by omega), code_six urlSafe (by omega), code_six urlSafe (by omega)]
    rfl

def Ends (q : List Sextet) (pad : List ℕ) : Prop :=
  (q = [] ∧ pad = []) ∨ (Final q ∧ pad = List.replicate (4 - q.length) 0x3d)

lemma ends_digits : ∀ bytes : List Byte, Ends (leftover (digits bytes)) (paddings bytes) ∧
      groups (digits bytes) ++ finalGroup (leftover (digits bytes)) = bytes.map Fin.val
  | [] => ⟨.inl ⟨rfl, rfl⟩, rfl⟩
  | [a] => by
    refine ⟨.inr ⟨?_, rfl⟩, ?_⟩
    · change (a.val % 4 * 16) % 64 % 16 = 0
      omega
    · change [a.val / 4 % 64 * 4 + (a.val % 4 * 16) % 64 / 16] = [a.val]
      congr 1
      omega
  | [a, b] => by
    refine ⟨.inr ⟨?_, rfl⟩, ?_⟩
    · change (b.val % 16 * 4) % 64 % 4 = 0
      omega
    · change [a.val / 4 % 64 * 4 + (a.val % 4 * 16 + b.val / 16) % 64 / 16,
        (a.val % 4 * 16 + b.val / 16) % 64 % 16 * 16 + (b.val % 16 * 4) % 64 / 4] = [a.val, b.val]
      congr 1
      · omega
      · congr 1
        omega
  | a :: b :: c :: rest => by
    obtain ⟨hends, hbytes⟩ := ends_digits rest
    refine ⟨hends, ?_⟩
    change [a.val / 4 % 64 * 4 + (a.val % 4 * 16 + b.val / 16) % 64 / 16,
      (a.val % 4 * 16 + b.val / 16) % 64 % 16 * 16 + (b.val % 16 * 4 + c.val / 64) % 64 / 4,
      (b.val % 16 * 4 + c.val / 64) % 64 % 4 * 64 + c.val % 64] ++ groups (digits rest) ++
        finalGroup (leftover (digits rest)) = _
    rw [append_assoc, map_cons, map_cons, map_cons]
    simp only [cons_append, nil_append]
    congr 1
    · omega
    · congr 1
      · omega
      · congr 1
        omega

end

section

open Base64Decoder (Sextet IsDigit Final padRun encodePaddingState)
variable {parts : List (List ℕ)} {part chars pad : List ℕ} {q p : List Sextet}

lemma decodeParts_cons {state state' : ℤ}
    {buffer : Option (List ℕ)} (h : decode state part 0 part = .ok (state', buffer)) :
    decodeParts state (part :: parts) = (decodeParts state' parts).map fun r => (r.1, buffer.toList ++ r.2) := by
  rw [decodeParts, h]
  change (do
    let r ← decodeParts state' parts
    Except.ok (r.1, buffer.toList ++ r.2)) = _
  cases decodeParts state' parts <;> rfl

lemma decodeParts_padding (parts : List (List ℕ)) : ∀ {e : ℕ}, e ≤ 5 → padRun e parts.flatten = some 0 →
    decodeParts (encodePaddingState e) parts = .ok (encodePaddingState 0, []) := by
  induction parts with
  | nil =>
    intro e _ h
    rw [show e = 0 from Option.some.inj h]
    rfl
  | cons part parts ih =>
    intro e he h
    rw [flatten_cons, padRun_append, Option.bind_eq_some_iff] at h
    obtain ⟨e1, h1, h2⟩ := h
    rw [decodeParts_cons (decode_more part 0 he h1), ih ((padRun_le h1).trans he) h2]
    rfl

def Fits (q : List Sextet) (pad : List ℕ) : Prop :=
  (q = [] ∧ pad = []) ∨ (Final q ∧ ∃ char rest, pad = char :: rest ∧ (char = paddingChar ∨ char = charPercent) ∧
    padRun ((3 - q.length) * 3 + if char = charPercent then 2 else 0) rest = some 0)

lemma final_length (h : Final q) : q.length = 2 ∨ q.length = 3 := by
  match q, h with
  | [_, _], _ => exact .inl rfl
  | [_, _, _], _ => exact .inr rfl

def Decodes (p ds : List Sextet) (parts : List (List ℕ)) : Prop :=
  ∃ state buffers, decodeParts (stateOf p : ℤ) parts = .ok (state, buffers) ∧
    (state = 0 ∨ state = encodePaddingState 0) ∧ buffers.flatten = groups (p ++ ds) ++ finalGroup (leftover (p ++ ds))

lemma Decodes.digits {ds1 ds2 : List Sextet} (hp : p.length < 4)
    (h1 : List.Forall₂ IsDigit part ds1) (h2 : Decodes (leftover (p ++ ds1)) ds2 parts) :
    Decodes p (ds1 ++ ds2) (part :: parts) := by
  obtain ⟨state, buffers, hs, hend, hbuf⟩ := h2
  rw [Decodes, decodeParts_cons (decode_digits part 0 hp h1), hs]
  refine ⟨state, _, rfl, hend, ?_⟩
  rw [← append_assoc p, leftover_append (p ++ ds1), groups_append (p ++ ds1), flatten_append, hbuf]
  simp

lemma Decodes.padding {ds : List Sextet} {pad1 : List ℕ} {char : ℕ}
    (hp : p.length < 4) (hd : List.Forall₂ IsDigit chars ds)
    (hfits : Fits (leftover (p ++ ds)) (char :: pad1 ++ parts.flatten)) :
    Decodes p ds ((chars ++ char :: pad1) :: parts) := by
  rcases hfits with ⟨-, hpad⟩ | ⟨hfinal, char', rest, hpad, hchar, hrun⟩
  · cases hpad
  · have hlen := final_length hfinal
    rw [cons_append] at hpad
    obtain ⟨rfl, rfl⟩ := hpad
    rw [padRun_append, Option.bind_eq_some_iff] at hrun
    obtain ⟨e, h1, h2⟩ := hrun
    have he : e ≤ 5 := by
      have := padRun_le h1
      split at this <;> omega
    rw [Decodes, decodeParts_cons (decode_padding _ 0 hp hd hfinal hchar h1), decodeParts_padding parts he h2]
    refine ⟨_, _, rfl, .inr rfl, ?_⟩
    simp

lemma decodeParts_eq (parts : List (List ℕ)) : ∀ {p ds : List Sextet} {chars pad : List ℕ},
    p.length < 4 → List.Forall₂ IsDigit chars ds → parts.flatten = chars ++ pad →
    Fits (leftover (p ++ ds)) pad → Decodes p ds parts := by
  induction parts with
  | nil =>
    intro p ds chars pad hp hd hflat hfits
    rw [flatten_nil, eq_comm, append_eq_nil_iff] at hflat
    obtain ⟨rfl, rfl⟩ := hflat
    cases hd
    rw [Decodes]
    rw [append_nil, leftover_of_lt hp] at hfits ⊢
    rcases hfits with ⟨rfl, -⟩ | ⟨-, char, rest, hpad, -⟩
    · exact ⟨_, [], rfl, .inl rfl, rfl⟩
    · cases hpad
  | cons part parts ih =>
    intro p ds chars pad hp hd hflat hfits
    have hdigits {chars2 : List ℕ} (hchars : chars = part ++ chars2) (hrest : parts.flatten = chars2 ++ pad) :
        Decodes p ds (part :: parts) := by
      subst hchars
      have h1 := List.forall₂_take part.length hd
      have h2 := List.forall₂_drop part.length hd
      rw [take_left] at h1
      rw [drop_left] at h2
      rw [← take_append_drop part.length ds, ← append_assoc, leftover_append] at hfits
      rw [← take_append_drop part.length ds]
      refine .digits hp h1 (ih ?_ h2 hrest hfits)
      rw [length_leftover]
      omega
    -- the part has digits only, or it also has the beginning of the padding
    rcases append_eq_append_iff.1 hflat with ⟨chars2, hchars, hrest⟩ | ⟨pad1, rfl, rfl⟩
    · exact hdigits hchars hrest
    · cases pad1 with
      | nil => exact @hdigits [] (by simp) rfl
      | cons char pad1 => exact .padding hp hd hfits

lemma Escaped.append : ∀ {text : List ℕ}, (∀ char ∈ chars, char ≠ 0x3d) →
    Escaped (chars ++ pad) text → ∃ pad', text = chars ++ pad' ∧ Escaped pad pad' := by
  induction chars with
  | nil => exact fun _ h => ⟨_, rfl, h⟩
  | cons char chars ih =>
    intro text hne h
    cases h with
    | keep _ h =>
      obtain ⟨pad', rfl, h'⟩ := ih (fun c hc => hne c (mem_cons_of_mem _ hc)) h
      exact ⟨pad', rfl, h'⟩
    | escape _ _ => exact absurd rfl (hne 0x3d mem_cons_self)

variable {text : List ℕ}

lemma Escaped.eq_nil (h : Escaped [] text) : text = [] := by
  cases h
  rfl

lemma padRun_escaped (h : Escaped [0x3d] text) : padRun 3 text = some 0 := by
  cases h with
  | keep _ h =>
    rw [h.eq_nil]
    rfl
  | escape hd h =>
    rw [h.eq_nil]
    rcases hd with rfl | rfl <;> rfl

lemma Ends.fits {pad' : List ℕ} (h : Ends q pad) (he : Escaped pad pad') : Fits q pad' := by
  rcases h with ⟨rfl, rfl⟩ | ⟨hfinal, rfl⟩
  · exact .inl ⟨rfl, he.eq_nil⟩
  · refine .inr ⟨hfinal, ?_⟩
    rcases final_length hfinal with hlen | hlen
    · rw [hlen] at he ⊢
      cases he with
      | keep _ h => exact ⟨_, _, rfl, .inl rfl, padRun_escaped h⟩
      | escape hd h =>
        refine ⟨_, _, rfl, .inr rfl, ?_⟩
        have hrest := padRun_escaped h
        rcases hd with rfl | rfl <;> exact hrest
    · rw [hlen] at he ⊢
      cases he with
      | keep _ h => exact ⟨_, _, rfl, .inl rfl, by rw [h.eq_nil]; rfl⟩
      | escape hd h =>
        refine ⟨_, _, rfl, .inr rfl, ?_⟩
        rw [h.eq_nil]
        rcases hd with rfl | rfl <;> rfl

lemma forall₂_code (urlSafe : Bool) (ds : List Sextet) :
    List.Forall₂ IsDigit (ds.map fun s => Base64Encoder.code urlSafe s.val) ds := by
  induction ds with
  | nil => exact .nil
  | cons s ds ih => exact .cons (isDigit_code urlSafe s) ih

lemma decodeAndClose_eq (urlSafe : Bool) (bytes : List Byte)
    (h : Escaped (Base64Encoder.base64 urlSafe bytes) text) (hparts : parts.flatten = text) :
    ∃ buffers, decodeAndClose parts = .ok buffers ∧ buffers.flatten = bytes.map Fin.val := by
  obtain ⟨hends, hbytes⟩ := ends_digits bytes
  have hd := forall₂_code urlSafe (digits bytes)
  rw [base64_eq] at h
  obtain ⟨pad, rfl, hpad⟩ := h.append fun char hc => (ne_of_digits hd char hc).1
  have hzero : ([] : List Sextet).length < 4 := by decide
  obtain ⟨state, buffers, hs, hend, hbuf⟩ := decodeParts_eq parts hzero hd hparts (by exact hends.fits hpad)
  refine ⟨buffers, ?_, ?_⟩
  · have hs' : decodeParts 0 parts = .ok (state, buffers) := hs
    rw [decodeAndClose, hs']
    rcases hend with rfl | rfl <;> rfl
  · rw [hbuf]
    exact hbytes

end

theorem base64_roundTrip (urlSafe : Bool) (bytes : List Byte) :
    (∀ (parts : List (List Byte)) (last : List Byte), parts.flatten ++ last = bytes →
      ∃ buffers, encodeParts urlSafe 0 parts last = some buffers ∧
        buffers.flatten = Base64Encoder.base64 urlSafe bytes) ∧
    ∀ (text : List ℕ) (parts : List (List ℕ)), Escaped (Base64Encoder.base64 urlSafe bytes) text →
      parts.flatten = text → ∃ buffers, decodeAndClose parts = .ok buffers ∧ buffers.flatten = bytes.map Fin.val := by
  refine ⟨fun parts last hparts => ?_, fun text parts h hparts => ?_⟩
  · obtain ⟨buffers, hb, hflat⟩ :=
      encodeParts_eq urlSafe parts last (show ([] : List Byte).length < 3 by decide)
    exact ⟨buffers, hb, by rw [hflat, nil_append, hparts]⟩
  · exact decodeAndClose_eq urlSafe bytes h hparts

theorem base64_roundTrip_escaped : (∃ buffers, encodeParts false 0 [[77]] [97] = some buffers ∧
      buffers.flatten = Base64Encoder.base64 false [77, 97]) ∧
    ∃ buffers, decodeAndClose [[0x54, 0x57], [0x45, 0x25], [0x33, 0x64]] = .ok buffers ∧ buffers.flatten = [77, 97] := by
  have h := base64_roundTrip false [77, 97]
  refine ⟨h.1 [[77]] [97] rfl, h.2 _ [[0x54, 0x57], [0x45, 0x25], [0x33, 0x64]] ?_ rfl⟩
  exact .keep 0x54 (.keep 0x57 (.keep 0x45 (.escape (.inr rfl) .nil)))

end DartSdk.Convert.Base64
