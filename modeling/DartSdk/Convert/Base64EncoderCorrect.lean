import DartSdk.Convert.Base64Encoder

namespace DartSdk.Convert.Base64Encoder
open List Option
variable {p : List Byte}

abbrev Byte := Fin 256

def ints (bytes : List Byte) : List ℤ := bytes.map fun b => (b.val : ℤ)

section
variable (urlSafe : Bool)

def code (index : ℕ) : ℕ := ((alphabet urlSafe).getD index 'A').toNat

def quantum (a b c : ℕ) : List ℕ :=
  [code urlSafe (a / 4), code urlSafe (a % 4 * 16 + b / 16), code urlSafe (b % 16 * 4 + c / 64),
    code urlSafe (c % 64)]

def finalQuantum : List Byte → List ℕ
  | [a] => [code urlSafe (a.val / 4), code urlSafe (a.val % 4 * 16), paddingChar, paddingChar]
  | [a, b] => [code urlSafe (a.val / 4), code urlSafe (a.val % 4 * 16 + b.val / 16),
      code urlSafe (b.val % 16 * 4), paddingChar]
  | _ => []

def groups : List Byte → List ℕ
  | a :: b :: c :: rest => quantum urlSafe a.val b.val c.val ++ groups rest
  | _ => []

def leftover : List Byte → List Byte
  | _ :: _ :: _ :: rest => leftover rest
  | rest => rest

def base64 (bytes : List Byte) : List ℕ :=
  groups urlSafe bytes ++ finalQuantum urlSafe (leftover bytes)

end

section

lemma length_groups (urlSafe : Bool) : ∀ bytes : List Byte, (groups urlSafe bytes).length = bytes.length / 3 * 4
  | [] => rfl
  | [_] => by simp [groups]
  | [_, _] => by simp [groups]
  | _ :: _ :: _ :: rest => by
    rw [groups, length_append, length_groups urlSafe rest]
    simp only [quantum, length_cons, length_nil]
    omega

lemma length_leftover : ∀ bytes : List Byte, (leftover bytes).length = bytes.length % 3
  | [] => rfl
  | [_] => rfl
  | [_, _] => rfl
  | _ :: _ :: _ :: rest => by
    rw [leftover, length_leftover rest]
    simp only [length_cons]
    omega

lemma length_finalQuantum (urlSafe : Bool) (h : p.length < 3) :
    (finalQuantum urlSafe p).length = if 0 < p.length then 4 else 0 := by
  match p with
  | [] => rfl
  | [_] => rfl
  | [_, _] => rfl
  | _ :: _ :: _ :: _ =>
    simp only [length_cons] at h
    omega

lemma groups_append (urlSafe : Bool) : ∀ bytes more : List Byte,
    groups urlSafe (bytes ++ more) = groups urlSafe bytes ++ groups urlSafe (leftover bytes ++ more)
  | [], _ => rfl
  | [_], _ => rfl
  | [_, _], _ => rfl
  | _ :: _ :: _ :: rest, more => by
    simp only [cons_append, groups, leftover]
    rw [groups_append urlSafe rest more, append_assoc]

lemma leftover_append : ∀ bytes more : List Byte, leftover (bytes ++ more) = leftover (leftover bytes ++ more)
  | [], _ => rfl
  | [_], _ => rfl
  | [_, _], _ => rfl
  | _ :: _ :: _ :: rest, more => by
    simp only [cons_append, leftover]
    rw [leftover_append rest more]

lemma base64_append (urlSafe : Bool) (bytes more : List Byte) : base64 urlSafe (bytes ++ more) =
    groups urlSafe bytes ++ base64 urlSafe (leftover bytes ++ more) := by
  rw [base64, groups_append, leftover_append, base64, append_assoc]

end

section

lemma digit_eq (urlSafe : Bool) (i : ℕ) : digit urlSafe i = code urlSafe (i % 64) := by
  rw [digit, show 0x3F = 2 ^ 6 - 1 from rfl, Nat.and_two_pow_sub_one_eq_mod]
  rfl

def value (p : List Byte) : ℕ := p.foldl (fun n b => n * 256 + b.val) 0

lemma value_append (p : List Byte) (b : Byte) : value (p ++ [b]) = value p * 256 + b.val := by
  rw [value, foldl_append]
  rfl

lemma value_lt (h : p.length < 3) : value p < 2 ^ 16 := by
  match p with
  | [] => decide
  | [a] =>
    simp only [value, foldl_cons, foldl_nil]
    omega
  | [a, b] =>
    simp only [value, foldl_cons, foldl_nil]
    omega
  | _ :: _ :: _ :: _ =>
    simp only [length_cons] at h
    omega

lemma shift_or (n : ℕ) (b : Byte) : (n <<< 8) ||| b.val = n * 256 + b.val := by
  rw [Nat.shiftLeft_eq, Nat.mul_comm]
  exact (Nat.two_pow_add_eq_or_of_lt b.isLt n).symm

lemma nextBits {n : ℕ} (h : n < 2 ^ 16) (b : Byte) :
    ((((n <<< 8 : ℕ) : ℤ).lor (b.val : ℤ)).land 0xFFFFFF).toNat = n * 256 + b.val := by
  change ((n <<< 8) ||| b.val) &&& 0xFFFFFF = _
  rw [shift_or, show 0xFFFFFF = 2 ^ 24 - 1 from rfl, Nat.and_two_pow_sub_one_eq_mod]
  omega

def stateOf (p : List Byte) : ℕ := encodeState p.length (value p)

lemma encodeState_eq {count bits : ℕ} (h : count < 4) : encodeState count bits = bits * 4 + count := by
  rw [encodeState, Nat.shiftLeft_eq, Nat.mul_comm]
  exact (Nat.two_pow_add_eq_or_of_lt h bits).symm

lemma stateBits_stateOf (h : p.length < 3) : stateBits (stateOf p) = value p := by
  rw [stateBits, stateOf, encodeState_eq (by omega)]
  omega

lemma stateCount_stateOf (h : p.length < 3) : stateCount (stateOf p) = p.length := by
  rw [stateCount, stateOf, encodeState_eq (by omega), show 3 = 2 ^ 2 - 1 from rfl, Nat.and_two_pow_sub_one_eq_mod]
  omega

lemma lor_inRange (a b : ℤ) : (0 ≤ a.lor b ∧ a.lor b ≤ 255) ↔ (0 ≤ a ∧ a ≤ 255) ∧ (0 ≤ b ∧ b ≤ 255) := by
  have hnat : ∀ m n : ℕ, m ||| n ≤ 255 ↔ m ≤ 255 ∧ n ≤ 255 := by
    intro m n
    constructor
    · intro h
      exact ⟨Nat.left_le_or.trans h, Nat.right_le_or.trans h⟩
    · rintro ⟨hm, hn⟩
      exact Nat.le_of_lt_succ (Nat.or_lt_two_pow (n := 8) (Nat.lt_succ_of_le hm) (Nat.lt_succ_of_le hn))
  cases a with
  | ofNat m =>
    cases b with
    | ofNat n =>
      have := hnat m n
      change (0 ≤ ((m ||| n : ℕ) : ℤ) ∧ ((m ||| n : ℕ) : ℤ) ≤ 255) ↔
        (0 ≤ (m : ℤ) ∧ (m : ℤ) ≤ 255) ∧ (0 ≤ (n : ℤ) ∧ (n : ℤ) ≤ 255)
      omega
    | negSucc n =>
      refine iff_of_false (fun h => ?_) fun h => ?_
      · exact absurd h.1 (by simp [Int.lor])
      · exact absurd h.2.1 (by simp)
  | negSucc m =>
    refine iff_of_false (fun h => ?_) fun h => ?_
    · cases b <;> exact absurd h.1 (by simp [Int.lor])
    · exact absurd h.1.1 (by simp)

end

section
variable (urlSafe : Bool) {length : ℕ} {c : Chunk} {p : List Byte}

structure Reads (c : Chunk) (p : List Byte) : Prop where
  bits : c.bits = value p
  expectedChars : c.expectedChars + p.length = 3
  unfinished : p.length < 3
  byteOr : 0 ≤ c.byteOr ∧ c.byteOr ≤ 255

lemma write_eq {output bytes : List ℕ} (h : output.length + bytes.length ≤ length) :
    write length output bytes = some (output ++ bytes) :=
  if_pos h

lemma byteOr_step (h : 0 ≤ c.byteOr ∧ c.byteOr ≤ 255) (b : Byte) :
    0 ≤ c.byteOr.lor (b.val : ℤ) ∧ c.byteOr.lor (b.val : ℤ) ≤ 255 := by
  rw [lor_inRange]
  exact ⟨h, by omega⟩

lemma step_full {x y : Byte} (h : Reads c [x, y]) (b : Byte) (hroom : c.output.length + 4 ≤ length) :
    ∃ c', step urlSafe length c (b.val : ℤ) = some c' ∧ Reads c' [] ∧
    c'.output = c.output ++ quantum urlSafe x.val y.val b.val := by
  have hexp : c.expectedChars = 1 := by
    have := h.expectedChars
    simp only [length_cons, length_nil] at this
    omega
  have hvalue : value [x, y] = x.val * 256 + y.val := by simp [value]
  rw [step, h.bits, nextBits (value_lt h.unfinished), hexp, write_eq (by simpa using hroom), hvalue]
  refine ⟨_, rfl, ⟨rfl, rfl, by decide, byteOr_step h.byteOr b⟩, ?_⟩
  simp only [digit_eq, Nat.shiftRight_eq_div_pow]
  congr 2
  · congr 1
    omega
  · congr 1
    · congr 1
      omega
    · congr 1
      · congr 1
        omega
      · congr 1
        congr 1
        omega

lemma step_partial (h : Reads c p) (hp : p.length < 2) (b : Byte) :
    ∃ c', step urlSafe length c (b.val : ℤ) = some c' ∧ Reads c' (p ++ [b]) ∧ c'.output = c.output := by
  have hexp := h.expectedChars
  rw [step, h.bits, nextBits (value_lt h.unfinished), if_neg (by omega)]
  refine ⟨_, rfl, ⟨?_, ?_, ?_, byteOr_step h.byteOr b⟩, rfl⟩
  · rw [value_append]
  · rw [length_append, length_singleton]
    dsimp only
    omega
  · rw [length_append, length_singleton]
    omega

lemma foldlM_step (bytes : List Byte) : ∀ {c : Chunk} {p : List Byte}, Reads c p →
    c.output.length + (p.length + bytes.length) / 3 * 4 ≤ length →
    ∃ c', (ints bytes).foldlM (step urlSafe length) c = some c' ∧
    Reads c' (leftover (p ++ bytes)) ∧ c'.output = c.output ++ groups urlSafe (p ++ bytes) := by
  induction bytes with
  | nil =>
    intro c p h _
    refine ⟨c, rfl, ?_⟩
    have hp := h.unfinished
    match p with
    | [] => exact ⟨h, (append_nil _).symm⟩
    | [_] => exact ⟨h, (append_nil _).symm⟩
    | [_, _] => exact ⟨h, (append_nil _).symm⟩
    | _ :: _ :: _ :: _ =>
      simp only [length_cons] at hp
      omega
  | cons b bytes ih =>
    intro c p h hroom
    rw [length_cons] at hroom
    rw [ints, map_cons, foldlM_cons]
    by_cases hp : p.length < 2
    · obtain ⟨c1, hc1, hr1, ho1⟩ := step_partial urlSafe h hp b
      obtain ⟨c2, hc2, hr2, ho2⟩ := ih hr1 (by
        rw [ho1, length_append, length_singleton]
        rwa [show p.length + 1 + bytes.length = p.length + (bytes.length + 1) by omega])
      rw [append_assoc, singleton_append] at hr2 ho2
      refine ⟨c2, ?_, hr2, by rw [ho2, ho1]⟩
      rw [hc1]
      exact hc2
    · have hp' := h.unfinished
      match p with
      | [] => simp at hp
      | [_] => simp at hp
      | [x, y] =>
        obtain ⟨c1, hc1, hr1, ho1⟩ := step_full urlSafe h b (show c.output.length + 4 ≤ length by omega)
        obtain ⟨c2, hc2, hr2, ho2⟩ := ih hr1 (by
          rw [ho1, length_append]
          simp only [quantum, length_cons, length_nil]
          omega)
        refine ⟨c2, ?_, hr2, ?_⟩
        · rw [hc1]
          exact hc2
        · rw [ho2, ho1, append_assoc]
          rfl
      | _ :: _ :: _ :: _ =>
        simp only [length_cons] at hp'
        omega

lemma writeFinalChunk_eq {output : List ℕ} (hp : p.length < 3) (hpos : 0 < p.length)
    (hroom : output.length + 4 ≤ length) : writeFinalChunk urlSafe length output p.length (value p) =
    some (output ++ finalQuantum urlSafe p) := by
  match p with
  | [] => simp at hpos
  | [a] =>
    have hvalue : value [a] = a.val := by simp [value]
    rw [writeFinalChunk, if_pos (length_singleton), write_eq (by simpa using hroom), hvalue]
    simp only [digit_eq, Nat.shiftRight_eq_div_pow, Nat.shiftLeft_eq, finalQuantum]
    rw [show a.val / 2 ^ 2 % 64 = a.val / 4 by omega,
      show a.val * 2 ^ 4 % 64 = a.val % 4 * 16 by omega]
  | [a, b] =>
    have hvalue : value [a, b] = a.val * 256 + b.val := by simp [value]
    rw [writeFinalChunk, if_neg (by simp), write_eq (by simpa using hroom), hvalue]
    simp only [digit_eq, Nat.shiftRight_eq_div_pow, Nat.shiftLeft_eq, finalQuantum]
    rw [show (a.val * 256 + b.val) / 2 ^ 10 % 64 = a.val / 4 by omega,
      show (a.val * 256 + b.val) / 2 ^ 4 % 64 = a.val % 4 * 16 + b.val / 16 by omega,
      show (a.val * 256 + b.val) * 2 ^ 2 % 64 = b.val % 16 * 4 by omega]
  | _ :: _ :: _ :: _ =>
    simp only [length_cons] at hp
    omega

end

section
variable (urlSafe : Bool) {p : List Byte}

def outputOf (isLast : Bool) (bytes : List Byte) : List ℕ :=
  if isLast then base64 urlSafe bytes else groups urlSafe bytes

lemma length_outputOf (isLast : Bool) (bytes : List Byte) : (outputOf urlSafe isLast bytes).length =
    if isLast && 0 < bytes.length % 3 then bytes.length / 3 * 4 + 4 else bytes.length / 3 * 4 := by
  cases isLast with
  | false => simpa [outputOf] using length_groups urlSafe bytes
  | true =>
    have hlt : (leftover bytes).length < 3 := by
      rw [length_leftover]
      omega
    rw [outputOf, if_pos rfl, base64, length_append, length_groups, length_finalQuantum urlSafe hlt, length_leftover]
    by_cases h : 0 < bytes.length % 3 <;> simp [h]

section
variable (hp : p.length < 3) (bytes : List Byte) (isLast : Bool)
include hp bytes isLast

lemma bufferLength_eq :
    bufferLength (ints bytes) isLast (stateOf p) = (outputOf urlSafe isLast (p ++ bytes)).length := by
  rw [length_outputOf, bufferLength, stateCount_stateOf hp, ints, length_map, length_append]
  rw [show p.length + bytes.length - (p.length + bytes.length) / 3 * 3 = (p.length + bytes.length) % 3 by omega]

lemma encodeChunk_eq :
    encodeChunk urlSafe (bufferLength (ints bytes) isLast (stateOf p)) (ints bytes) isLast (stateOf p) =
      some (if isLast then 0 else stateOf (leftover (p ++ bytes)), outputOf urlSafe isLast (p ++ bytes)) := by
  have hlen := length_outputOf urlSafe isLast (p ++ bytes)
  rw [bufferLength_eq urlSafe hp]
  have hstart : Reads ⟨stateBits (stateOf p), 3 - stateCount (stateOf p), 0, []⟩ p := by
    rw [stateBits_stateOf hp, stateCount_stateOf hp]
    exact ⟨rfl, by dsimp only; omega, hp, by simp⟩
  obtain ⟨c, hfold, hreads, hout⟩ := foldlM_step urlSafe bytes hstart
    (show ([] : List ℕ).length + (p.length + bytes.length) / 3 * 4 ≤ (outputOf urlSafe isLast (p ++ bytes)).length by
        rw [hlen]
        split <;> simp)
  rw [nil_append] at hout
  have hexp := hreads.expectedChars
  have hleft := length_leftover (p ++ bytes)
  rw [length_append] at hleft
  rw [encodeChunk, hfold]
  simp only [bind_eq_bind, bind_some]
  rw [if_pos hreads.byteOr]
  cases isLast with
  | false =>
    rw [hreads.bits, hout, if_neg (by simp), stateOf]
    simp only [outputOf, Bool.false_eq_true, if_false]
    rw [show 3 - c.expectedChars = (leftover (p ++ bytes)).length by omega]
  | true =>
    by_cases hpos : 0 < (leftover (p ++ bytes)).length
    · rw [if_pos (by simp; omega), hreads.bits, hout,
        show 3 - c.expectedChars = (leftover (p ++ bytes)).length by omega,
        writeFinalChunk_eq urlSafe hreads.unfinished hpos]
      · rfl
      · rw [hlen, if_pos (by simp; omega), length_groups, length_append]
    · have hnil : leftover (p ++ bytes) = [] := length_eq_zero_iff.1 (by omega)
      rw [if_neg (by simp; omega), hreads.bits, hout, hnil,
        show 3 - c.expectedChars = 0 by rw [hnil] at hexp; simp at hexp; omega, outputOf, base64, hnil]
      simp [finalQuantum, value, encodeState]

lemma encode_eq :
    encode urlSafe (stateOf p) (ints bytes) isLast = some (if isLast then 0 else stateOf (leftover (p ++ bytes)),
      if outputOf urlSafe isLast (p ++ bytes) = [] then none else some (outputOf urlSafe isLast (p ++ bytes))) := by
  rw [encode, encodeChunk_eq urlSafe hp, bufferLength_eq urlSafe hp]
  simp only [bind_eq_bind, bind_some, Nat.sub_self, replicate_zero, append_nil]
  by_cases h : outputOf urlSafe isLast (p ++ bytes) = []
  · simp [h]
  · rw [if_neg h, if_pos (length_pos_iff.2 h)]

end

lemma encode_invalid (state : ℕ) {bytes : List ℤ} (isLast : Bool)
    (h : ∃ b ∈ bytes, ¬(0 ≤ b ∧ b ≤ 255)) : encode urlSafe state bytes isLast = none := by
  have hfold : ∀ (length : ℕ) (bytes : List ℤ) (c c' : Chunk),
      bytes.foldlM (step urlSafe length) c = some c' → 0 ≤ c'.byteOr ∧ c'.byteOr ≤ 255 →
      (0 ≤ c.byteOr ∧ c.byteOr ≤ 255) ∧ ∀ b ∈ bytes, 0 ≤ b ∧ b ≤ 255 := by
    intro length bytes
    induction bytes with
    | nil =>
      intro c c' hc hr
      rw [foldlM_nil, Option.pure_def, Option.some.injEq] at hc
      exact ⟨hc ▸ hr, by simp⟩
    | cons b bytes ih =>
      intro c c' hc hr
      rw [foldlM_cons, bind_eq_bind, bind_eq_some_iff] at hc
      obtain ⟨c1, hc1, hc'⟩ := hc
      obtain ⟨hr1, hall⟩ := ih c1 c' hc' hr
      have hor : c1.byteOr = c.byteOr.lor b := by
        rw [step] at hc1
        split at hc1
        · rw [bind_eq_bind, bind_eq_some_iff] at hc1
          obtain ⟨output, -, heq⟩ := hc1
          rw [← Option.some.inj heq]
        · rw [← Option.some.inj hc1]
      rw [hor, lor_inRange] at hr1
      refine ⟨hr1.1, fun b' hb' => ?_⟩
      rcases mem_cons.1 hb' with rfl | hb'
      · exact hr1.2
      · exact hall b' hb'
  obtain ⟨b, hb, hbad⟩ := h
  rw [encode, encodeChunk]
  cases hc : bytes.foldlM (step urlSafe (bufferLength bytes isLast state))
    ⟨stateBits state, 3 - stateCount state, 0, []⟩ with
  | none => rfl
  | some c =>
    simp only [bind_eq_bind, bind_some]
    rw [if_neg fun hr => hbad ((hfold _ _ _ _ hc hr).2 b hb)]
    rfl

end
end DartSdk.Convert.Base64Encoder
