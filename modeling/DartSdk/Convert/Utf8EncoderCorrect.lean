import DartSdk.Convert.Utf8Encoder

namespace DartSdk.Convert
open Utf8Encoder Sink List Option Prod

section
variable {u : ℕ}

lemma and_surrogateTagMask (h : u < 0x10000) : u &&& 0xFC00 = u / 1024 * 1024 := by
  have hmod : (u &&& 0xFC00) % 2 ^ 10 = 0 := by
    rw [Nat.and_mod_two_pow]
    exact Nat.and_zero _
  have hdiv : (u &&& 0xFC00) / 2 ^ 10 = u / 1024 := by
    rw [← Nat.shiftRight_eq_div_pow, Nat.shiftRight_and_distrib]
    rw [show 0xFC00 >>> 10 = 2 ^ 6 - 1 from rfl, Nat.and_two_pow_sub_one_eq_mod]
    omega
  omega

lemma isLeadSurrogate_iff (h : u < 0x10000) : isLeadSurrogate u = true ↔ 0xD800 ≤ u ∧ u < 0xDC00 := by
  rw [isLeadSurrogate, decide_eq_true_iff, and_surrogateTagMask h]
  omega

lemma isTailSurrogate_iff (h : u < 0x10000) : isTailSurrogate u = true ↔ 0xDC00 ≤ u ∧ u < 0xE000 := by
  rw [isTailSurrogate, decide_eq_true_iff, and_surrogateTagMask h]
  omega

lemma combineSurrogatePair_eq {lead tail : ℕ} (hl : 0xD800 ≤ lead ∧ lead < 0xDC00)
    (ht : 0xDC00 ≤ tail ∧ tail < 0xE000) :
    combineSurrogatePair lead tail = 0x10000 + (lead - 0xD800) * 1024 + (tail - 0xDC00) := by
  have hlead : lead &&& 0x3FF = lead - 0xD800 := by
    rw [show 0x3FF = 2 ^ 10 - 1 from rfl, Nat.and_two_pow_sub_one_eq_mod]
    omega
  have htail : tail &&& 0x3FF = tail - 0xDC00 := by
    rw [show 0x3FF = 2 ^ 10 - 1 from rfl, Nat.and_two_pow_sub_one_eq_mod]
    omega
  rw [combineSurrogatePair, hlead, htail, Nat.shiftLeft_eq]
  have hor := Nat.two_pow_add_eq_or_of_lt (i := 10) (b := tail - 0xDC00) (by omega) (64 + (lead - 0xD800))
  rw [show 2 ^ 10 * (64 + (lead - 0xD800)) = 0x10000 + (lead - 0xD800) * 2 ^ 10 by omega] at hor
  omega

end

def runes : List CodeUnit → List ℕ
  | [] => []
  | u :: rest =>
    if isLeadSurrogate u.val then
      match rest with
      | [] => [0xFFFD]
      | v :: rest' =>
        if isTailSurrogate v.val then
          (0x10000 + (u.val - 0xD800) * 1024 + (v.val - 0xDC00)) :: runes rest'
        else 0xFFFD :: runes (v :: rest')
    else if isTailSurrogate u.val then 0xFFFD :: runes rest
    else u.val :: runes rest

def encodeRune (r : ℕ) : List ℕ :=
  if r < 0x80 then [r]
  else if r < 0x800 then [0xC0 + r / 64, 0x80 + r % 64]
  else if r < 0x10000 then [0xE0 + r / 4096, 0x80 + r / 64 % 64, 0x80 + r % 64]
  else [0xF0 + r / 262144, 0x80 + r / 4096 % 64, 0x80 + r / 64 % 64, 0x80 + r % 64]

def encoded (str : List CodeUnit) : List ℕ := (runes str).flatMap encodeRune

section

lemma or_lead (i a n : ℕ) (h : n < 2 ^ i) : 2 ^ i * a ||| n = 2 ^ i * a + n := (Nat.two_pow_add_eq_or_of_lt h a).symm

lemma or_extension (n : ℕ) : 0x80 ||| (n &&& 0x3f) = 0x80 + n % 64 := by
  rw [show 0x3f = 2 ^ 6 - 1 from rfl, Nat.and_two_pow_sub_one_eq_mod]
  exact or_lead 7 1 _ (by omega)

variable {r : ℕ}

lemma surrogateBytes_eq (h : 0x10000 ≤ r ∧ r < 0x110000) : surrogateBytes r = encodeRune r := by
  rw [surrogateBytes, encodeRune, if_neg (by omega), if_neg (by omega), if_neg (by omega),
    or_extension, or_extension, or_extension]
  simp only [Nat.shiftRight_eq_div_pow]
  rw [show 0xF0 = 2 ^ 4 * 15 from rfl, or_lead 4 15 _ (by omega)]

def unitBytes (rune : ℕ) : List ℕ :=
  if rune ≤ 0x7f then [rune]
  else if rune ≤ 0x7ff then [0xC0 ||| (rune >>> 6), 0x80 ||| (rune &&& 0x3f)]
  else [0xE0 ||| (rune >>> 12), 0x80 ||| ((rune >>> 6) &&& 0x3f), 0x80 ||| (rune &&& 0x3f)]

lemma unitBytes_eq (h : r < 0x10000) : unitBytes r = encodeRune r := by
  rw [unitBytes, encodeRune]
  by_cases h1 : r ≤ 0x7f
  · rw [if_pos h1, if_pos (show r < 0x80 by omega)]
  · rw [if_neg h1, if_neg (show ¬r < 0x80 by omega)]
    by_cases h2 : r ≤ 0x7ff
    · rw [if_pos h2, if_pos (by omega), or_extension, Nat.shiftRight_eq_div_pow,
        show 0xC0 = 2 ^ 6 * 3 from rfl, or_lead 6 3 _ (by omega)]
    · rw [if_neg h2, if_neg (by omega), if_pos h, or_extension, or_extension,
        Nat.shiftRight_eq_div_pow, Nat.shiftRight_eq_div_pow, show 0xE0 = 2 ^ 5 * 7 from rfl,
        or_lead 5 7 _ (by omega)]

lemma replacementCharacter_eq : replacementCharacter = encodeRune 0xFFFD := by decide

end

def firstCharacter : List CodeUnit → Option (List ℕ × List CodeUnit)
  | [] => none
  | u :: rest =>
    if isLeadSurrogate u.val then
      match rest with
      | [] => none
      | v :: rest' =>
        if isTailSurrogate v.val then
          some (surrogateBytes (combineSurrogatePair u.val v.val), rest')
        else some (replacementCharacter, v :: rest')
    else if isTailSurrogate u.val then some (replacementCharacter, rest)
    else some (unitBytes u.val, rest)

/-- The room that the first character asks for: four bytes for a lead surrogate, whatever follows it. -/
def margin (str : List CodeUnit) (bytes : List ℕ) : ℕ :=
  if str.head?.any (isLeadSurrogate ·.val) then 4 else bytes.length

def place (length n margin size : ℕ) : ℕ := if length < n + margin then size else n + size

/-- How full the last buffer is once the characters of the text are written behind `n` bytes: a character
that does not find room goes to the next buffer. A lead surrogate at the end is not written. -/
def lastBuffer (length : ℕ) : ℕ → List CodeUnit → ℕ
  | n, [] => n
  | n, u :: rest =>
    if isLeadSurrogate u.val then
      match rest with
      | [] => n
      | v :: rest' =>
        if isTailSurrogate v.val then lastBuffer length (place length n 4 4) rest'
        else lastBuffer length (place length n 4 3) (v :: rest')
    else
      let size := (encodeRune (if isTailSurrogate u.val then 0xFFFD else u.val)).length
      lastBuffer length (place length n size size) rest

section FirstCharacter
variable {str rest : List CodeUnit} {bytes : List ℕ}

lemma encoded_firstCharacter (h : firstCharacter str = some (bytes, rest))
    (future : List CodeUnit) : encoded (str ++ future) = bytes ++ encoded (rest ++ future) := by
  unfold encoded
  match str with
  | [] => simp [firstCharacter] at h
  | u :: str =>
    have hu : u.val < 0x10000 := u.isLt
    rw [cons_append, runes.eq_def]
    rw [firstCharacter.eq_def] at h
    dsimp only at h ⊢
    by_cases hlead : isLeadSurrogate u.val
    · rw [if_pos hlead] at h ⊢
      match str with
      | [] => simp at h
      | v :: str =>
        have hv : v.val < 0x10000 := v.isLt
        dsimp only [cons_append] at h ⊢
        by_cases htail : isTailSurrogate v.val
        · rw [if_pos htail, some.injEq, mk.injEq] at h
          rw [if_pos htail, ← h.1, ← h.2, flatMap_cons]
          rw [isLeadSurrogate_iff hu] at hlead
          rw [isTailSurrogate_iff hv] at htail
          rw [combineSurrogatePair_eq hlead htail, surrogateBytes_eq (by omega)]
        · rw [if_neg htail, some.injEq, mk.injEq] at h
          rw [if_neg htail, ← h.1, ← h.2]
          rfl
    · rw [if_neg hlead] at h ⊢
      by_cases htail : isTailSurrogate u.val
      · rw [if_pos htail, some.injEq, mk.injEq] at h
        rw [if_pos htail, ← h.1, ← h.2, flatMap_cons, replacementCharacter_eq]
      · rw [if_neg htail, some.injEq, mk.injEq] at h
        rw [if_neg htail, ← h.1, ← h.2, flatMap_cons, unitBytes_eq hu]

variable {buffer : List ℕ}
variable {length u v : ℕ}

lemma write_eq (h : buffer.length + bytes.length ≤ length) : write length buffer bytes = some (buffer ++ bytes) :=
  if_pos h

lemma length_unitBytes (r : ℕ) : 1 ≤ (unitBytes r).length ∧ (unitBytes r).length ≤ 3 := by
  unfold unitBytes
  split
  · simp
  · split <;> simp

lemma writeSurrogate_tail (h : isTailSurrogate v = true)
    (hroom : buffer.length + 4 ≤ length) : writeSurrogate length buffer u v =
    some (buffer ++ surrogateBytes (combineSurrogatePair u v), true) := by
  rw [writeSurrogate, if_pos h]
  dsimp only
  rw [write_eq hroom]
  rfl

lemma writeSurrogate_other (h : isTailSurrogate v ≠ true)
    (hroom : buffer.length + 3 ≤ length) : writeSurrogate length buffer u v =
    some (buffer ++ replacementCharacter, false) := by
  rw [writeSurrogate, if_neg h, write_eq hroom]
  rfl

lemma fillLoop_step (h : firstCharacter str = some (bytes, rest)) (length count : ℕ)
    (buffer : List ℕ) : bytes.length ≤ margin str bytes ∧ margin str bytes ≤ 4 ∧ margin str bytes ≤ 3 * str.length ∧
      fillLoop length (count + 1) str buffer = if length < buffer.length + margin str bytes then some (str, buffer)
        else fillLoop length (count + 1 - (str.length - rest.length)) rest (buffer ++ bytes) := by
  match str with
  | [] => simp [firstCharacter] at h
  | u :: str =>
    rw [firstCharacter.eq_def] at h
    dsimp only at h
    by_cases hlead : isLeadSurrogate u.val
    · have hu : ¬u.val ≤ 0x7f := by
        rw [isLeadSurrogate_iff u.isLt] at hlead
        omega
      rw [if_pos hlead] at h
      match str with
      | [] => simp at h
      | v :: str =>
        dsimp only at h
        rw [show margin (u :: v :: str) bytes = 4 by simp [margin, hlead]]
        by_cases htail : isTailSurrogate v.val
        · rw [if_pos htail, some.injEq, mk.injEq] at h
          obtain ⟨rfl, rfl⟩ := h
          refine ⟨by simp [surrogateBytes], Nat.le_refl 4, by simp; omega, ?_⟩
          rw [fillLoop, if_neg hu, if_pos hlead]
          refine ite_congr rfl (fun _ => rfl) fun hroom => ?_
          rw [writeSurrogate_tail htail (by omega)]
          simp only [length_cons]
          rw [show count + 1 - (str.length + 1 + 1 - str.length) = count - 1 by omega]
        · rw [if_neg htail, some.injEq] at h
          obtain ⟨rfl, rfl⟩ := h
          refine ⟨by decide, Nat.le_refl 4, by simp; omega, ?_⟩
          rw [fillLoop, if_neg hu, if_pos hlead]
          refine ite_congr rfl (fun _ => rfl) fun hroom => ?_
          rw [writeSurrogate_other htail (by omega)]
          simp only [length_cons]
          rw [show count + 1 - (str.length + 1 + 1 - (str.length + 1)) = count by omega]
    · rw [if_neg hlead] at h
      by_cases htail : isTailSurrogate u.val
      · have hu : ¬u.val ≤ 0x7f := by
          rw [isTailSurrogate_iff u.isLt] at htail
          omega
        rw [if_pos htail, some.injEq] at h
        obtain ⟨rfl, rfl⟩ := h
        rw [show margin (u :: rest) replacementCharacter = 3 by simp [margin, hlead, replacementCharacter]]
        refine ⟨by decide, by decide, by rw [length_cons]; omega, ?_⟩
        rw [fillLoop.eq_def]
        dsimp only
        rw [if_neg hu, if_neg hlead, if_pos htail]
        refine ite_congr rfl (fun _ => rfl) fun hroom => ?_
        rw [write_eq (by simp [replacementCharacter]; omega)]
        simp
      · rw [if_neg htail, some.injEq, mk.injEq] at h
        obtain ⟨rfl, rfl⟩ := h
        have hlen := length_unitBytes u.val
        rw [show margin (u :: str) (unitBytes u.val) = (unitBytes u.val).length by simp [margin, hlead]]
        refine ⟨Nat.le_refl _, by omega, by simp; omega, ?_⟩
        rw [fillLoop.eq_def]
        dsimp only
        rw [if_neg hlead, if_neg htail]
        unfold unitBytes
        by_cases h1 : u.val ≤ 0x7f
        · rw [if_pos h1, if_pos h1]
          refine ite_congr (by rw [length_singleton, Nat.lt_add_one_iff]) (fun _ => rfl) fun hroom => ?_
          rw [write_eq (Nat.le_of_not_lt hroom)]
          simp
        · rw [if_neg h1, if_neg h1]
          by_cases h2 : u.val ≤ 0x7ff
          · rw [if_pos h2, if_pos h2]
            refine ite_congr (by simp; omega) (fun _ => rfl) fun hroom => ?_
            rw [write_eq (Nat.le_of_not_lt hroom)]
            simp
          · rw [if_neg h2, if_neg h2]
            refine ite_congr (by simp; omega) (fun _ => rfl) fun hroom => ?_
            rw [write_eq (Nat.le_of_not_lt hroom)]
            simp

lemma length_firstCharacter (h : firstCharacter str = some (bytes, rest)) :
    rest.length < str.length ∧ bytes.length ≤ 3 * (str.length - rest.length) ∧ ∃ taken, str = taken ++ rest := by
  match str with
  | [] => simp [firstCharacter] at h
  | u :: str =>
    have hlen := length_unitBytes u.val
    rw [firstCharacter.eq_def] at h
    dsimp only at h
    split at h
    · match str with
      | [] => simp at h
      | v :: str =>
        dsimp only at h
        split at h <;> rw [some.injEq, mk.injEq] at h <;> obtain ⟨rfl, rfl⟩ := h
        · refine ⟨by rw [length_cons, length_cons]; omega, by simp [surrogateBytes]; omega, [u, v], rfl⟩
        · refine ⟨by simp, by simp [replacementCharacter], [u], rfl⟩
    · split at h <;> rw [some.injEq, mk.injEq] at h <;> obtain ⟨rfl, rfl⟩ := h
      · refine ⟨by simp, by simp [replacementCharacter], [u], rfl⟩
      · refine ⟨by simp, by simp; omega, [u], rfl⟩

lemma firstCharacter_none (h : firstCharacter str = none) :
    str = [] ∨ ∃ u : CodeUnit, str = [u] ∧ isLeadSurrogate u.val = true := by
  match str with
  | [] => exact .inl rfl
  | u :: str =>
    rw [firstCharacter.eq_def] at h
    dsimp only at h
    split at h
    · next hlead =>
      match str with
      | [] => exact .inr ⟨u, rfl, hlead⟩
      | v :: str =>
        dsimp only at h
        split at h <;> cases h
    · split at h <;> cases h

lemma endsInLead_append (taken : List CodeUnit) (h : rest ≠ []) : endsInLead (taken ++ rest) = endsInLead rest := by
  rw [endsInLead, endsInLead, List.getLast?_append, List.getLast?_eq_some_getLast h]
  rfl

lemma endsInLead_firstCharacter (h : firstCharacter str = some (bytes, rest)) : endsInLead rest = endsInLead str := by
  obtain ⟨-, -, taken, htaken⟩ := length_firstCharacter h
  by_cases hrest : rest = []
  · -- the whole string is one character, and that is not a lead surrogate alone
    subst hrest
    match str with
    | [] => rfl
    | u :: str =>
      rw [firstCharacter.eq_def] at h
      dsimp only at h
      split at h
      · match str with
        | [] => simp at h
        | v :: str =>
          dsimp only at h
          split at h <;> rw [some.injEq, mk.injEq] at h
          · next htail =>
            rw [h.2]
            rw [isTailSurrogate_iff v.isLt] at htail
            have hv : isLeadSurrogate v.val = false := by
              rw [Bool.eq_false_iff, ne_eq, isLeadSurrogate_iff v.isLt]
              omega
            simp [endsInLead, hv]
          · exact absurd h.2 (cons_ne_nil _ _)
      · next hlead =>
        have hu : isLeadSurrogate u.val = false := Bool.eq_false_iff.2 hlead
        split at h <;> rw [some.injEq, mk.injEq] at h <;> rw [h.2] <;>
          simp [endsInLead, hu]
  · rw [htaken, endsInLead_append taken hrest]

lemma fillBuffer_step (h : firstCharacter str = some (bytes, rest)) (length : ℕ)
    (buffer : List ℕ) : bytes.length ≤ margin str bytes ∧ margin str bytes ≤ 4 ∧ margin str bytes ≤ 3 * str.length ∧
      fillBuffer length str buffer = if length < buffer.length + margin str bytes then some (str, buffer)
        else fillBuffer length rest (buffer ++ bytes) := by
  have hlead := endsInLead_firstCharacter h
  obtain ⟨hlt, -, taken, htaken⟩ := length_firstCharacter h
  rw [fillBuffer, fillBuffer, hlead]
  -- the number of code units to handle, before and after the first character
  obtain ⟨count, hcount, hcount'⟩ : ∃ count, (if endsInLead str then str.length - 1 else str.length) = count + 1 ∧
      (if endsInLead str then rest.length - 1 else rest.length) = count + 1 - (str.length - rest.length) := by
    by_cases hl : endsInLead str
    · have hne : rest ≠ [] := by
        rintro rfl
        rw [hl] at hlead
        cases hlead
      have hpos : 0 < rest.length := length_pos_iff.2 hne
      rw [if_pos hl, if_pos hl]
      exact ⟨str.length - 2, by omega, by omega⟩
    · rw [if_neg hl, if_neg hl]
      exact ⟨str.length - 1, by omega, by omega⟩
  rw [hcount, hcount']
  exact fillLoop_step h length count buffer

lemma fillBuffer_none (h : firstCharacter str = none) (length : ℕ) (buffer : List ℕ) :
    fillBuffer length str buffer = some (str, buffer) := by
  rcases firstCharacter_none h with rfl | ⟨u, rfl, hu⟩
  · rfl
  · have hlead : endsInLead [u] = true := hu
    rw [fillBuffer, if_pos hlead]
    rfl

lemma fillBuffer_spec (length : ℕ) (str : List CodeUnit) (buffer : List ℕ) (hbuffer : buffer.length ≤ length) :
    ∃ rest bytes taken, fillBuffer length str buffer = some (rest, buffer ++ bytes) ∧
    str = taken ++ rest ∧ (buffer ++ bytes).length ≤ length ∧ bytes.length ≤ 3 * taken.length ∧
    (∀ future, encoded (str ++ future) = bytes ++ encoded (rest ++ future)) ∧ endsInLead rest = endsInLead str ∧
    (firstCharacter rest = none ∨ (length < (buffer ++ bytes).length + 4 ∧
    length < (buffer ++ bytes).length + 3 * rest.length)) := by
  induction hn : str.length using Nat.strong_induction_on generalizing str buffer with
  | _ n ih =>
    subst hn
    cases h : firstCharacter str with
    | none =>
      refine ⟨str, [], [], ?_, rfl, ?_, Nat.le_refl 0, fun _ => rfl, rfl, .inl h⟩
      · rw [fillBuffer_none h, append_nil]
      · rwa [append_nil]
    | some r =>
      obtain ⟨bytes, rest⟩ := r
      obtain ⟨hle, hm, hm', hstep⟩ := fillBuffer_step h length buffer
      obtain ⟨hlt, hlen, taken, rfl⟩ := length_firstCharacter h
      by_cases hroom : length < buffer.length + margin (taken ++ rest) bytes
      · refine ⟨taken ++ rest, [], [], ?_, rfl, ?_, Nat.le_refl 0, fun _ => rfl, rfl, .inr ?_⟩
        · rw [hstep, if_pos hroom, append_nil]
        · rwa [append_nil]
        · rw [append_nil]
          omega
      · have hbuffer' : (buffer ++ bytes).length ≤ length := by
          rw [length_append]
          omega
        obtain ⟨rest', bytes', taken', hfill, rfl, hcap, hlen', henc, hlead, hend⟩ :=
          ih rest.length hlt rest (buffer ++ bytes) hbuffer' rfl
        refine ⟨rest', bytes ++ bytes', taken ++ taken', ?_, ?_, ?_, ?_, fun future => ?_, ?_, ?_⟩
        · rw [hstep, if_neg hroom, hfill, append_assoc]
        · rw [append_assoc]
        · rwa [← append_assoc]
        · simp only [length_append] at hlen hlen' ⊢
          omega
        · rw [encoded_firstCharacter h, henc, append_assoc]
        · rw [hlead, endsInLead_firstCharacter h]
        · rwa [← append_assoc]

lemma fillBuffer_progress {buffer buffer' : List ℕ}
    (hroom : buffer.length + 4 ≤ length) (hfirst : firstCharacter str ≠ none)
    (hfill : fillBuffer length str buffer = some (rest, buffer')) : rest.length < str.length := by
  obtain ⟨⟨bytes, rest'⟩, h⟩ := ne_none_iff_exists'.1 hfirst
  obtain ⟨hle, hm, -, hstep⟩ := fillBuffer_step h length buffer
  rw [hstep, if_neg (by omega)] at hfill
  have hbuffer : (buffer ++ bytes).length ≤ length := by
    rw [length_append]
    omega
  obtain ⟨rest'', bytes', taken, hfill', htaken, -⟩ := fillBuffer_spec length rest' (buffer ++ bytes) hbuffer
  rw [hfill', some.injEq] at hfill
  obtain ⟨rfl, -⟩ := hfill
  have hlt := (length_firstCharacter h).1
  rw [htaken, length_append] at hlt
  omega

lemma lastBuffer_none (h : firstCharacter str = none) (n : ℕ) : lastBuffer length n str = n := by
  rcases firstCharacter_none h with rfl | ⟨u, rfl, hu⟩
  · rfl
  · rw [lastBuffer.eq_def]
    simp [hu]

lemma lastBuffer_firstCharacter (h : firstCharacter str = some (bytes, rest)) (n : ℕ) :
    lastBuffer length n str = lastBuffer length (place length n (margin str bytes) bytes.length) rest := by
  match str with
  | [] => simp [firstCharacter] at h
  | u :: str =>
    rw [firstCharacter.eq_def] at h
    rw [lastBuffer.eq_def]
    dsimp only at h ⊢
    by_cases hlead : isLeadSurrogate u.val
    · rw [if_pos hlead] at h ⊢
      match str with
      | [] => simp at h
      | v :: str =>
        rw [show margin (u :: v :: str) bytes = 4 by simp [margin, hlead]]
        dsimp only at h ⊢
        by_cases htail : isTailSurrogate v.val
        · rw [if_pos htail, some.injEq, mk.injEq] at h
          obtain ⟨rfl, rfl⟩ := h
          rw [if_pos htail]
          rfl
        · rw [if_neg htail, some.injEq, mk.injEq] at h
          obtain ⟨rfl, rfl⟩ := h
          rw [if_neg htail]
          rfl
    · rw [if_neg hlead] at h ⊢
      rw [show margin (u :: str) bytes = bytes.length by simp [margin, hlead]]
      by_cases htail : isTailSurrogate u.val
      · rw [if_pos htail, some.injEq, mk.injEq] at h
        obtain ⟨rfl, rfl⟩ := h
        rw [if_pos htail, replacementCharacter_eq]
      · rw [if_neg htail, some.injEq, mk.injEq] at h
        obtain ⟨rfl, rfl⟩ := h
        rw [if_neg htail, unitBytes_eq u.isLt]

lemma lastBuffer_fillBuffer (hlen : 4 ≤ length) {buffer buffer' : List ℕ} (hbuffer : buffer.length ≤ length)
    (hfill : fillBuffer length str buffer = some (rest, buffer')) : lastBuffer length buffer.length str =
      if firstCharacter rest = none then buffer'.length else lastBuffer length 0 rest := by
  induction hn : str.length using Nat.strong_induction_on generalizing str buffer with
  | _ n ih =>
    subst hn
    cases h : firstCharacter str with
    | none =>
      rw [fillBuffer_none h, some.injEq, mk.injEq] at hfill
      obtain ⟨rfl, rfl⟩ := hfill
      rw [if_pos h, lastBuffer_none h]
    | some r =>
      obtain ⟨bytes, rest'⟩ := r
      obtain ⟨hle, hm, -, hstep⟩ := fillBuffer_step h length buffer
      rw [hstep] at hfill
      by_cases hroom : length < buffer.length + margin str bytes
      · -- the character starts the next buffer
        rw [if_pos hroom, some.injEq, mk.injEq] at hfill
        obtain ⟨rfl, rfl⟩ := hfill
        rw [if_neg (by simp [h]), lastBuffer_firstCharacter h, lastBuffer_firstCharacter h, place, if_pos hroom, place,
          if_neg (by omega), Nat.zero_add]
      · rw [if_neg hroom] at hfill
        rw [lastBuffer_firstCharacter h, place, if_neg hroom, ← length_append]
        refine ih rest'.length (length_firstCharacter h).1 ?_ hfill rfl
        rw [length_append]
        omega

lemma lastBuffer_lead {u w : CodeUnit} (hu : isLeadSurrogate u.val = true) (hw : isLeadSurrogate w.val = true)
    (n : ℕ) (str : List CodeUnit) : lastBuffer length n (u :: str) = lastBuffer length n (w :: str) := by
  rw [lastBuffer.eq_def, lastBuffer.eq_def length n (w :: str)]
  simp [hu, hw]

lemma encoded_lead {u : CodeUnit} (hu : isLeadSurrogate u.val = true) : encoded [u] = replacementCharacter := by
  rw [encoded, runes, if_pos hu]
  exact (flatMap_singleton encodeRune _).trans replacementCharacter_eq.symm

lemma convert_eq (string : List CodeUnit) : convert string = some (encoded string) := by
  rw [convert]
  by_cases hnil : string.length = 0
  · rw [length_eq_zero_iff.1 hnil]
    rfl
  · obtain ⟨rest, bytes, taken, hfill, htaken, hcap, hlen, henc, -, hend⟩ :=
      fillBuffer_spec (string.length * 3) string [] (Nat.zero_le _)
    have hall := henc []
    rw [append_nil, append_nil] at hall
    rw [nil_append] at hfill hend
    have hlength : string.length = taken.length + rest.length := by rw [htaken, length_append]
    rw [if_neg hnil, hfill]
    simp only [bind_eq_bind, bind_some]
    rcases hend with hnone | ⟨-, hfull⟩
    · rcases firstCharacter_none hnone with rfl | ⟨u, rfl, hu⟩
      · rw [hall]
        simp [encoded, runes]
      · rw [length_singleton] at hlength
        rw [if_pos (cons_ne_nil _ _), write_eq (by simp [replacementCharacter]; omega), hall, encoded_lead hu]
    · omega

end FirstCharacter
end DartSdk.Convert
