import DartSdk.Uri.Items

namespace DartSdk.Uri
open DartSdk.Convert DartSdk.Convert.Utf8Decoder List Nat Item Rules
variable {first second : CodeUnit} {u : CodeUnit} {rest' : Text} {item : Item}

section

lemma escapeByte_eq (byte : ℕ) : escapeByte byte = (escape (hexDigit (byte / 16)) (hexDigit (byte % 16))).text := by
  rw [escapeByte, shiftRight_eq_div_pow, show 0xf = 2 ^ 4 - 1 from rfl, Nat.and_two_pow_sub_one_eq_mod]
  rfl

lemma and_or_flag (i a n : ℕ) (hi : i ≤ 6) (h : n < 2 ^ i) : (n &&& 0x3f) ||| 2 ^ i * a = 2 ^ i * a + n := by
  have hlt : n < 2 ^ 6 := h.trans_le (Nat.pow_le_pow_right Nat.two_pos hi)
  rw [show 0x3f = 2 ^ 6 - 1 from rfl, Nat.and_two_pow_sub_one_eq_mod, Nat.mod_eq_of_lt hlt, Nat.lor_comm,
    or_lead i a n h]

lemma or_extension_flag (n : ℕ) : (n &&& 0x3f) ||| 0x80 = 0x80 + n % 64 := by rw [Nat.lor_comm, or_extension]

lemma escapeChar_eq {r : ℕ} (hr : r < 0x110000) : escapeChar r = (escapes (encodeRune r)).flatMap text := by
  have hloop (n flag : ℕ) : escapeLoop r (n + 1) flag =
    escapeByte (((r >>> (6 * n)) &&& 0x3f) ||| flag) ++ escapeLoop r n 0x80 := rfl
  have hdone (flag : ℕ) : escapeLoop r 0 flag = [] := rfl
  rw [escapeChar, encodeRune, escapes, flatMap_map]
  by_cases h₁ : r < 0x80
  · rw [if_pos h₁, if_pos h₁, flatMap_singleton, escapeByte_eq]
  rw [if_neg h₁, if_neg h₁]
  by_cases h₂ : 0x7ff < r
  · rw [if_pos h₂, if_neg (show ¬r < 0x800 by omega)]
    by_cases h₃ : 0xffff < r
    · rw [if_pos h₃, if_neg (show ¬r < 0x10000 by omega), hloop, hloop, hloop, hloop, hdone]
      simp only [escapeByte_eq, shiftRight_eq_div_pow, or_extension_flag]
      rw [show 0xf0 = 2 ^ 4 * 15 from rfl, and_or_flag 4 15 _ (by omega) (by omega)]
      norm_num
    · rw [if_neg h₃, if_pos (show r < 0x10000 by omega), hloop, hloop, hloop, hdone]
      simp only [escapeByte_eq, shiftRight_eq_div_pow, or_extension_flag]
      rw [show 0xe0 = 2 ^ 5 * 7 from rfl, and_or_flag 5 7 _ (by omega) (by omega)]
      norm_num
  · rw [if_neg h₂, if_pos (show r < 0x800 by omega), hloop, hloop, hdone]
    simp only [escapeByte_eq, shiftRight_eq_div_pow, or_extension_flag]
    rw [show 0xc0 = 2 ^ 6 * 3 from rfl, and_or_flag 6 3 _ (by omega) (by omega)]
    norm_num

lemma combine_eq {u v : CodeUnit} (hl : 0xD800 ≤ u.val ∧ u.val < 0xDC00) (ht : 0xDC00 ≤ v.val ∧ v.val < 0xE000) :
    0x10000 ||| ((u.val &&& 0x3ff) <<< 10) ||| (v.val &&& 0x3ff) = merged (codePoint u v) := by
  have hlead : u.val &&& 0x3FF = u.val - 0xD800 := by
    rw [show 0x3FF = 2 ^ 10 - 1 from rfl, Nat.and_two_pow_sub_one_eq_mod]
    omega
  have htail : v.val &&& 0x3FF = v.val - 0xDC00 := by
    rw [show 0x3FF = 2 ^ 10 - 1 from rfl, Nat.and_two_pow_sub_one_eq_mod]
    omega
  have hor : (u.val - 0xD800) <<< 10 ||| (v.val - 0xDC00) = (u.val - 0xD800) * 1024 + (v.val - 0xDC00) := by
    rw [shiftLeft_eq, mul_comm, or_lead 10 _ _ (by omega), mul_comm]
  rw [hlead, htail, lor_assoc, hor, codePoint_eq, add_assoc]
  generalize hn : (u.val - 0xD800) * 1024 + (v.val - 0xDC00) = n
  have hlt : n / 2 ^ 16 < 16 := by omega
  have hdiv : (0x10000 ||| n) / 2 ^ 16 = 1 ||| n / 2 ^ 16 := or_div_two_pow
  have hmod : (0x10000 ||| n) % 2 ^ 16 = n % 2 ^ 16 := by
    rw [or_mod_two_pow]
    exact zero_or _
  have hbit : ∀ q < 16, 1 ||| q = if q % 2 = 0 then q + 1 else q := by decide
  rw [hbit _ hlt] at hdiv
  rw [merged]
  split at hdiv <;> split <;> omega

end

section
variable {p rest after : Text} {u : CodeUnit}

lemma codeUnitAt_append (s : Text) (k : ℕ) : codeUnitAt (p ++ s) (p.length + k) = codeUnitAt s k := by
  rw [codeUnitAt, codeUnitAt, getD_append_right _ _ _ _ (Nat.le_add_right _ _), Nat.add_sub_cancel_left]

lemma codeUnitAt_zero (u : CodeUnit) (s : Text) : codeUnitAt (u :: s) 0 = u.val := rfl

lemma codeUnitAt_head (s : Text) : codeUnitAt (p ++ u :: s) p.length = u.val := codeUnitAt_append (u :: s) 0

lemma codeUnitAt_next (s : Text) : codeUnitAt (p ++ u :: s) (p.length + 1) = codeUnitAt s 0 :=
  codeUnitAt_append (u :: s) 1

lemma codeUnitAt_third (v : CodeUnit) (s : Text) : codeUnitAt (p ++ u :: v :: s) (p.length + 2) = codeUnitAt s 0 :=
  codeUnitAt_append (u :: v :: s) 2

lemma substring_append (s : Text) (i : ℕ) : substring (p ++ s) i p.length = p.drop i := by rw [substring, take_left]

lemma substring_three (a b c : CodeUnit) (s : Text) :
    substring (p ++ a :: b :: c :: s) p.length (p.length + 3) = [a, b, c] := by
  rw [substring, take_append]
  simp

lemma normalizeEscape_some (p after : Text) (lowerCase : Bool) (h : digitsOf rest = some (first, second, rest')) :
    normalizeEscape (p ++ (percent :: rest ++ after)) p.length lowerCase =
      if isUnreservedChar (hexByte first second) then
        if lowerCase ∧ 0x41 ≤ hexByte first second ∧ hexByte first second ≤ 0x5A then
          some [unit (hexByte first second ||| 0x20)]
        else some [unit (hexByte first second)]
      else if 0x61 ≤ first.val ∨ 0x61 ≤ second.val then
        some [percent, upperUnit first, upperUnit second]
      else none := by
  obtain ⟨rfl, h₁, h₂⟩ := digitsOf_eq_some h
  have hlen : ¬(p ++ (percent :: first :: second :: (rest' ++ after))).length ≤ p.length + 2 := by
    simp only [length_append, length_cons]
    omega
  have hhex : ¬(hexDigitValue first.val < 0 ∨ hexDigitValue second.val < 0) := by
    rw [not_or, not_lt, not_lt]
    exact ⟨h₁, h₂⟩
  rw [normalizeEscape]
  simp only [cons_append]
  rw [if_neg hlen, codeUnitAt_next, codeUnitAt_third, substring_three, codeUnitAt_zero, codeUnitAt_zero, if_neg hhex]
  rfl

lemma normalizeEscape_none (lowerCase : Bool) (haft : ∀ a ∈ after.head?, ¬IsHex a) (h : digitsOf rest = none) :
    normalizeEscape (p ++ (percent :: rest ++ after)) p.length lowerCase = some [percent] := by
  rw [normalizeEscape]
  simp only [cons_append]
  split
  · rfl
  · next hlen =>
    apply if_pos
    rw [codeUnitAt_next]
    rcases rest with _ | ⟨a, _ | ⟨b, rest⟩⟩
    · rcases after with _ | ⟨a, after⟩
      · simp at hlen
      · exact .inl (not_le.1 (haft a rfl))
    · rcases after with _ | ⟨b, after⟩
      · simp at hlen
      · refine .inr ?_
        rw [cons_append, codeUnitAt_third]
        exact not_le.1 (haft b rfl)
    · rw [cons_append, cons_append, codeUnitAt_third]
      by_contra hhex
      rw [not_or, not_lt, not_lt] at hhex
      have hboth : IsHex a ∧ IsHex b := hhex
      rw [digitsOf, if_pos hboth] at h
      cases h

lemma escapeAt_pair (p after : Text) {v : CodeUnit} (h : tailOf u rest = some (v, rest')) :
    escapeAt (p ++ (u :: rest ++ after)) (p.length + (u :: rest).length) p.length =
    ⟨(escapes (encodeRune (merged (codePoint u v)))).flatMap text, 2, Nat.two_pos⟩ := by
  obtain ⟨rfl, hlead, htail⟩ := tailOf_eq_some h
  have hl := (isLeadSurrogate_iff u.isLt).2 hlead
  have ht := (isTailSurrogate_iff v.isLt).2 htail
  rw [isLeadSurrogate, decide_eq_true_iff] at hl
  rw [isTailSurrogate, decide_eq_true_iff] at ht
  rw [escapeAt]
  simp only [cons_append, codeUnitAt_head, codeUnitAt_next, codeUnitAt_zero]
  rw [if_pos ⟨hl, by simp, ht⟩, combine_eq hlead htail, escapeChar_eq (merged_lt (by rw [codePoint_eq]; omega))]

lemma escapeAt_single (h : tailOf u rest = none) :
    escapeAt (p ++ (u :: rest ++ after)) (p.length + (u :: rest).length) p.length =
    ⟨(escapes (encodeRune (merged u.val))).flatMap text, 1, one_pos⟩ := by
  have hmer : merged u.val = u.val := if_neg (by omega)
  rw [escapeAt, hmer, ← escapeChar_eq (by omega)]
  simp only [cons_append, codeUnitAt_head, codeUnitAt_next]
  apply if_neg
  rintro ⟨hl, hlt, ht⟩
  rcases rest with _ | ⟨v, rest⟩
  · simp at hlt
  · rw [tailOf, if_pos] at h
    · cases h
    · exact ⟨decide_eq_true hl, decide_eq_true ht⟩

end

section
variable {rules : Rules} {r : Except FormatException (Option Text)} {written original : Text}

def Finished (r : Except FormatException (Option Text)) (written original : Text) : Option (List Item) → Prop
  | none => ∃ e, r = .error e
  | some out => ∃ t, r = .ok t ∧ t.getD original = written ++ out.flatMap text

lemma Finished.cons {out rest : List Item} (hitem : item.normalized rules = some out)
    (h : Finished r (written ++ out.flatMap text) original (normalizedItems rules rest)) :
    Finished r written original (normalizedItems rules (item :: rest)) := by
  rw [normalizedItems, hitem]
  cases hrest : normalizedItems rules rest with
  | none =>
    rw [hrest] at h
    exact h
  | some others =>
    rw [hrest] at h
    obtain ⟨t, ht, hget⟩ := h
    refine ⟨t, ht, ?_⟩
    rw [hget, flatMap_append, append_assoc]

lemma Finished.error (rest : List Item) (e : FormatException) (hitem : item.normalized rules = none) :
    Finished (.error e) written original (normalizedItems rules (item :: rest)) := by
  rw [normalizedItems, hitem]
  exact ⟨e, rfl⟩

lemma Finished.step {f g : Text → ℕ → ℕ → Except FormatException (Option Text)}
    {out is : List Item} {written' p rest after : Text} {start : ℕ} (xs : Text)
    (hf : f (p ++ (xs ++ rest ++ after)) (p.length + (xs ++ rest).length) p.length =
    g (p ++ (xs ++ rest ++ after)) (p.length + (xs ++ rest).length) (p.length + xs.length))
    (hitem : item.normalized rules = some out) (hw : written' = written ++ out.flatMap text)
    (h : Finished (g ((p ++ xs) ++ (rest ++ after)) ((p ++ xs).length + rest.length) (p ++ xs).length)
    written' (((p ++ xs) ++ rest).drop start) (normalizedItems rules is)) :
    Finished (f (p ++ (xs ++ rest ++ after)) (p.length + (xs ++ rest).length) p.length) written
    ((p ++ (xs ++ rest)).drop start) (normalizedItems rules (item :: is)) := by
  apply Finished.cons hitem
  simp only [append_assoc, length_append, add_assoc] at hf h ⊢
  rw [hf, ← hw]
  exact h

end

open Finished
variable {char start : ℕ} {rules : Rules} {after p rest : Text} {buffer : Option Text} {sec : ℕ} {norm : Bool} {item : Item}
  {out is : List Item}

section Normalize

lemma cased_of_false (hlow : rules.lowerCase = false) (r : ℕ) : rules.cased r = r :=
  if_neg fun h => by rw [hlow] at h; exact absurd h.1 (by decide)

lemma allows_iff (hu : u ≠ percent) : rules.Allows u.val ↔ u.val < 127 ∧ inTable rules.charTable u.val := by
  have hne : u.val ≠ 0x25 := fun hval => hu (Fin.ext hval)
  exact ⟨fun h => ⟨h.1, h.2.1⟩, fun h => ⟨h.1, h.2, hne⟩⟩

lemma text_char (u : CodeUnit) : [Item.char u.val].flatMap Item.text = [u] := by
  rw [flatMap_singleton, Item.text, utf16_unit]

variable {r : ℕ}

lemma not_delimiter_of_lt (h : 0x5D < r) : ¬isGeneralDelimiter r := by
  rw [isGeneralDelimiter, Bool.and_eq_true, decide_eq_true_iff]
  omega

lemma normalized_high (h : 0x80 ≤ r) : (Item.char r).normalized rules = some (escapes (encodeRune (merged r))) := by
  rw [Item.normalized, if_neg (fun hc => absurd hc.1 (by omega)), if_neg (by omega),
    if_neg (fun hc => not_delimiter_of_lt (by omega) hc.2)]

section
variable (h : isUnreservedChar r)
include h

lemma unreserved_lt : r < 127 ∧ r ≠ 0x25 := ⟨(query.allows_unreserved h).1, (query.allows_unreserved h).2.2⟩

lemma unit_ne_percent : ¬[unit r] = [percent] := by
  intro heq
  have hval : (unit r).val = 0x25 := congrArg Fin.val (head_eq_of_cons_eq heq)
  rw [unit, Fin.val_ofNat] at hval
  have := unreserved_lt h
  omega

lemma text_unreserved : (Item.char r).text = [unit r] := by
  have := (unreserved_lt h).1
  rw [Item.text, utf16, if_pos (by omega)]
  rfl

end

section
variable {charTable : List ℕ} {escapeDelimiters replaceBackslash : Bool} {s : Text} {u : CodeUnit} {stop : ℕ}

lemma normalizeLoop_allowed (hind : p.length < stop) (hchar : u.val < 127 ∧ inTable charTable u.val) :
    normalizeLoop charTable escapeDelimiters replaceBackslash (p ++ u :: s) stop buffer sec p.length =
    normalizeLoop charTable escapeDelimiters replaceBackslash (p ++ u :: s) stop buffer sec (p.length + 1) := by
  rw [normalizeLoop.eq_def, if_pos hind]
  rw [codeUnitAt_head, if_pos hchar]

lemma codeUnitAt_percent (s : Text) : codeUnitAt (p ++ percent :: s) p.length = 0x25 := codeUnitAt_head s

lemma replacementAt_kept (h : normalizeEscape (p ++ percent :: s) p.length false = none) :
    replacementAt escapeDelimiters replaceBackslash (p ++ percent :: s) stop p.length = .ok none := by
  rw [replacementAt, if_pos (codeUnitAt_percent s), h]

lemma replacementAt_escape {t : Text} (h : normalizeEscape (p ++ percent :: s) p.length false = some t)
    (ht : ¬t = [percent]) : replacementAt escapeDelimiters replaceBackslash (p ++ percent :: s) stop p.length =
    .ok (some ⟨t, 3, succ_pos 2⟩) := by
  rw [replacementAt, if_pos (codeUnitAt_percent s), h]
  exact if_neg ht

lemma replacementAt_percent (h : normalizeEscape (p ++ percent :: s) p.length false = some [percent]) :
    replacementAt escapeDelimiters replaceBackslash (p ++ percent :: s) stop p.length =
    .ok (some ⟨ascii "%25", 1, one_pos⟩) := by
  rw [replacementAt, if_pos (codeUnitAt_percent s), h]
  exact if_pos rfl

lemma replacementAt_char (escapeDelimiters replaceBackslash : Bool) (p s : Text) (stop : ℕ) (hne : u.val ≠ 0x25) :
    replacementAt escapeDelimiters replaceBackslash (p ++ u :: s) stop p.length =
      if u.val = 0x5C ∧ replaceBackslash then .ok (some ⟨[slash], 1, one_pos⟩)
      else if ¬escapeDelimiters ∧ isGeneralDelimiter u.val then
        .error ⟨"Invalid character", p ++ u :: s, some p.length⟩
      else .ok (some (escapeAt (p ++ u :: s) stop p.length)) := by
  rw [replacementAt, codeUnitAt_head, if_neg hne]

lemma normalizeLoop_other (hind : p.length < stop) (hchar : ¬(u.val < 127 ∧ inTable charTable u.val))
    {replacement : Except FormatException (Option Replacement)}
    (hrep : replacementAt escapeDelimiters replaceBackslash (p ++ u :: s) stop p.length = replacement) :
    normalizeLoop charTable escapeDelimiters replaceBackslash (p ++ u :: s) stop buffer sec p.length =
      replacement.bind fun
        | none => normalizeLoop charTable escapeDelimiters replaceBackslash (p ++ u :: s) stop buffer sec (p.length + 3)
        | some r => normalizeLoop charTable escapeDelimiters replaceBackslash (p ++ u :: s) stop
          (some (buffer.getD [] ++ substring (p ++ u :: s) sec p.length ++ r.text))
          (p.length + r.sourceLength) (p.length + r.sourceLength) := by
  rw [normalizeLoop.eq_def, if_pos hind]
  rw [codeUnitAt_head, if_neg hchar, hrep]
  rcases replacement with e | _ | r
  · rfl
  · rfl
  · rfl

end

section

abbrev Rules.loop (rules : Rules) : Text → ℕ → Option Text → ℕ → ℕ → Except FormatException (Option Text) :=
  normalizeLoop rules.charTable rules.escapeDelimiters rules.replaceBackslash

/-- Behind `p`, with `rest` to be read before `after`, the loop ends as the items `is` are normalized. -/
def Rules.Ends (rules : Rules) (after : Text) (start : ℕ) (p rest : Text) (buffer : Option Text) (sec : ℕ)
    (is : List Item) : Prop :=
  Finished (rules.loop (p ++ (rest ++ after)) (p.length + rest.length) buffer sec p.length)
    (buffer.getD [] ++ p.drop sec) ((p ++ rest).drop start) (normalizedItems rules is)

def Rules.EndsAfterAll (rules : Rules) (after : Text) (start : ℕ) (rest : Text) (is : List Item) : Prop :=
  ∀ (p : Text) (buffer : Option Text) (sec : ℕ), sec ≤ p.length → (buffer = none → sec = start) →
    rules.Ends after start p rest buffer sec is

lemma Rules.Ends.kept (xs : Text) (hs : sec ≤ p.length)
    (hloop : rules.loop (p ++ (xs ++ rest ++ after)) (p.length + (xs ++ rest).length) buffer sec p.length =
    rules.loop (p ++ (xs ++ rest ++ after)) (p.length + (xs ++ rest).length) buffer sec (p.length + xs.length))
    (hitem : item.normalized rules = some out) (htext : out.flatMap text = xs)
    (h : rules.Ends after start (p ++ xs) rest buffer sec is) :
    rules.Ends after start p (xs ++ rest) buffer sec (item :: is) := by
  refine step (f := fun c stop index => normalizeLoop _ _ _ c stop buffer sec index)
    (g := fun c stop index => normalizeLoop _ _ _ c stop buffer sec index) xs hloop hitem ?_ h
  rw [drop_append_of_le_length hs, htext, append_assoc]

lemma Rules.Ends.replaced (u : CodeUnit) (xs : Text) {r : Replacement} (hleng : r.sourceLength = xs.length + 1)
    (hchar : ¬(u.val < 127 ∧ inTable rules.charTable u.val))
    (hrep : replacementAt rules.escapeDelimiters rules.replaceBackslash (p ++ (u :: xs ++ rest ++ after))
    (p.length + (u :: xs ++ rest).length) p.length = .ok (some r))
    (hitem : item.normalized rules = some out) (htext : r.text = out.flatMap text)
    (ih : rules.EndsAfterAll after start rest is) :
    rules.Ends after start p (u :: xs ++ rest) buffer sec (item :: is) := by
  have hnext := ih (p ++ u :: xs) (some (buffer.getD [] ++ p.drop sec ++ r.text)) (p ++ u :: xs).length le_rfl nofun
  rw [Rules.Ends, drop_length, append_nil, Option.getD_some] at hnext
  refine step (f := fun c stop index => normalizeLoop _ _ _ c stop buffer sec index)
    (g := fun c stop index => normalizeLoop _ _ _ c stop
      (some (buffer.getD [] ++ p.drop sec ++ r.text)) (p ++ u :: xs).length index)
    (u :: xs) ?_ hitem (by rw [htext]) hnext
  have hlen : p.length + (u :: xs).length = p.length + r.sourceLength := by rw [hleng, length_cons]
  simp only [cons_append] at hrep ⊢
  rw [normalizeLoop_other (by simp) hchar hrep, substring_append, length_append, hlen]
  rfl

end

section
variable (hlow : rules.lowerCase = false)
  (hs : sec ≤ p.length) (hbuf : buffer = none → sec = start)

include hlow hs hbuf

lemma Rules.Ends.escape (hper : ¬(percent.val < 127 ∧ inTable rules.charTable percent.val))
    (h : digitsOf rest = some (first, second, rest'))
    (ih : rules.EndsAfterAll after start rest' is) :
    rules.Ends after start p (percent :: rest) buffer sec (.escape first second :: is) := by
  obtain ⟨rfl, h₁, h₂⟩ := digitsOf_eq_some h
  have hesc := normalizeEscape_some p after false h
  by_cases hun : isUnreservedChar (hexByte first second)
  · rw [if_pos hun] at hesc
    have hitem : (escape first second).normalized rules = some [.char (hexByte first second)] := by
      rw [normalized, if_pos hun, cased_of_false hlow]
    refine Rules.Ends.replaced percent [first, second] rfl hper
      (replacementAt_escape hesc (unit_ne_percent hun)) hitem ?_ ih
    rw [flatMap_singleton]
    exact (text_unreserved hun).symm
  · rw [if_neg hun] at hesc
    have hitem : (escape first second).normalized rules = some [.escape (upperUnit first) (upperUnit second)] := by
      rw [normalized, if_neg hun]
    by_cases hcase : 0x61 ≤ first.val ∨ 0x61 ≤ second.val
    · rw [if_pos hcase] at hesc
      exact Rules.Ends.replaced percent [first, second] rfl hper (replacementAt_escape hesc (by simp)) hitem rfl ih
    · rw [if_neg hcase] at hesc
      rw [not_or, not_le, not_le] at hcase
      have hle : sec ≤ (p ++ [percent, first, second]).length := hs.trans (by simp)
      refine Rules.Ends.kept [percent, first, second] hs
        (normalizeLoop_other (by simp) hper (replacementAt_kept hesc)) hitem ?_ (ih _ _ _ hle hbuf)
      rw [upperUnit_of_lt hcase.1, upperUnit_of_lt hcase.2]
      rfl

lemma Rules.Ends.single (hu : u ≠ percent) (h : tailOf u rest = none) (ih : rules.EndsAfterAll after start rest is) :
    rules.Ends after start p (u :: rest) buffer sec (.char u.val :: is) := by
  have hne : u.val ≠ 0x25 := fun hval => hu (Fin.ext hval)
  by_cases hall : rules.Allows u.val
  · have hitem : (char u.val).normalized rules = some [.char u.val] := by
      rw [normalized, if_pos hall, cased_of_false hlow]
    have hle : sec ≤ (p ++ [u]).length := hs.trans (by simp)
    exact Rules.Ends.kept [u] hs (normalizeLoop_allowed (by simp) ((allows_iff hu).1 hall)) hitem (text_char u)
      (ih _ _ _ hle hbuf)
  · have hchar : ¬(u.val < 127 ∧ inTable rules.charTable u.val) := fun hc => hall ((allows_iff hu).2 hc)
    have hrep := replacementAt_char rules.escapeDelimiters rules.replaceBackslash p (rest ++ after)
      (p.length + (u :: rest).length) hne
    by_cases hback : u.val = 0x5C ∧ rules.replaceBackslash
    · rw [if_pos hback] at hrep
      have hitem : (char u.val).normalized rules = some [.char 0x2F] := by rw [normalized, if_neg hall, if_pos hback]
      refine Rules.Ends.replaced u [] rfl hchar hrep hitem ?_ ih
      decide
    · rw [if_neg hback] at hrep
      by_cases hdel : ¬rules.escapeDelimiters ∧ isGeneralDelimiter u.val
      · rw [if_pos hdel] at hrep
        rw [Rules.Ends, loop, cons_append, normalizeLoop_other (by simp) hchar hrep]
        apply error
        rw [normalized, if_neg hall, if_neg hback, if_pos hdel]
      · have hesc := @escapeAt_single p rest after u h
        rw [if_neg hdel] at hrep
        refine Rules.Ends.replaced u [] (congrArg Replacement.sourceLength hesc) hchar hrep ?_
          (congrArg Replacement.text hesc) ih
        rw [normalized, if_neg hall, if_neg hback, if_neg hdel]

end

lemma normalizeLoop_finished (hlow : rules.lowerCase = false)
    (hper : ¬inTable rules.charTable 0x25) (haft : ∀ a ∈ after.head?, ¬IsHex a)
    (rest p : Text) (buffer : Option Text) (sec : ℕ) (hs : sec ≤ p.length)
    (hbuf : buffer = none → sec = start) :
    rules.Ends after start p rest buffer sec (items rest) := by
  have hper : ¬(percent.val < 127 ∧ inTable rules.charTable percent.val) := fun hc => hper hc.2
  fun_induction items rest generalizing p buffer sec with
  | case1 =>
    rw [Rules.Ends, loop, normalizeLoop.eq_def, if_neg (by simp)]
    cases buffer with
    | none => exact ⟨none, rfl, by simp [hbuf rfl]⟩
    | some written =>
      dsimp only
      split
      · refine ⟨_, rfl, ?_⟩
        simp [substring_append]
      · next hend =>
        refine ⟨_, rfl, ?_⟩
        simp only [not_lt] at hend
        simp [drop_eq_nil_of_le hend]
  | case2 rest first second rest' h ih => exact .escape hlow hs hbuf hper h ih
  | case3 rest h ih =>
    refine Rules.Ends.replaced percent [] rfl hper (replacementAt_percent (normalizeEscape_none false haft h)) rfl ?_ ih
    decide
  | case4 u rest hu v rest' h ih =>
    have hesc := escapeAt_pair p after h
    obtain ⟨rfl, hlead, htail⟩ := tailOf_eq_some h
    have hrep := replacementAt_char (u := u) rules.escapeDelimiters rules.replaceBackslash p (v :: rest' ++ after)
      (p.length + (u :: v :: rest').length) (by omega)
    rw [if_neg (by omega), if_neg (fun hc => not_delimiter_of_lt (by omega) hc.2)] at hrep
    have hr : 0x10000 ≤ codePoint u v := by
      rw [codePoint_eq]
      omega
    exact Rules.Ends.replaced u [v] (congrArg Replacement.sourceLength hesc) (fun hc => by omega) hrep
      (normalized_high (by omega)) (congrArg Replacement.text hesc) ih
  | case5 u rest hu h ih => exact .single hlow hs hbuf hu h ih

end Normalize

section RegName

def sectionText (norm : Bool) (s : Text) : Text := if norm then s else toLowerCase s

lemma regNameSlice_append (p s : Text) (sec : ℕ) (norm : Bool) : regNameSlice (p ++ s) sec p.length norm =
    sectionText norm (p.drop sec) := by
  rw [regNameSlice, substring_append, sectionText]

lemma sectionText_append (norm : Bool) (s t : Text) :
    sectionText norm (s ++ t) = sectionText norm s ++ sectionText norm t := by
  cases norm with
  | true => rfl
  | false => exact map_append

section
variable (buffer sec norm) {host : Text} {stop index : ℕ}

lemma regNameLoop_percent (hind : index < stop) (hchar : codeUnitAt host index = 0x25) :
    regNameLoop host stop buffer sec norm index =
      if normalizeEscape host index true = none ∧ norm then
        regNameLoop host stop buffer sec norm (index + 3)
      else
        regNameLoop host stop (some (buffer.getD [] ++ regNameSlice host sec index norm ++
            (regNameEscape host index).text))
          (index + (regNameEscape host index).sourceLength) true
          (index + (regNameEscape host index).sourceLength) := by
  rw [regNameLoop.eq_def, if_pos hind]
  exact if_pos hchar

lemma regNameEscape_some {t : Text} (h : normalizeEscape host index true = some t) (ht : ¬t = [percent]) :
    regNameEscape host index = ⟨t, 3, succ_pos 2⟩ := by
  rw [regNameEscape, h]
  exact if_neg ht

section
variable (hind : index < stop) (hchar : codeUnitAt host index = char) (hne : char ≠ 0x25)
include hind hchar hne

lemma regNameLoop_char (hreg : isRegNameChar char) : regNameLoop host stop buffer sec norm index =
    if norm ∧ 0x41 ≤ char ∧ char ≤ 0x5A then if sec < index then
        regNameLoop host stop (some (buffer.getD [] ++ substring host sec index)) index false (index + 1)
      else regNameLoop host stop (some (buffer.getD [])) sec false (index + 1)
    else regNameLoop host stop buffer sec norm (index + 1) := by
  subst hchar
  rw [regNameLoop.eq_def, if_pos hind]
  rw [if_neg hne, if_pos hreg]

lemma regNameLoop_other (hreg : ¬isRegNameChar char) : regNameLoop host stop buffer sec norm index =
    if isGeneralDelimiter char then .error ⟨"Invalid character", host, some index⟩ else regNameLoop host stop
      (some (buffer.getD [] ++ regNameSlice host sec index norm ++
        (escapeAt host stop index).text)) (index + (escapeAt host stop index).sourceLength) norm
      (index + (escapeAt host stop index).sourceLength) := by
  subst hchar
  rw [regNameLoop.eq_def, if_pos hind]
  rw [if_neg hne, if_neg hreg]

end
end

section

def RegNameEnds (after : Text) (start : ℕ) (p rest : Text) (buffer : Option Text) (sec : ℕ) (norm : Bool)
    (is : List Item) : Prop :=
  Finished (regNameLoop (p ++ (rest ++ after)) (p.length + rest.length) buffer sec norm p.length)
    (buffer.getD [] ++ sectionText norm (p.drop sec)) ((p ++ rest).drop start)
    (normalizedItems regName is)

def RegNameEndsAfterAll (after : Text) (start : ℕ) (rest : Text) (is : List Item) : Prop :=
  ∀ (p : Text) (buffer : Option Text) (sec : ℕ) (norm : Bool), sec ≤ p.length →
    (buffer = none → sec = start ∧ norm = true) → RegNameEnds after start p rest buffer sec norm is

lemma RegNameEnds.kept (xs : Text) (hs : sec ≤ p.length)
    (hloop : regNameLoop (p ++ (xs ++ rest ++ after)) (p.length + (xs ++ rest).length) buffer sec
    norm p.length =
    regNameLoop (p ++ (xs ++ rest ++ after)) (p.length + (xs ++ rest).length) buffer sec
    norm (p.length + xs.length))
    (hitem : item.normalized regName = some out)
    (htext : out.flatMap text = sectionText norm xs)
    (h : RegNameEnds after start (p ++ xs) rest buffer sec norm is) :
    RegNameEnds after start p (xs ++ rest) buffer sec norm (item :: is) := by
  refine step (f := fun c stop index => regNameLoop c stop buffer sec norm index)
    (g := fun c stop index => regNameLoop c stop buffer sec norm index) xs hloop hitem
    ?_ h
  rw [drop_append_of_le_length hs, sectionText_append, htext, append_assoc]

lemma RegNameEnds.replaced (xs : Text) {r : Replacement} (hleng : r.sourceLength = xs.length) (isNormalized' : Bool)
    (hloop : regNameLoop (p ++ (xs ++ rest ++ after)) (p.length + (xs ++ rest).length) buffer sec
    norm p.length =
    regNameLoop (p ++ (xs ++ rest ++ after)) (p.length + (xs ++ rest).length) (some (buffer.getD [] ++
    regNameSlice (p ++ (xs ++ rest ++ after)) sec p.length norm ++ r.text))
    (p.length + r.sourceLength) isNormalized' (p.length + r.sourceLength))
    (hitem : item.normalized regName = some out) (htext : r.text = out.flatMap text)
    (ih : RegNameEndsAfterAll after start rest is) :
    RegNameEnds after start p (xs ++ rest) buffer sec norm (item :: is) := by
  have hemp : sectionText isNormalized' [] = [] := by cases isNormalized' <;> rfl
  have hnext := ih (p ++ xs) (some (buffer.getD [] ++ sectionText norm (p.drop sec) ++ r.text)) (p ++ xs).length
    isNormalized' le_rfl nofun
  rw [RegNameEnds, drop_length, hemp, append_nil, Option.getD_some] at hnext
  refine step (f := fun c stop index => regNameLoop c stop buffer sec norm index)
    (g := fun c stop index => regNameLoop c stop
      (some (buffer.getD [] ++ sectionText norm (p.drop sec) ++ r.text)) (p ++ xs).length
      isNormalized' index) xs ?_ hitem (by rw [htext]) hnext
  have hlen : (p ++ xs).length = p.length + r.sourceLength := by rw [length_append, hleng]
  rw [hloop, regNameSlice_append, hlen, ← hleng]

end

lemma ite_section {buffer : Option Text} {p s : Text} {stop sec index : ℕ} (hs : sec ≤ p.length) :
    (if sec < p.length then
      regNameLoop (p ++ s) stop (some (buffer.getD [] ++ substring (p ++ s) sec p.length)) p.length false index
    else regNameLoop (p ++ s) stop (some (buffer.getD [])) sec false index) =
      regNameLoop (p ++ s) stop (some (buffer.getD [] ++ p.drop sec)) p.length false index := by
  split
  · rw [substring_append]
  · next hend =>
    have heq : sec = p.length := by omega
    rw [heq, drop_length, append_nil]

lemma isRegNameChar_iff (hu : u ≠ percent) : isRegNameChar u.val ↔ regName.Allows u.val := by
  rw [allows_iff hu, isRegNameChar, Bool.and_eq_true, decide_eq_true_iff]
  rfl

lemma utf16_cased : (Item.char (regName.cased u.val)).text = [lowerUnit u] := by
  have hlow : regName.lowerCase = true := rfl
  rw [Item.text, cased, lowerUnit]
  by_cases h : 0x41 ≤ u.val ∧ u.val ≤ 0x5A
  · rw [if_pos ⟨hlow, h⟩, if_pos h, utf16, if_pos (by omega)]
    rfl
  · rw [if_neg (fun hc => h hc.2), if_neg h, utf16_unit]

lemma or_lowerCase {n : ℕ} (h : 0x41 ≤ n ∧ n ≤ 0x5A) : n ||| 0x20 = n + 0x20 := by
  have key : ∀ n < 0x5B, 0x41 ≤ n → n ||| 0x20 = n + 0x20 := by decide +kernel
  exact key n (by omega) h.1

section
variable (hs : sec ≤ p.length)
  (hbuf : buffer = none → sec = start ∧ norm = true)

include hs hbuf

lemma RegNameEnds.escape (h : digitsOf rest = some (first, second, rest'))
    (ih : RegNameEndsAfterAll after start rest' is) :
    RegNameEnds after start p (percent :: rest) buffer sec norm (.escape first second :: is) := by
  obtain ⟨rfl, h₁, h₂⟩ := digitsOf_eq_some h
  have hind : p.length < p.length + (percent :: first :: second :: rest').length := by simp
  have hhead : codeUnitAt (p ++ (percent :: first :: second :: rest' ++ after)) p.length = 0x25 := codeUnitAt_head _
  have hloop := regNameLoop_percent buffer sec norm hind hhead
  have hesc := normalizeEscape_some p after true h
  by_cases hun : isUnreservedChar (hexByte first second)
  · have hcas : normalizeEscape (p ++ (percent :: first :: second :: rest' ++ after)) p.length true =
        some [unit (regName.cased (hexByte first second))] := by
      rw [hesc, if_pos hun, cased]
      split
      · next hup => rw [if_pos ⟨rfl, hup.2⟩, or_lowerCase hup.2]
      · next hup => rw [if_neg fun hc => hup ⟨rfl, hc.2⟩]
    have hun' := regName.unreserved_cased hun
    rw [hcas, regNameEscape_some hcas (unit_ne_percent hun')] at hloop
    have hitem : (escape first second).normalized regName = some [.char (regName.cased (hexByte first second))] := by
      rw [normalized, if_pos hun]
    refine RegNameEnds.replaced [percent, first, second] rfl true hloop hitem ?_ ih
    rw [flatMap_singleton, text_unreserved hun']
  · rw [if_neg hun] at hesc
    have hitem : (escape first second).normalized regName = some [.escape (upperUnit first) (upperUnit second)] := by
      rw [normalized, if_neg hun]
    by_cases hcase : 0x61 ≤ first.val ∨ 0x61 ≤ second.val
    · rw [if_pos hcase] at hesc
      rw [hesc, regNameEscape_some hesc (by simp)] at hloop
      exact RegNameEnds.replaced [percent, first, second] rfl true hloop hitem rfl ih
    · rw [if_neg hcase] at hesc
      rw [not_or, not_le, not_le] at hcase
      rw [upperUnit_of_lt hcase.1, upperUnit_of_lt hcase.2] at hitem
      have hle : sec ≤ (p ++ [percent, first, second]).length := hs.trans (by simp)
      cases norm with
      | true =>
        rw [hesc] at hloop
        exact RegNameEnds.kept [percent, first, second] hs hloop hitem rfl (ih _ _ _ _ hle hbuf)
      | false =>
        have hrep : regNameEscape (p ++ (percent :: first :: second :: rest' ++ after)) p.length =
            ⟨[percent, first, second], 3, succ_pos 2⟩ := by
          rw [regNameEscape, hesc]
          dsimp only [cons_append]
          rw [substring_three]
        rw [if_neg (by simp), hrep] at hloop
        exact RegNameEnds.replaced [percent, first, second] rfl true hloop hitem rfl ih

lemma RegNameEnds.single (hu : u ≠ percent) (h : tailOf u rest = none) (ih : RegNameEndsAfterAll after start rest is) :
    RegNameEnds after start p (u :: rest) buffer sec norm (.char u.val :: is) := by
  have hind : p.length < p.length + (u :: rest).length := by simp
  have hhead : codeUnitAt (p ++ (u :: rest ++ after)) p.length = u.val := codeUnitAt_head _
  have hne : u.val ≠ 0x25 := fun hval => hu (Fin.ext hval)
  by_cases hreg : isRegNameChar u.val
  · have hall := (isRegNameChar_iff hu).1 hreg
    have hitem : (char u.val).normalized regName = some [.char (regName.cased u.val)] := by rw [normalized, if_pos hall]
    have hle : sec ≤ (p ++ [u]).length := hs.trans (by simp)
    have hloop := regNameLoop_char buffer sec norm hind hhead hne hreg
    by_cases hup : norm ∧ 0x41 ≤ u.val ∧ u.val ≤ 0x5A
    · rw [if_pos hup, ite_section hs] at hloop
      have hnext := ih (p ++ [u]) (some (buffer.getD [] ++ p.drop sec)) p.length false (by simp) (fun h => by cases h)
      refine step (f := fun c stop index => regNameLoop c stop buffer sec norm index)
        (g := fun c stop index => regNameLoop c stop (some (buffer.getD [] ++ p.drop sec))
          p.length false index) [u] hloop hitem ?_ hnext
      rw [hup.1, flatMap_singleton, utf16_cased, drop_left]
      rfl
    · rw [if_neg hup] at hloop
      refine RegNameEnds.kept [u] hs hloop hitem ?_ (ih _ _ _ _ hle hbuf)
      rw [flatMap_singleton, utf16_cased]
      cases norm with
      | true =>
        rw [lowerUnit, if_neg fun hc => hup ⟨rfl, hc⟩]
        rfl
      | false => rfl
  · have hall : ¬regName.Allows u.val := fun hc => hreg ((isRegNameChar_iff hu).2 hc)
    have hback : ¬(u.val = 0x5C ∧ regName.replaceBackslash) := fun hc => absurd hc.2 (by decide)
    have hloop := regNameLoop_other buffer sec norm hind hhead hne hreg
    by_cases hdel : isGeneralDelimiter u.val
    · rw [if_pos hdel] at hloop
      unfold RegNameEnds
      rw [hloop]
      apply error
      rw [normalized, if_neg hall, if_neg hback, if_pos ⟨by decide, hdel⟩]
    · rw [if_neg hdel, escapeAt_single h] at hloop
      refine RegNameEnds.replaced [u] rfl norm hloop ?_ rfl ih
      rw [normalized, if_neg hall, if_neg hback, if_neg fun hc => hdel hc.2]

end

lemma regNameLoop_finished (haft : ∀ a ∈ after.head?, ¬IsHex a) (rest p : Text)
    (buffer : Option Text) (sec : ℕ) (norm : Bool) (hs : sec ≤ p.length)
    (hbuf : buffer = none → sec = start ∧ norm = true) :
    RegNameEnds after start p rest buffer sec norm (items rest) := by
  fun_induction items rest generalizing p buffer sec norm with
  | case1 =>
    rw [RegNameEnds, regNameLoop.eq_def, if_neg (by simp)]
    cases buffer with
    | none =>
      obtain ⟨rfl, rfl⟩ := hbuf rfl
      exact ⟨none, rfl, by simp [sectionText]⟩
    | some written =>
      dsimp only
      split
      · refine ⟨_, rfl, ?_⟩
        simp [regNameSlice_append]
      · next hend =>
        refine ⟨_, rfl, ?_⟩
        simp only [not_lt] at hend
        rw [drop_eq_nil_of_le hend]
        cases norm with
        | true => simp [sectionText]
        | false => simp [sectionText, toLowerCase]
  | case2 rest first second rest' h ih => exact .escape hs hbuf h ih
  | case3 rest h ih =>
    have hind : p.length < p.length + (percent :: rest).length := by simp
    have hhead : codeUnitAt (p ++ (percent :: rest ++ after)) p.length = 0x25 := codeUnitAt_head _
    have hesc := normalizeEscape_none (p := p) true haft h
    have hrep : regNameEscape (p ++ (percent :: rest ++ after)) p.length = ⟨ascii "%25", 1, one_pos⟩ := by
      rw [regNameEscape, hesc]
      exact if_pos rfl
    have hloop := regNameLoop_percent buffer sec norm hind hhead
    rw [hesc, hrep] at hloop
    refine RegNameEnds.replaced [percent] rfl true hloop rfl ?_ ih
    decide
  | case4 u rest hu v rest' h ih =>
    have hesc := escapeAt_pair p after h
    obtain ⟨rfl, hlead, htail⟩ := tailOf_eq_some h
    have hind : p.length < p.length + (u :: v :: rest').length := by simp
    have hhead : codeUnitAt (p ++ (u :: v :: rest' ++ after)) p.length = u.val := codeUnitAt_head _
    have hreg : ¬isRegNameChar u.val := by
      rw [isRegNameChar, Bool.and_eq_true, decide_eq_true_iff]
      omega
    have hloop := regNameLoop_other buffer sec norm hind hhead (by omega) hreg
    rw [if_neg (not_delimiter_of_lt (by omega)), hesc] at hloop
    have hr : 0x10000 ≤ codePoint u v := by
      rw [codePoint_eq]
      omega
    exact RegNameEnds.replaced [u, v] rfl norm hloop (normalized_high (by omega)) rfl ih
  | case5 u rest hu h ih => exact .single hs hbuf hu h ih

end RegName
end DartSdk.Uri
