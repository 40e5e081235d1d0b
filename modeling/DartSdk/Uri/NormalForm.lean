import DartSdk.Uri.NormalizeCorrect

namespace DartSdk.Uri
open DartSdk.Convert DartSdk.Convert.Utf8Decoder List Item

inductive Component
  | userInfo
  | path
  | query
  | fragment
  | regName
  deriving DecidableEq, Repr

namespace Component

def rules : Component → Rules
  | userInfo => Rules.userInfo
  | path => Rules.path
  | query => Rules.query
  | fragment => Rules.query
  | regName => Rules.regName

def normalize : Component → Text → ℕ → ℕ → Except FormatException Text
  | userInfo => makeUserInfo
  | path => normalizePathChars
  | query => makeQuery
  | fragment => makeFragment
  | regName => normalizeRegName

end Component

open Component

section
variable {before text : Text}

lemma substring_middle (after : Text) :
    substring (before ++ (text ++ after)) before.length (before.length + text.length) = text := by
  rw [substring, ← append_assoc, ← length_append, take_left, drop_left]

lemma Finished.result (after : Text) {r : Except FormatException (Option Text)}
    {out : Option (List Item)} (h : Finished r ([] ++ before.drop before.length) ((before ++ text).drop before.length) out) :
    (∀ is, out = some is → (do
      let normalized ← r
      .ok (normalized.getD (substring (before ++ (text ++ after)) before.length
        (before.length + text.length))) : Except FormatException Text) = .ok (is.flatMap Item.text)) ∧
    (out = none → ∃ e, (do
      let normalized ← r
      .ok (normalized.getD (substring (before ++ (text ++ after)) before.length
        (before.length + text.length))) : Except FormatException Text) = .error e) := by
  rw [drop_length, drop_left] at h
  rw [substring_middle]
  constructor
  · rintro is rfl
    obtain ⟨t, rfl, ht⟩ := h
    exact congrArg Except.ok ht
  · rintro rfl
    obtain ⟨e, rfl⟩ := h
    exact ⟨e, rfl⟩

variable (before text)

lemma Component.normalize_eq (c : Component) (after : Text) (hafter : ∀ a ∈ after.head?, ¬IsHex a) :
    (∀ is, normalizedItems c.rules (items text) = some is →
    c.normalize (before ++ (text ++ after)) before.length (before.length + text.length) =
    .ok (is.flatMap Item.text)) ∧ (normalizedItems c.rules (items text) = none →
    ∃ e, c.normalize (before ++ (text ++ after)) before.length (before.length + text.length) = .error e) := by
  have hloop (rules : Rules) (hlower : rules.lowerCase = false) (hpercent : ¬inTable rules.charTable 0x25) :=
    (normalizeLoop_finished hlower hpercent hafter text before none before.length le_rfl (fun _ => rfl)).result after
  cases c with
  | userInfo => exact hloop Rules.userInfo rfl (by decide)
  | path => exact hloop Rules.path rfl (by decide)
  | query | fragment => exact hloop Rules.query rfl (by decide)
  | regName =>
    exact (regNameLoop_finished hafter text before none before.length true le_rfl (fun _ => ⟨rfl, rfl⟩)).result after

end

section
variable {rules : Rules} {is out : List Item}

lemma normalizedItems_cons {item : Item} (h : normalizedItems rules (item :: is) = some out) :
    ∃ first others, item.normalized rules = some first ∧ normalizedItems rules is = some others ∧
    out = first ++ others := by
  obtain ⟨first, hfirst, h⟩ := Option.bind_eq_some_iff.1 h
  obtain ⟨others, hothers, h⟩ := Option.bind_eq_some_iff.1 h
  exact ⟨first, others, hfirst, hothers, (Option.some.inj h).symm⟩

lemma normalizedItems_normal (hp : ∀ item ∈ is, item.Proper)
    (h : normalizedItems rules is = some out) : ∀ item ∈ out, item.Normal rules := by
  induction is generalizing out with
  | nil =>
    cases h
    exact forall_mem_nil _
  | cons item is ih =>
    obtain ⟨hitem, his⟩ := forall_mem_cons.1 hp
    obtain ⟨first, others, hfirst, hothers, rfl⟩ := normalizedItems_cons h
    exact forall_mem_append.2 ⟨Item.Normal.of_normalized hitem hfirst, ih his hothers⟩

lemma normalizedItems_of_normal (h : ∀ item ∈ is, item.Normal rules) : normalizedItems rules is = some is := by
  induction is with
  | nil => rfl
  | cons item is ih =>
    obtain ⟨hitem, his⟩ := forall_mem_cons.1 h
    rw [normalizedItems, hitem.normalized, ih his]
    rfl

lemma normalizedItems_octets (hp : ∀ item ∈ is, item.Proper) (h : normalizedItems rules is = some out) :
    out.flatMap Item.octets = is.flatMap fun item => item.combined.meaning rules := by
  induction is generalizing out with
  | nil =>
    cases h
    rfl
  | cons item is ih =>
    obtain ⟨hitem, his⟩ := forall_mem_cons.1 hp
    obtain ⟨first, others, hfirst, hothers, rfl⟩ := normalizedItems_cons h
    rw [flatMap_append, flatMap_cons, Item.octets_normalized hitem hfirst, ih his hothers]

end

section

def decodedText (bytes : List ℕ) : List ℕ := (subparts (octets bytes)).map (·.getD 0xFFFD)

variable {ranges : List (ℕ × ℕ)} {byte : Octet} {r : ℕ} {rules : Rules}

lemma tailRanges_le {lead : ℕ} (h : tailRanges lead = some ranges) : ∀ range ∈ ranges, range.2 < 0xC0 := by
  rw [tailRanges] at h
  split_ifs at h <;> cases h <;> decide

lemma takeTail_append (hranges : ∀ range ∈ ranges, range.2 < 0xC0) (char : ℕ)
    (bytes : List Octet) (hbyte : 0xC0 ≤ byte.val) (rest : List Octet) :
    takeTail ranges char (bytes ++ byte :: rest) =
    ((takeTail ranges char bytes).1, (takeTail ranges char bytes).2 ++ byte :: rest) := by
  induction ranges generalizing char bytes with
  | nil => rfl
  | cons range ranges ih =>
    obtain ⟨hrange, hranges⟩ := forall_mem_cons.1 hranges
    cases bytes with
    | nil => exact if_neg (by omega)
    | cons b bytes =>
      rw [cons_append, takeTail, takeTail]
      split
      · exact ih hranges _ _
      · rfl

lemma subparts_append (bytes : List Octet) (hbyte : 0xC0 ≤ byte.val)
    (rest : List Octet) : subparts (bytes ++ byte :: rest) = subparts bytes ++ subparts (byte :: rest) := by
  fun_induction subparts bytes with
  | case1 => rfl
  | case2 b bytes hb ih => rw [cons_append, subparts, if_pos hb, ih, cons_append]
  | case3 b bytes hb h ih => rw [cons_append, subparts, if_neg hb, h, ih, cons_append]
  | case4 b bytes hb ranges h ih =>
    rw [cons_append, subparts_lead h, takeTail_append (tailRanges_le h) _ _ hbyte, ih, cons_append]

lemma decodedText_append (bytes rest : List ℕ) (hr : 0x10000 ≤ r ∧ r < 0x110000) :
    decodedText (bytes ++ (encodeRune r ++ rest)) = decodedText bytes ++ r :: decodedText rest := by
  have hread := subparts_encodeRune (.inr ⟨by omega, hr.2⟩ : IsScalar r) (octets rest)
  have hhead : ∃ byte tail, octets (encodeRune r) = byte :: tail ∧ 0xC0 ≤ byte.val := by
    rw [encodeRune, if_neg (by omega), if_neg (by omega), if_neg (by omega)]
    refine ⟨_, _, rfl, ?_⟩
    rw [octet_val (by omega)]
    omega
  obtain ⟨byte, tail, heq, hbyte⟩ := hhead
  have hoctets (a b : List ℕ) : octets (a ++ b) = octets a ++ octets b := map_append
  rw [heq, cons_append] at hread
  rw [decodedText, hoctets, hoctets, heq, cons_append, subparts_append _ hbyte, hread, map_append]
  rfl

lemma meaning_high (hr : 0x10000 ≤ r) : (char r).meaning rules = encodeRune r := by
  rw [meaning, if_neg]
  · apply cased_map
    intro byte hbyte
    have := encodeRune_ge (by omega) byte hbyte
    omega
  · rintro ⟨-, heq⟩
    rw [char.injEq] at heq
    omega

lemma merged_of_decodedText {is : List Item} (hp : ∀ item ∈ is, item.Proper) (bytes : List ℕ)
    (h : decodedText (bytes ++ is.flatMap fun item => item.combined.meaning rules) =
      decodedText (bytes ++ is.flatMap fun item => item.meaning rules)) :
    ∀ r, char r ∈ is → merged r = r := by
  induction is generalizing bytes with
  | nil => exact nofun
  | cons item is ih =>
    obtain ⟨hitem, his⟩ := forall_mem_cons.1 hp
    rw [flatMap_cons, flatMap_cons] at h
    have hsame : item.combined = item → ∀ r, char r ∈ item :: is → merged r = r := by
      intro heq r hr
      rw [heq, ← append_assoc, ← append_assoc] at h
      rcases mem_cons.1 hr with rfl | hr
      · exact char.inj heq
      · exact ih his _ h r hr
    cases item with
    | percent | escape first second => exact hsame rfl
    | char r =>
      by_cases hr : 0x10000 ≤ r ∧ r / 0x10000 % 2 = 0
      · have hmerged : merged r = r - 0x10000 := if_pos hr
        have hlt : r < 0x110000 := hitem.2
        rw [combined, meaning_high (by omega), meaning_high hr.1, decodedText_append _ _ (by omega),
          decodedText_append _ _ ⟨hr.1, hlt⟩] at h
        have hhead := head_eq_of_cons_eq (append_cancel_left h)
        omega
      · have hmerged : merged r = r := if_neg hr
        exact hsame (congrArg char hmerged)

end

theorem percentNormalization_iff (c : Component) (before text after result : Text) (hafter : ∀ a ∈ after.head?, ¬IsHex a)
    (h : c.normalize (before ++ (text ++ after)) before.length (before.length + text.length) = .ok result) :
    (decodedText ((items result).flatMap Item.octets) = decodedText ((items text).flatMap (Item.meaning c.rules)) ∧
      (∀ item ∈ items result, item.Normal c.rules) ∧ c.normalize result 0 result.length = .ok result) ↔
    ∀ r, Item.char r ∈ items text → r < 0x10000 ∨ r / 0x10000 % 2 = 1 := by
  obtain ⟨hsome, hnone⟩ := c.normalize_eq before text after hafter
  cases hout : normalizedItems c.rules (items text) with
  | none =>
    obtain ⟨e, he⟩ := hnone hout
    rw [he] at h
    cases h
  | some out =>
    rw [hsome out hout] at h
    cases h
    have hproper := proper_items text
    have hnormal := normalizedItems_normal hproper hout
    have hitems := items_text hnormal
    have hoctets := normalizedItems_octets hproper hout
    have hagain : c.normalize (out.flatMap Item.text) 0 (out.flatMap Item.text).length =
        .ok (out.flatMap Item.text) := by
      have := (c.normalize_eq [] (out.flatMap Item.text) [] (by simp)).1 out
        (by rw [hitems]; exact normalizedItems_of_normal hnormal)
      simpa using this
    rw [hitems, hoctets]
    have hmerged (r : ℕ) : merged r = r ↔ r < 0x10000 ∨ r / 0x10000 % 2 = 1 := by
      rw [merged]
      split <;> omega
    simp only [← hmerged]
    constructor
    · rintro ⟨htext, -, -⟩
      exact merged_of_decodedText hproper [] htext
    · intro hall
      refine ⟨?_, hnormal, hagain⟩
      have hsame : ∀ item ∈ items text, item.combined.meaning c.rules = item.meaning c.rules := by
        intro item hmem
        cases item with
        | percent | escape first second => rfl
        | char r => rw [Item.combined, hall r hmem]
      rw [flatMap_congr hsame]

lemma items_planeOne : items [unit 0xD800, unit 0xDC00] = [.char 0x10000] := by
  rw [items_pair (by decide) (by decide), items, codePoint_eq]
  decide

theorem percentNormalization_iff_planeOne : decodedText ((items (ascii "%F0%90%80%80")).flatMap octets) =
      decodedText ((items [unit 0xD800, unit 0xDC00]).flatMap (meaning path.rules)) ∧
    (∀ item ∈ items (ascii "%F0%90%80%80"), item.Normal path.rules) ∧
    path.normalize (ascii "%F0%90%80%80") 0 12 = .ok (ascii "%F0%90%80%80") := by
  refine (percentNormalization_iff .path [] [unit 0xD800, unit 0xDC00] [] (ascii "%F0%90%80%80")
    (by simp) (by decide +kernel)).2 ?_
  intro r hr
  rw [items_planeOne, mem_singleton, char.injEq] at hr
  omega

theorem percentNormalization_planeTwo : path.normalize [unit 0xD840, unit 0xDC00] 0 2 = .ok (ascii "%F0%90%80%80") ∧
    decodedText ((items (ascii "%F0%90%80%80")).flatMap octets) = [0x10000] ∧
    decodedText ((items [unit 0xD840, unit 0xDC00]).flatMap (meaning path.rules)) = [0x20000] := by
  refine ⟨by decide +kernel, ?_, ?_⟩
  · decide +kernel
  · decide +kernel

end DartSdk.Uri
