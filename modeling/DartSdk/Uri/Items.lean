import DartSdk.Uri.Normalize
import DartSdk.Convert.Utf8RoundTrip

namespace DartSdk.Uri
open DartSdk.Convert DartSdk.Convert.Utf8Decoder List

inductive Item
  | percent
  | escape (first second : CodeUnit)
  | char (r : ℕ)
  deriving DecidableEq, Repr

namespace Item

def text : Item → Text
  | percent => [Uri.percent]
  | escape first second => [Uri.percent, first, second]
  | char r => utf16 r

def octets : Item → List ℕ
  | percent => [0x25]
  | escape first second => [hexByte first second]
  | char r => encodeRune r

end Item

open Item

section

def digitsOf : Text → Option (CodeUnit × CodeUnit × Text)
  | first :: second :: rest => if IsHex first ∧ IsHex second then some (first, second, rest) else none
  | _ => none

def tailOf (u : CodeUnit) : Text → Option (CodeUnit × Text)
  | [] => none
  | v :: rest => if isLeadSurrogate u.val ∧ isTailSurrogate v.val then some (v, rest) else none

def codePoint (u v : CodeUnit) : ℕ := 0x10000 + (u.val - 0xD800) * 1024 + (v.val - 0xDC00)

lemma codePoint_eq (u v : CodeUnit) : codePoint u v = 0x10000 + (u.val - 0xD800) * 1024 + (v.val - 0xDC00) := rfl

attribute [irreducible] codePoint

variable {first second u v : CodeUnit} {s rest : Text}

lemma digitsOf_eq_some (h : digitsOf s = some (first, second, rest)) :
    s = first :: second :: rest ∧ IsHex first ∧ IsHex second := by
  rcases s with _ | ⟨a, _ | ⟨b, s⟩⟩
  · cases h
  · cases h
  · rw [digitsOf] at h
    split at h
    · next hhex =>
      cases h
      exact ⟨rfl, hhex⟩
    · cases h

lemma tailOf_eq_some (h : tailOf u s = some (v, rest)) :
    s = v :: rest ∧ (0xD800 ≤ u.val ∧ u.val < 0xDC00) ∧ 0xDC00 ≤ v.val ∧ v.val < 0xE000 := by
  rcases s with _ | ⟨a, s⟩
  · cases h
  · rw [tailOf] at h
    split at h
    · next hpair =>
      cases h
      exact ⟨rfl, (isLeadSurrogate_iff u.isLt).1 hpair.1, (isTailSurrogate_iff v.isLt).1 hpair.2⟩
    · cases h

def items : Text → List Item
  | [] => []
  | u :: rest =>
    if u = percent then
      match h : digitsOf rest with
      | some (first, second, rest') => .escape first second :: items rest'
      | none => .percent :: items rest
    else
      match h : tailOf u rest with
      | some (v, rest') => .char (codePoint u v) :: items rest'
      | none => .char u.val :: items rest
termination_by s => s.length
decreasing_by
  · rw [(digitsOf_eq_some h).1]
    simp only [length_cons]
    omega
  · exact Nat.lt_succ_self _
  · rw [(tailOf_eq_some h).1]
    simp only [length_cons]
    omega
  · exact Nat.lt_succ_self _

lemma items_escape (h1 : IsHex first) (h2 : IsHex second) (rest : Text) :
    items (percent :: first :: second :: rest) = .escape first second :: items rest := by
  have hdigits : digitsOf (first :: second :: rest) = some (first, second, rest) := if_pos ⟨h1, h2⟩
  rw [items, if_pos rfl]
  split
  · next h =>
    rw [hdigits] at h
    cases h
    rfl
  · next h =>
    rw [hdigits] at h
    cases h

lemma items_char (hu : u.val < 0x80) (hp : u ≠ percent) (rest : Text) :
    items (u :: rest) = .char u.val :: items rest := by
  rw [items, if_neg hp]
  split
  · next h =>
    have := (tailOf_eq_some h).2.1
    omega
  · rfl

lemma items_pair (hu : isLeadSurrogate u.val) (hv : isTailSurrogate v.val)
    (rest : Text) : items (u :: v :: rest) = .char (codePoint u v) :: items rest := by
  have htail : tailOf u (v :: rest) = some (v, rest) := if_pos ⟨hu, hv⟩
  have hp : u ≠ percent := by
    rintro rfl
    exact absurd hu (by decide)
  rw [items, if_neg hp]
  split
  · next h =>
    rw [htail] at h
    cases h
    rfl
  · next h =>
    rw [htail] at h
    cases h

end

structure Rules where
  charTable : List ℕ
  escapeDelimiters : Bool
  replaceBackslash : Bool
  lowerCase : Bool
  unreserved : ∀ n < 128, isUnreservedChar n → inTable charTable n
  slashes : replaceBackslash → inTable charTable 0x2F ∧ ¬inTable charTable 0x5C

variable {r : ℕ}

namespace Rules

def userInfo : Rules := ⟨userinfoTable, false, false, false, by decide +kernel, by decide⟩

def path : Rules := ⟨pathCharOrSlashTable, true, true, false, by decide +kernel, by decide⟩

def query : Rules := ⟨queryCharTable, true, false, false, by decide +kernel, by decide⟩

def regName : Rules := ⟨regNameTable, false, false, true, by decide +kernel, by decide⟩

variable (rules : Rules)

def Allows (r : ℕ) : Prop := r < 127 ∧ inTable rules.charTable r ∧ r ≠ 0x25

instance (r : ℕ) : Decidable (rules.Allows r) :=
  inferInstanceAs (Decidable (r < 127 ∧ inTable rules.charTable r ∧ r ≠ 0x25))

def cased (r : ℕ) : ℕ := if rules.lowerCase ∧ 0x41 ≤ r ∧ r ≤ 0x5A then r + 0x20 else r

lemma cased_of_le (h : 0x5A < r) : rules.cased r = r := if_neg fun hr => by omega

lemma unreserved_letter (h : 0x41 ≤ r ∧ r ≤ 0x5A) : isUnreservedChar r := by
  have key : ∀ n < 0x5B, 0x41 ≤ n → isUnreservedChar n := by decide +kernel
  exact key r (by omega) h.1

lemma allows_unreserved (h : isUnreservedChar r) : rules.Allows r := by
  have hlt : r < 127 := by
    rw [isUnreservedChar, Bool.and_eq_true, decide_eq_true_iff] at h
    exact h.1
  refine ⟨hlt, rules.unreserved r (by omega) h, ?_⟩
  rintro rfl
  exact absurd h (by decide)

lemma unreserved_cased (h : isUnreservedChar r) : isUnreservedChar (rules.cased r) := by
  rw [cased]
  split
  · next hr =>
    have key : ∀ n < 0x5B, 0x41 ≤ n → isUnreservedChar (n + 0x20) := by decide +kernel
    exact key r (by omega) hr.2.1
  · exact h

lemma allows_cased (h : rules.Allows r) : rules.Allows (rules.cased r) := by
  by_cases hr : rules.lowerCase ∧ 0x41 ≤ r ∧ r ≤ 0x5A
  · exact rules.allows_unreserved (rules.unreserved_cased (unreserved_letter hr.2))
  · rw [cased, if_neg hr]
    exact h

lemma cased_cased (r : ℕ) : rules.cased (rules.cased r) = rules.cased r := by
  by_cases hr : rules.lowerCase ∧ 0x41 ≤ r ∧ r ≤ 0x5A
  · have hlower : rules.cased r = r + 0x20 := if_pos hr
    rw [rules.cased_of_le (by omega)]
  · have hsame : rules.cased r = r := if_neg hr
    rw [hsame, hsame]

end Rules

section
variable (rules : Rules)

def merged (r : ℕ) : ℕ := if 0x10000 ≤ r ∧ r / 0x10000 % 2 = 0 then r - 0x10000 else r

def escapes (bytes : List ℕ) : List Item :=
  bytes.map fun byte => .escape (hexDigit (byte / 16)) (hexDigit (byte % 16))

def Item.normalized : Item → Option (List Item)
  | .percent => some [.escape (unit 0x32) (unit 0x35)]
  | .escape first second =>
    if isUnreservedChar (hexByte first second) then some [.char (rules.cased (hexByte first second))]
    else some [.escape (upperUnit first) (upperUnit second)]
  | .char r =>
    if rules.Allows r then some [.char (rules.cased r)]
    else if r = 0x5C ∧ rules.replaceBackslash then some [.char 0x2F]
    else if ¬rules.escapeDelimiters ∧ isGeneralDelimiter r then none
    else some (escapes (encodeRune (merged r)))

def normalizedItems : List Item → Option (List Item)
  | [] => some []
  | item :: rest => do
    let first ← item.normalized rules
    let others ← normalizedItems rest
    some (first ++ others)

def Item.Normal : Item → Prop
  | .percent => False
  | .escape first second => (IsHex first ∧ first.val < 0x61) ∧ (IsHex second ∧ second.val < 0x61) ∧
      ¬isUnreservedChar (hexByte first second)
  | .char r => rules.Allows r ∧ rules.cased r = r

def Item.combined : Item → Item
  | .percent => .percent
  | .escape first second => .escape first second
  | .char r => .char (merged r)

def Item.meaning (item : Item) : List ℕ :=
  if rules.replaceBackslash ∧ item = .char 0x5C then [0x2F] else item.octets.map rules.cased

end

def Item.Proper : Item → Prop
  | .percent => True
  | .escape first second => IsHex first ∧ IsHex second
  | .char r => r ≠ 0x25 ∧ r < 0x110000

lemma proper_items (s : Text) : ∀ item ∈ items s, item.Proper := by
  fun_induction items s with
  | case1 => exact forall_mem_nil _
  | case2 rest first second rest' h ih => exact forall_mem_cons.2 ⟨(digitsOf_eq_some h).2, ih⟩
  | case3 rest h ih => exact forall_mem_cons.2 ⟨trivial, ih⟩
  | case4 u rest hu v rest' h ih =>
    obtain ⟨-, hlead, htail⟩ := tailOf_eq_some h
    refine forall_mem_cons.2 ⟨⟨?_, ?_⟩, ih⟩
    · rw [codePoint_eq]
      omega
    · rw [codePoint_eq]
      omega
  | case5 u rest hu h ih =>
    refine forall_mem_cons.2 ⟨⟨fun hval => hu (Fin.ext hval), ?_⟩, ih⟩
    exact u.isLt.trans (by decide)

section NormalForm
variable {rules : Rules} {item : Item} {out : List Item}

lemma encodeRune_lt (hr : r < 0x110000) : ∀ byte ∈ encodeRune r, byte < 256 := by
  rw [encodeRune]
  split
  · simp only [forall_mem_singleton]
    omega
  split
  · simp only [forall_mem_singleton, forall_mem_cons]
    omega
  split
  · simp only [forall_mem_singleton, forall_mem_cons]
    omega
  · simp only [forall_mem_singleton, forall_mem_cons]
    omega

lemma encodeRune_ge (hr : 0x80 ≤ r) : ∀ byte ∈ encodeRune r, 0x80 ≤ byte := by
  rw [encodeRune, if_neg (by omega)]
  split
  · simp only [forall_mem_singleton, forall_mem_cons]
    omega
  split
  · simp only [forall_mem_singleton, forall_mem_cons]
    omega
  · simp only [forall_mem_singleton, forall_mem_cons]
    omega

lemma merged_lt (hr : r < 0x110000) : merged r < 0x110000 := by
  rw [merged]
  split <;> omega

lemma encodeRune_reserved (hr : ¬rules.Allows r) : ∀ byte ∈ encodeRune (merged r), ¬isUnreservedChar byte := by
  by_cases hlt : r < 0x80
  · rw [merged, if_neg (by omega), encodeRune, if_pos hlt, forall_mem_singleton]
    exact fun h => hr (rules.allows_unreserved h)
  · intro byte hbyte h
    have hge : 0x80 ≤ merged r := by
      rw [merged]
      split <;> omega
    have := encodeRune_ge hge byte hbyte
    have := (rules.allows_unreserved h).1
    omega

variable {bytes : List ℕ}

lemma escapes_normal (hlt : ∀ byte ∈ bytes, byte < 256)
    (hres : ∀ byte ∈ bytes, ¬isUnreservedChar byte) : ∀ item ∈ escapes bytes, item.Normal rules := by
  rw [escapes, forall_mem_map]
  intro byte hbyte
  have hb := hlt byte hbyte
  have hhigh := hexDigit_spec (n := byte / 16) (by omega)
  have hlow := hexDigit_spec (n := byte % 16) (by omega)
  refine ⟨⟨hhigh.1, hhigh.2.1⟩, ⟨hlow.1, hlow.2.1⟩, ?_⟩
  rw [hexByte_hexDigit hb]
  exact hres byte hbyte

lemma octets_escapes (hlt : ∀ byte ∈ bytes, byte < 256) : (escapes bytes).flatMap Item.octets = bytes := by
  rw [escapes, flatMap_map]
  induction bytes with
  | nil => rfl
  | cons byte bytes ih =>
    obtain ⟨hb, hbytes⟩ := forall_mem_cons.1 hlt
    rw [flatMap_cons, ih hbytes, Item.octets, hexByte_hexDigit hb]
    rfl

lemma Item.Normal.of_normalized (hp : item.Proper) (h : item.normalized rules = some out) :
    ∀ it ∈ out, it.Normal rules := by
  cases item with
  | percent =>
    cases h
    rw [forall_mem_singleton]
    exact ⟨⟨by decide, by decide⟩, ⟨by decide, by decide⟩, by decide⟩
  | escape first second =>
    rw [normalized] at h
    split at h
    · next hun =>
      cases h
      rw [forall_mem_singleton]
      exact ⟨rules.allows_unreserved (rules.unreserved_cased hun), rules.cased_cased _⟩
    · next hun =>
      cases h
      rw [forall_mem_singleton]
      refine ⟨⟨hp.1.upper.1, hp.1.upper.2.1⟩, ⟨hp.2.upper.1, hp.2.upper.2.1⟩, ?_⟩
      rw [hexByte_upper hp.1 hp.2]
      exact hun
  | char r =>
    rw [normalized] at h
    split at h
    · next hallow =>
      cases h
      rw [forall_mem_singleton]
      exact ⟨rules.allows_cased hallow, rules.cased_cased r⟩
    · next hallow =>
      split at h
      · next hback =>
        cases h
        rw [forall_mem_singleton]
        refine ⟨⟨by decide, (rules.slashes hback.2).1, by decide⟩, ?_⟩
        rw [Rules.cased, if_neg (by omega)]
      · split at h
        · cases h
        · cases h
          exact escapes_normal (encodeRune_lt (merged_lt hp.2)) (encodeRune_reserved hallow)

lemma Item.Normal.normalized (h : item.Normal rules) : item.normalized rules = some [item] := by
  cases item with
  | percent => exact h.elim
  | escape first second => rw [normalized, if_neg h.2.2, upperUnit_of_lt h.1.2, upperUnit_of_lt h.2.1.2]
  | char r => rw [normalized, if_pos h.1, h.2]

lemma items_text {is : List Item} (h : ∀ item ∈ is, item.Normal rules) : items (is.flatMap text) = is := by
  induction is with
  | nil => rw [flatMap_nil, items]
  | cons item is ih =>
    obtain ⟨hitem, his⟩ := forall_mem_cons.1 h
    rw [flatMap_cons]
    cases item with
    | percent => exact hitem.elim
    | escape first second =>
      rw [text, cons_append, cons_append, singleton_append, items_escape hitem.1.1 hitem.2.1.1, ih his]
    | char r =>
      have hr : r < 127 := hitem.1.1
      have hval : (Fin.ofNat 0x10000 r).val = r := Nat.mod_eq_of_lt (by omega)
      have hne : Fin.ofNat 0x10000 r ≠ percent := by
        intro heq
        apply hitem.1.2.2
        rw [← hval, heq]
        rfl
      rw [text, utf16, if_pos (by omega), singleton_append, items_char (by omega) hne, hval, ih his]

lemma cased_map (h : ∀ byte ∈ bytes, 0x5A < byte) : bytes.map rules.cased = bytes := by
  rw [map_congr_left fun byte hb => rules.cased_of_le (h byte hb)]
  exact map_id' bytes

lemma cased_octets (h : ¬rules.Allows r) : (encodeRune (merged r)).map rules.cased = encodeRune (merged r) := by
  by_cases hlt : r < 0x80
  · rw [merged, if_neg (by omega), encodeRune, if_pos hlt, map_singleton, Rules.cased, if_neg]
    exact fun hr => h (rules.allows_unreserved (Rules.unreserved_letter hr.2))
  · apply cased_map
    intro byte hbyte
    have hge : 0x80 ≤ merged r := by
      rw [merged]
      split <;> omega
    have := encodeRune_ge hge byte hbyte
    omega

lemma octets_char (h : r < 0x80) : (Item.char r).octets = [r] := by rw [Item.octets, encodeRune, if_pos h]

lemma Item.octets_normalized (hp : item.Proper) (h : item.normalized rules = some out) :
    out.flatMap octets = item.combined.meaning rules := by
  cases item with
  | percent =>
    cases h
    rw [combined, meaning, if_neg (by simp)]
    simp only [octets, map_singleton]
    rw [Rules.cased, if_neg (by omega)]
    decide
  | escape first second =>
    rw [combined, meaning, if_neg (by simp)]
    rw [normalized] at h
    split at h
    · next hun =>
      cases h
      have hlt := (rules.allows_unreserved (rules.unreserved_cased hun)).1
      rw [flatMap_singleton, octets_char (by omega)]
      rfl
    · next hun =>
      cases h
      have hcased : rules.cased (hexByte first second) = hexByte first second := by
        rw [Rules.cased, if_neg]
        exact fun hr => hun (Rules.unreserved_letter hr.2)
      rw [flatMap_singleton]
      simp only [octets, map_singleton]
      rw [hexByte_upper hp.1 hp.2, hcased]
  | char r =>
    rw [combined]
    rw [normalized] at h
    have hmerged : r < 0x10000 → merged r = r := fun hr => if_neg (by omega)
    split at h
    · next hallow =>
      cases h
      have hr := hallow.1
      have hcased := (rules.allows_cased hallow).1
      rw [flatMap_singleton, octets_char (by omega), hmerged (by omega), meaning, if_neg, octets_char (by omega)]
      · rfl
      · rintro ⟨hback, heq⟩
        rw [char.injEq] at heq
        exact (rules.slashes hback).2 (heq ▸ hallow.2.1)
    · next hallow =>
      split at h
      · next hback =>
        cases h
        rw [hmerged (by omega), meaning, if_pos ⟨hback.2, congrArg _ hback.1⟩]
        decide
      · next hback =>
        split at h
        · cases h
        · cases h
          rw [octets_escapes (encodeRune_lt (merged_lt hp.2)), meaning, if_neg]
          · exact (cased_octets hallow).symm
          · rintro ⟨hreplace, heq⟩
            rw [char.injEq, merged] at heq
            apply hback
            refine ⟨?_, hreplace⟩
            split at heq <;> omega

end NormalForm
end DartSdk.Uri
