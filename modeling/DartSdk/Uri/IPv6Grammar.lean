import DartSdk.Uri.IPv6Pieces
import Mathlib.Data.List.DropRight
import Mathlib.Data.List.Forall2
import Mathlib.Data.List.TakeWhile

namespace DartSdk.Uri
open DartSdk.Convert List Collected Nat

section

def joinColons (ps : List Text) : Text := [colon].intercalate ps

variable (group octet : Text → ℕ → Prop)

def Quad (p : Text) (values : List ℕ) : Prop :=
  ∃ a b c d va vb vc vd, octet a va ∧ octet b vb ∧ octet c vc ∧ octet d vd ∧
    p = [dot].intercalate [a, b, c, d] ∧ values = [256 * va + vb, 256 * vc + vd]

def LastGroups (p : Text) (values : List ℕ) : Prop := (∃ v, group p v ∧ values = [v]) ∨ Quad octet p values

def Groups (ps : List Text) (values : List ℕ) : Prop :=
  (ps = [] ∧ values = []) ∨ ∃ init last vs ws, ps = init ++ [last] ∧ values = vs ++ ws ∧
    List.Forall₂ group init vs ∧ LastGroups group octet last ws

def Compressed (n : ℕ) (text : Text) (values : List ℕ) : Prop :=
  ∃ ls lvs rs rvs, text = joinColons ls ++ colon :: colon :: joinColons rs ∧ List.Forall₂ group ls lvs ∧
    Groups group octet rs rvs ∧ lvs.length + rvs.length = n ∧ values = lvs ++ replicate (8 - n) 0 ++ rvs

def Address (most : ℕ) (text : Text) (values : List ℕ) : Prop :=
  (∃ ps, text = joinColons ps ∧ Groups group octet ps values ∧ values.length = 8) ∨
    ∃ n ≤ most, Compressed group octet n text values

end

section

def hexValue (p : Text) : ℕ := p.foldl (fun n u => 16 * n + (hexDigitValue u.val).toNat) 0

def H16 (p : Text) (v : ℕ) : Prop := 1 ≤ p.length ∧ p.length ≤ 4 ∧ (∀ u ∈ p, IsHex u) ∧ v = hexValue p

def DecOctet (p : Text) (v : ℕ) : Prop :=
  p ≠ [] ∧ (∀ u ∈ p, IsDigit u) ∧ (p.head? = some (unit 0x30) → p.length = 1) ∧ v = decimalValue p ∧ v ≤ 255

def IPv6Address (text : Text) (values : List ℕ) : Prop := Address H16 DecOctet 7 text values

def addressOctets (values : List ℕ) : List ℕ := values.flatMap fun v => [v / 256, v % 256]

/-- A group as `int.parse` reads it: at most four characters, which are hexadecimal digits with white
space around them and a sign in front; a negative sign only with zero. -/
def LaxGroup (p : Text) (v : ℕ) : Prop :=
  p.length ≤ 4 ∧ ∃ before sign digits after, p = before ++ (sign ++ digits) ++ after ∧
    (∀ u ∈ before, isWhitespace u.val = true) ∧ (∀ u ∈ after, isWhitespace u.val = true) ∧
    (sign = [] ∨ sign = [unit 0x2B] ∨ sign = [unit 0x2D] ∧ v = 0) ∧
    digits ≠ [] ∧ (∀ u ∈ digits, IsHex u) ∧ v = hexValue digits

/-- A decimal octet that may have leading zeros. -/
def LaxOctet (p : Text) (v : ℕ) : Prop := p ≠ [] ∧ (∀ u ∈ p, IsDigit u) ∧ v = decimalValue p ∧ v ≤ 255

end

variable {p : Text} {v : ℕ}

section

lemma blockDigit_eq (u : CodeUnit) : blockDigit u.val = if IsHex u then some (hexDigitValue u.val).toNat else none := by
  by_cases hu : u.val < 128
  · have key : ∀ n < 128, blockDigit (unit n).val =
      if IsHex (unit n) then some (hexDigitValue (unit n).val).toNat else none := by decide +kernel
    exact forall_ascii (p := fun u => blockDigit u.val =
      if IsHex u then some (hexDigitValue u.val).toNat else none) key hu
  · have hxor : (u.val ^^^ 0x30) / 2 ^ 7 = u.val / 2 ^ 7 := by
      rw [xor_div_two_pow]
      exact Nat.xor_zero _
    have hor : u.val ≤ u.val ||| 0x20 := left_le_or
    rw [if_neg fun h => hu (IsHex.lt h), blockDigit, if_pos (by omega)]
    exact if_pos (.inr (by omega))

lemma parseBlock_eq (s : Text) (n : ℕ) : parseBlock s n = if ∀ u ∈ s, IsHex u then
    some (s.foldl (fun n u => 16 * n + (hexDigitValue u.val).toNat) n) else none := by
  induction s generalizing n with
  | nil => rw [if_pos fun u hu => absurd hu not_mem_nil]; rfl
  | cons u s ih =>
    rw [parseBlock, blockDigit_eq]
    by_cases hu : IsHex u
    · rw [if_pos hu]
      change parseBlock s _ = _
      simp only [ih, forall_mem_cons, hu, true_and, foldl_cons]
    · rw [if_neg hu, if_neg fun h => hu (h u mem_cons_self)]
      rfl

variable {z : ℤ}

lemma group_parse (h : group p = some z) : p.length ≤ 4 ∧ parseRadix16 p = .ok z ∧ ∃ v : ℕ, z = v := by
  rw [group] at h
  split_ifs at h with hlen
  cases hparse : parseRadix16 p with
  | error e =>
    rw [hparse] at h
    cases h
  | ok value =>
    rw [hparse] at h
    dsimp only at h
    split_ifs at h with hran
    cases h
    exact ⟨by omega, rfl, z.toNat, by omega⟩

variable {u : CodeUnit} {s : Text}

lemma hexValue_lt (hs : ∀ u ∈ s, IsHex u) (n : ℕ) :
    s.foldl (fun n u => 16 * n + (hexDigitValue u.val).toNat) n < (n + 1) * 16 ^ s.length := by
  induction s generalizing n with
  | nil => rw [foldl_nil, length_nil]; omega
  | cons u s ih =>
    obtain ⟨hu, hs⟩ := forall_mem_cons.1 hs
    have hval := hu.value
    rw [foldl_cons, length_cons, pow_succ]
    refine (ih hs _).trans_le ?_
    rw [mul_comm (16 ^ s.length), ← mul_assoc]
    exact mul_le_mul_right _ (by omega)

lemma IsHex.not_whitespace (h : IsHex u) : isWhitespace u.val = false ∧ u.val ≠ 0x2B ∧ u.val ≠ 0x2D := by
  have key : ∀ n < 128, IsHex (unit n) →
    isWhitespace (unit n).val = false ∧ (unit n).val ≠ 0x2B ∧ (unit n).val ≠ 0x2D := by decide +kernel
  exact forall_ascii (p := fun u => IsHex u → isWhitespace u.val = false ∧ u.val ≠ 0x2B ∧ u.val ≠ 0x2D) key h.lt h

/-- White space around a text that starts and ends without. -/
structure Trimmed (s before mid after : Text) : Prop where
  eq : s = before ++ mid ++ after
  before : ∀ u ∈ before, isWhitespace u.val = true
  after : ∀ u ∈ after, isWhitespace u.val = true
  head : ∀ u, mid.head? = some u → isWhitespace u.val = false
  last : ∀ u, mid.getLast? = some u → isWhitespace u.val = false
  nonempty : mid ≠ []

lemma takeWhile_whitespace {t : Text} (hs : ∀ u ∈ s, isWhitespace u.val = true)
    (ht : ∀ u, t.head? = some u → isWhitespace u.val = false) : (s ++ t).takeWhile (isWhitespace ·.val) = s := by
  rw [takeWhile_append_of_pos hs]
  cases t with
  | nil => exact append_nil s
  | cons u t => rw [takeWhile_cons, ht u rfl, if_neg Bool.false_ne_true, append_nil]

lemma Trimmed.bounds {before mid after : Text} (h : Trimmed s before mid after) :
    firstNonWhitespace s = before.length ∧ afterLastNonWhitespace s = before.length + mid.length := by
  have hne := h.nonempty
  obtain rfl := h.eq
  constructor
  · rw [firstNonWhitespace, append_assoc, takeWhile_whitespace h.before]
    exact fun u hu => h.head u (by rwa [head?_append_of_ne_nil _ hne] at hu)
  · rw [afterLastNonWhitespace, reverse_append, takeWhile_whitespace (fun u hu => h.after u (mem_reverse.1 hu))]
    · simp only [length_append, length_reverse]
      omega
    · intro u hu
      rw [reverse_append, head?_append_of_ne_nil _ (by simpa using hne), head?_reverse] at hu
      exact h.last u hu

lemma exists_trimmed (s : Text) : (∀ u ∈ s, isWhitespace u.val = true) ∨ ∃ before mid after, Trimmed s before mid after := by
  by_cases hall : ∀ u ∈ s, isWhitespace u.val = true
  · exact .inl hall
  refine .inr ⟨s.takeWhile (isWhitespace ·.val), (s.dropWhile (isWhitespace ·.val)).rdropWhile (isWhitespace ·.val),
    (s.dropWhile (isWhitespace ·.val)).rtakeWhile (isWhitespace ·.val), ?_⟩
  have hsplit := rdropWhile_append_rtakeWhile (p := fun u : CodeUnit => isWhitespace u.val)
    (l := s.dropWhile (isWhitespace ·.val))
  have hne : (s.dropWhile (isWhitespace ·.val)).rdropWhile (isWhitespace ·.val) ≠ [] := by
    intro hnil
    rw [rdropWhile_eq_nil_iff] at hnil
    refine hall fun u hu => ?_
    rw [← takeWhile_append_dropWhile (p := fun u : CodeUnit => isWhitespace u.val) (l := s), mem_append] at hu
    exact hu.elim (mem_takeWhile_imp (p := fun u : CodeUnit => isWhitespace u.val)) (hnil u)
  refine ⟨?_, fun u hu => mem_takeWhile_imp (p := fun u : CodeUnit => isWhitespace u.val) hu,
    fun u hu => mem_rtakeWhile_imp (p := fun u : CodeUnit => isWhitespace u.val) hu, fun u hu => ?_, fun u hu => ?_, hne⟩
  · rw [append_assoc, hsplit, takeWhile_append_dropWhile]
  · have hhead : (s.dropWhile (isWhitespace ·.val)).head? = some u := by
      rw [← hsplit, head?_append_of_ne_nil _ hne, hu]
    have hd := head?_dropWhile_not (fun u : CodeUnit => isWhitespace u.val) s
    rw [hhead] at hd
    exact Bool.eq_false_iff.2 (by simpa using hd)
  · rw [getLast?_eq_some_getLast hne] at hu
    have hl := rdropWhile_last_not (fun u : CodeUnit => isWhitespace u.val) _ hne
    rw [Option.some.inj hu] at hl
    exact Bool.eq_false_iff.2 hl

lemma Trimmed.parse {before after : Text} {c : CodeUnit} {t : Text} (h : Trimmed s before (c :: t) after) :
    parseRadix16 s = .ok z ↔ (c.val = 0x2B ∨ c.val = 0x2D → t ≠ []) ∧
      (∀ u ∈ if c.val = 0x2B ∨ c.val = 0x2D then t else c :: t, IsHex u) ∧
      z = (if c.val = 0x2D then -1 else 1) * (hexValue (if c.val = 0x2B ∨ c.val = 0x2D then t else c :: t) : ℤ) := by
  obtain ⟨hfirst, hafter⟩ := h.bounds
  have hdrop : (s.take (before.length + (c :: t).length)).drop before.length = c :: t := by
    rw [h.eq, take_left' (length_append ..), drop_left]
  obtain ⟨-, -, hchar, hnext⟩ := rest_cons hdrop
  have hs : s ≠ [] := by
    rintro rfl
    simpa using h.eq
  rw [parseRadix16]
  dsimp only
  rw [if_neg hs, hafter, if_neg (by rw [length_cons]; omega), hfirst, hchar]
  by_cases hsign : c.val = 0x2B ∨ c.val = 0x2D
  · rw [if_pos hsign, if_pos hsign, substring, hnext, parseBlock_eq]
    cases t with
    | nil =>
      rw [if_pos ⟨hsign, rfl⟩]
      exact iff_of_false (fun h => by cases h) fun h => h.1 hsign rfl
    | cons d t =>
      rw [if_neg (by simp)]
      by_cases hhex : ∀ u ∈ d :: t, IsHex u
      · rw [if_pos hhex]
        exact ⟨fun h => ⟨fun _ => cons_ne_nil d t, hhex, (Except.ok.inj h).symm⟩, fun h => congrArg Except.ok h.2.2.symm⟩
      · rw [if_neg hhex]
        exact iff_of_false (fun h => by cases h) fun h => hhex h.2.1
  · rw [if_neg hsign, if_neg hsign, substring, hdrop, parseBlock_eq, if_neg (by tauto)]
    by_cases hhex : ∀ u ∈ c :: t, IsHex u
    · rw [if_pos hhex]
      exact ⟨fun h => ⟨fun hs => absurd hs hsign, hhex, (Except.ok.inj h).symm⟩, fun h => congrArg Except.ok h.2.2.symm⟩
    · rw [if_neg hhex]
      exact iff_of_false (fun h => by cases h) fun h => hhex h.2.1

lemma laxGroup_of_group (h : group p = some (v : ℤ)) : LaxGroup p v := by
  obtain ⟨hlen, hparse, -⟩ := group_parse h
  refine ⟨hlen, ?_⟩
  rcases exists_trimmed p with hall | ⟨before, mid, after, ht⟩
  · have hstop : afterLastNonWhitespace p = 0 := by
      rw [afterLastNonWhitespace, takeWhile_eq_self_iff.2 fun u hu => hall u (mem_reverse.1 hu), length_reverse,
        Nat.sub_self]
    rw [parseRadix16] at hparse
    dsimp only at hparse
    rw [hstop, if_pos rfl] at hparse
    split_ifs at hparse
  · cases mid with
    | nil => exact absurd rfl ht.nonempty
    | cons c t =>
      obtain ⟨hne, hhex, hv⟩ := ht.parse.1 hparse
      by_cases hsign : c.val = 0x2B ∨ c.val = 0x2D
      · rw [if_pos hsign] at hhex hv
        refine ⟨before, [c], t, after, ht.eq, ht.before, ht.after, .inr ?_, hne hsign, hhex, ?_⟩
        · rcases hsign with hc | hc
          · exact .inl (by rw [show c = unit 0x2B from Fin.ext hc])
          · rw [if_pos hc] at hv
            exact .inr ⟨by rw [show c = unit 0x2D from Fin.ext hc], by omega⟩
        · split_ifs at hv <;> omega
      · rw [if_neg hsign, if_neg (by tauto)] at hv
        rw [if_neg hsign] at hhex
        exact ⟨before, [], c :: t, after, ht.eq, ht.before, ht.after, .inl rfl, cons_ne_nil _ _, hhex, by omega⟩

lemma group_of_laxGroup (h : LaxGroup p v) : group p = some (v : ℤ) := by
  obtain ⟨hlen, before, sign, digits, after, heq, hb, ha, hsign, hne, hhex, hv⟩ := h
  have hlt := hexValue_lt hhex 0
  have hle : digits.length ≤ 4 := by
    rw [heq] at hlen
    simp only [length_append] at hlen
    omega
  have hpow : 16 ^ digits.length ≤ 16 ^ 4 := Nat.pow_le_pow_right (by decide) hle
  have hparse : parseRadix16 p = .ok (v : ℤ) := by
    obtain ⟨d, t, rfl⟩ := exists_cons_of_ne_nil hne
    have hlast (u : CodeUnit) (w : Text) (hu : (w ++ d :: t).getLast? = some u) : isWhitespace u.val = false := by
      rw [getLast?_append_of_ne_nil _ hne] at hu
      exact (hhex u (mem_of_getLast? hu)).not_whitespace.1
    obtain ⟨hd, hplus, hminus⟩ := (hhex d mem_cons_self).not_whitespace
    rcases hsign with rfl | rfl | ⟨rfl, rfl⟩
    · refine (Trimmed.parse ⟨heq, hb, ha, ?_, fun u => hlast u [], cons_ne_nil d t⟩).2 ?_
      · rintro u ⟨⟩
        exact hd
      · simp_all
    · refine (Trimmed.parse (t := d :: t) ⟨heq, hb, ha, ?_, fun u => hlast u [unit 0x2B], cons_ne_nil _ _⟩).2 ?_
      · rintro u ⟨⟩
        rfl
      · exact ⟨fun _ => hne, hhex, by rw [hv]; exact (one_mul _).symm⟩
    · refine (Trimmed.parse (t := d :: t) ⟨heq, hb, ha, ?_, fun u => hlast u [unit 0x2D], cons_ne_nil _ _⟩).2 ?_
      · rintro u ⟨⟩
        rfl
      · refine ⟨fun _ => hne, hhex, ?_⟩
        change (0 : ℤ) = -1 * (hexValue (d :: t) : ℤ)
        omega
  rw [group, if_neg (by omega), hparse]
  exact if_neg (by rw [hv, hexValue]; omega)

lemma laxGroup_iff : LaxGroup p v ↔ group p = some (v : ℤ) := ⟨group_of_laxGroup, laxGroup_of_group⟩

lemma LaxGroup.not_mem (h : LaxGroup p v) {c : CodeUnit} (hspa : isWhitespace c.val = false)
    (hsign : ¬(c.val = 0x2B ∨ c.val = 0x2D)) (hhex : ¬IsHex c) : c ∉ p := by
  obtain ⟨-, before, sign, digits, after, rfl, hb, ha, hs, -, hd, -⟩ := h
  simp only [mem_append, not_or]
  refine ⟨⟨fun hc => ?_, fun hc => ?_, fun hc => hhex (hd c hc)⟩, fun hc => ?_⟩
  · simp [hb c hc] at hspa
  · rcases hs with rfl | rfl | ⟨rfl, -⟩
    · exact not_mem_nil hc
    · exact hsign (.inl (congrArg Fin.val (mem_singleton.1 hc)))
    · exact hsign (.inr (congrArg Fin.val (mem_singleton.1 hc)))
  · simp [ha c hc] at hspa

lemma LaxGroup.ne_nil (h : LaxGroup p v) : p ≠ [] ∧ dot ∉ p := by
  refine ⟨?_, h.not_mem (by decide) (by decide) (by decide)⟩
  rintro rfl
  obtain ⟨-, before, sign, digits, after, heq, -, -, -, hne, -⟩ := h
  simp_all

lemma group_spec (h : group p = some z) : ∃ v : ℕ, z = v ∧ p ≠ [] ∧ dot ∉ p := by
  obtain ⟨-, -, v, rfl⟩ := group_parse h
  exact ⟨v, rfl, (laxGroup_of_group h).ne_nil⟩

lemma colon_not_mem_group (h : LaxGroup p v) : colon ∉ p := h.not_mem (by decide) (by decide) (by decide)

lemma laxGroup_of_h16 (h : H16 p v) : LaxGroup p v := by
  obtain ⟨hpos, hle, hhex, hv⟩ := h
  exact ⟨hle, [], [], p, [], by simp, by simp, by simp, .inl rfl, length_pos_iff.1 hpos, hhex, hv⟩

lemma h16_of_laxGroup (h : LaxGroup p v) (hp : ∀ u ∈ p, IsHex u) : H16 p v := by
  have hh16 : H16 p (hexValue p) := ⟨length_pos_iff.2 h.ne_nil.1, h.1, hp, rfl⟩
  have hv := (laxGroup_iff.1 h).symm.trans (laxGroup_iff.1 (laxGroup_of_h16 hh16))
  rwa [show v = hexValue p by exact_mod_cast Option.some.inj hv]

end

section

lemma octet_eq_some : octet p = some v ↔ LaxOctet p v := by
  rw [octet, LaxOctet]
  split_ifs with h
  · rw [Option.some.injEq]
    constructor
    · rintro rfl
      exact ⟨h.1, h.2.1, rfl, h.2.2⟩
    · exact fun h => h.2.2.1.symm
  · constructor
    · intro h
      cases h
    · rintro ⟨hne, hdigit, rfl, hle⟩
      exact absurd ⟨hne, hdigit, hle⟩ h

lemma laxOctet_of_decOctet (h : DecOctet p v) : LaxOctet p v := ⟨h.1, h.2.1, h.2.2.2.1, h.2.2.2.2⟩

lemma decOctet_of_laxOctet (h : LaxOctet p v) (hp : p.head? = some (unit 0x30) → p.length = 1) : DecOctet p v :=
  ⟨h.1, h.2.1, hp, h.2.2.1, h.2.2.2⟩

lemma not_isDigit_dot : ¬IsDigit dot := by decide

lemma LaxOctet.not_mem_dot (h : LaxOctet p v) : dot ∉ p :=
  fun hdot => not_isDigit_dot (h.2.1 dot hdot)

variable {last : List ℕ} {ps : List Text}

lemma octets_iff {result : List ℕ} : octets ps result = some last ↔
    ps ≠ [] ∧ result.length + ps.length = 4 ∧ ∃ vs, List.Forall₂ LaxOctet ps vs ∧ last = result ++ vs := by
  induction ps generalizing result with
  | nil =>
    constructor
    · intro h
      cases h
    · exact fun h => absurd rfl h.1
  | cons p ps ih =>
    cases ps with
    | nil =>
      rw [octets]
      split_ifs with hlen
      · rw [Option.map_eq_some_iff]
        constructor
        · rintro ⟨v, hv, rfl⟩
          exact ⟨cons_ne_nil _ _, by simp [hlen], [v], .cons (octet_eq_some.1 hv) .nil, rfl⟩
        · rintro ⟨-, -, vs, hvs, rfl⟩
          obtain ⟨v, vs, hv, hnil, rfl⟩ := forall₂_cons_left_iff.1 hvs
          rw [forall₂_nil_left_iff.1 hnil]
          exact ⟨v, octet_eq_some.2 hv, rfl⟩
      · constructor
        · intro h
          cases h
        · rintro ⟨-, hlen', -⟩
          exact absurd (by simpa using hlen') hlen
    | cons q ps =>
      rw [octets]
      split_ifs with hlen
      · constructor
        · intro h
          cases h
        · rintro ⟨-, hlen', -⟩
          rw [length_cons, length_cons] at hlen'
          omega
      · rw [Option.bind_eq_some_iff]
        constructor
        · rintro ⟨v, hv, h⟩
          obtain ⟨-, hlen', vs, hvs, rfl⟩ := ih.1 h
          rw [length_append, length_singleton] at hlen'
          refine ⟨cons_ne_nil _ _, by rw [length_cons]; omega, v :: vs, .cons (octet_eq_some.1 hv) hvs, ?_⟩
          rw [append_assoc, singleton_append]
        · rintro ⟨-, hlen', vs, hvs, rfl⟩
          obtain ⟨v, vs, hv, htail, rfl⟩ := forall₂_cons_left_iff.1 hvs
          rw [length_cons] at hlen'
          refine ⟨v, octet_eq_some.2 hv, ih.2 ⟨cons_ne_nil _ _, ?_, vs, htail, ?_⟩⟩
          · rw [length_append, length_singleton]
            omega
          · rw [append_assoc, singleton_append]

lemma octets_eq_some : octets ps [] = some last ↔
    ∃ a b c d va vb vc vd, LaxOctet a va ∧ LaxOctet b vb ∧ LaxOctet c vc ∧ LaxOctet d vd ∧ ps = [a, b, c, d] ∧
    last = [va, vb, vc, vd] := by
  rw [octets_iff]
  constructor
  · rintro ⟨-, hlen, vs, hvs, rfl⟩
    rw [length_nil, zero_add] at hlen
    obtain ⟨a, b, c, d, rfl⟩ := length_eq_four.1 hlen
    obtain ⟨va, _, ha, h₁, rfl⟩ := forall₂_cons_left_iff.1 hvs
    obtain ⟨vb, _, hb, h₂, rfl⟩ := forall₂_cons_left_iff.1 h₁
    obtain ⟨vc, _, hc, h₃, rfl⟩ := forall₂_cons_left_iff.1 h₂
    obtain ⟨vd, _, hd, h₄, rfl⟩ := forall₂_cons_left_iff.1 h₃
    rw [forall₂_nil_left_iff.1 h₄]
    exact ⟨a, b, c, d, va, vb, vc, vd, ha, hb, hc, hd, rfl, rfl⟩
  · rintro ⟨a, b, c, d, va, vb, vc, vd, ha, hb, hc, hd, rfl, rfl⟩
    exact ⟨cons_ne_nil _ _, rfl, _, .cons ha (.cons hb (.cons hc (.cons hd .nil))), rfl⟩

lemma quad_iff {ws : List ℕ} : Quad LaxOctet p ws ↔ ∃ last, octets (p.splitOn dot) [] = some last ∧
    ws = [last.getD 0 0 <<< 8 ||| last.getD 1 0, last.getD 2 0 <<< 8 ||| last.getD 3 0] := by
  have hor {m n : ℕ} (hn : n ≤ 255) : m <<< 8 ||| n = 256 * m + n := by
    rw [← shiftLeft_add_eq_or_of_lt (by omega)]
    omega
  constructor
  · rintro ⟨a, b, c, d, va, vb, vc, vd, ha, hb, hc, hd, rfl, rfl⟩
    have hspl : ([dot].intercalate [a, b, c, d]).splitOn dot = [a, b, c, d] := by
      apply splitOn_intercalate
      · simp only [forall_mem_singleton, forall_mem_cons]
        exact ⟨ha.not_mem_dot, hb.not_mem_dot, hc.not_mem_dot, hd.not_mem_dot⟩
      · exact cons_ne_nil _ _
    refine ⟨[va, vb, vc, vd], ?_, ?_⟩
    · rw [hspl, octets_eq_some]
      exact ⟨a, b, c, d, va, vb, vc, vd, ha, hb, hc, hd, rfl, rfl⟩
    · have hb' := hb.2.2.2
      have hd' := hd.2.2.2
      rw [← hor hb', ← hor hd']
      rfl
  · rintro ⟨last, h, rfl⟩
    obtain ⟨a, b, c, d, va, vb, vc, vd, ha, hb, hc, hd, hspl, rfl⟩ := octets_eq_some.1 h
    refine ⟨a, b, c, d, va, vb, vc, vd, ha, hb, hc, hd, ?_, ?_⟩
    · rw [← hspl, intercalate_splitOn]
    · have hb' := hb.2.2.2
      have hd' := hd.2.2.2
      rw [← hor hb', ← hor hd']
      rfl

end

section

lemma cast_ne_wildcard (v : ℕ) : (v : ℤ) ≠ -1 := by omega

variable {s : Collected}

lemma add_eq_some {s' : Collected} {q : Text} : s.add q = some s' ↔
    (q = [] ∧ s.wildcardSeen = false ∧ s' = ⟨s.parts ++ [-1], true, s.seenDot⟩) ∨
    ∃ v : ℕ, LaxGroup q v ∧ s' = ⟨s.parts ++ [(v : ℤ)], s.wildcardSeen, s.seenDot⟩ := by
  rw [add]
  constructor
  · intro h
    split_ifs at h with hq hw
    · cases h
      exact .inl ⟨hq, Bool.not_eq_true _ ▸ hw, rfl⟩
    · obtain ⟨z, hz, rfl⟩ := Option.map_eq_some_iff.1 h
      obtain ⟨v, rfl, -, hdot⟩ := group_spec hz
      exact .inr ⟨v, laxGroup_of_group hz, by rw [decide_eq_false hdot, Bool.or_false]⟩
  · rintro (⟨rfl, hw, rfl⟩ | ⟨v, hv, rfl⟩)
    · rw [if_pos rfl, hw, if_neg Bool.false_ne_true]
    · obtain ⟨hne, hdot⟩ := hv.ne_nil
      rw [if_neg hne, group_of_laxGroup hv, Option.map_some, decide_eq_false hdot, Bool.or_false]

/-- The pieces are groups up to the last one, or up to an empty piece from where the collecting goes on. -/
lemma run_bind_iff {ps : List Text} {f : Collected × Text → Option (List ℕ)} {bytes : List ℕ} :
    (s.run ps).bind f = some bytes ↔ (∃ init p vs, ps = init ++ [p] ∧ List.Forall₂ LaxGroup init vs ∧
    f (⟨s.parts ++ vs.map Nat.cast, s.wildcardSeen, s.seenDot || decide (dot ∈ p)⟩, p) = some bytes) ∨
    s.wildcardSeen = false ∧ ∃ ls lvs rs, ps = ls ++ [] :: rs ∧ List.Forall₂ LaxGroup ls lvs ∧
    (run ⟨s.parts ++ lvs.map Nat.cast ++ [-1], true, s.seenDot⟩ rs).bind f = some bytes := by
  induction ps generalizing s with
  | nil => simp [run]
  | cons q qs ih =>
    cases qs with
    | nil =>
      constructor
      · intro h
        exact .inl ⟨[], q, [], rfl, .nil, by rwa [map_nil, append_nil]⟩
      · rintro (⟨init, p, vs, h, hvs, hf⟩ | ⟨-, ls, lvs, rs, h, -, hf⟩)
        · cases init with
          | nil =>
            cases h
            rwa [forall₂_nil_left_iff.1 hvs, map_nil, append_nil] at hf
          | cons a init => cases init <;> cases h
        · cases ls with
          | nil =>
            cases h
            cases hf
          | cons a ls => cases ls <;> cases h
    | cons q' qs =>
      rw [run, Option.bind_assoc, Option.bind_eq_some_iff]
      constructor
      · rintro ⟨s', hadd, h⟩
        rcases add_eq_some.1 hadd with ⟨rfl, hw, rfl⟩ | ⟨v, hv, rfl⟩
        · exact .inr ⟨hw, [], [], q' :: qs, rfl, .nil, by rwa [map_nil, append_nil]⟩
        · rcases ih.1 h with ⟨init, p, vs, heq, hvs, hf⟩ | ⟨hw, ls, lvs, rs, heq, hls, hf⟩
          · refine .inl ⟨q :: init, p, v :: vs, by rw [heq, cons_append], .cons hv hvs, ?_⟩
            rwa [map_cons, append_cons s.parts]
          · refine .inr ⟨hw, q :: ls, v :: lvs, rs, by rw [heq, cons_append], .cons hv hls, ?_⟩
            rwa [map_cons, append_cons s.parts]
      · rintro (⟨init, p, vs, heq, hvs, hf⟩ | ⟨hw, ls, lvs, rs, heq, hls, hf⟩)
        · cases init with
          | nil => cases heq
          | cons a init =>
            obtain ⟨rfl, htl⟩ := cons.inj heq
            obtain ⟨v, vs, hv, htail, rfl⟩ := forall₂_cons_left_iff.1 hvs
            rw [map_cons, append_cons s.parts] at hf
            exact ⟨_, add_eq_some.2 (.inr ⟨v, hv, rfl⟩), ih.2 (.inl ⟨init, p, vs, htl, htail, hf⟩)⟩
        · cases ls with
          | nil =>
            obtain ⟨rfl, rfl⟩ := cons.inj heq
            rw [forall₂_nil_left_iff.1 hls, map_nil, append_nil] at hf
            exact ⟨_, add_eq_some.2 (.inl ⟨rfl, hw, rfl⟩), hf⟩
          | cons a ls =>
            obtain ⟨rfl, htl⟩ := cons.inj heq
            obtain ⟨v, lvs, hv, htail, rfl⟩ := forall₂_cons_left_iff.1 hls
            rw [map_cons, append_cons s.parts] at hf
            exact ⟨_, add_eq_some.2 (.inr ⟨v, hv, rfl⟩), ih.2 (.inr ⟨hw, ls, lvs, rs, htl, htail, hf⟩)⟩

lemma lastPiece_iff (hp : p ≠ []) (hs : s.seenDot = decide (dot ∈ p)) {parts : List ℤ} : lastPiece s p = some parts ↔
    ∃ ws, LastGroups LaxGroup LaxOctet p ws ∧ parts = s.parts ++ ws.map Nat.cast := by
  rw [lastPiece, if_neg hp, hs]
  by_cases hdot : dot ∈ p
  · rw [decide_eq_true hdot, if_neg (Ne.symm Bool.false_ne_true), Option.map_eq_some_iff]
    constructor
    · rintro ⟨last, hlast, rfl⟩
      exact ⟨_, .inr (quad_iff.2 ⟨last, hlast, rfl⟩), rfl⟩
    · rintro ⟨ws, ⟨v, hv, -⟩ | hquad, rfl⟩
      · exact absurd hdot hv.ne_nil.2
      · obtain ⟨last, hlast, rfl⟩ := quad_iff.1 hquad
        exact ⟨last, hlast, rfl⟩
  · rw [decide_eq_false hdot, if_pos rfl, Option.map_eq_some_iff]
    constructor
    · rintro ⟨z, hz, rfl⟩
      obtain ⟨v, rfl, -⟩ := group_spec hz
      exact ⟨[v], .inl ⟨v, laxGroup_of_group hz, rfl⟩, rfl⟩
    · rintro ⟨ws, ⟨v, hv, rfl⟩ | ⟨a, b, c, d, va, vb, vc, vd, -, -, -, -, rfl, -⟩, rfl⟩
      · exact ⟨v, group_of_laxGroup hv, rfl⟩
      · refine absurd ?_ hdot
        simp [intercalate_cons_cons]

end

section

def pad (ps : List Text) : List Text := if ps = [] then [[]] else ps

variable {ps : List Text}

lemma pad_of_ne_nil (h : ps ≠ []) : pad ps = ps := if_neg h

lemma LastGroups.spec {ws : List ℕ} (h : LastGroups LaxGroup LaxOctet p ws) :
    p ≠ [] ∧ colon ∉ p ∧ ws.length = 1 + if dot ∈ p then 1 else 0 := by
  rcases h with ⟨v, hv, rfl⟩ | ⟨a, b, c, d, va, vb, vc, vd, ha, hb, hc, hd, rfl, rfl⟩
  · obtain ⟨hne, hdot⟩ := hv.ne_nil
    exact ⟨hne, colon_not_mem_group hv, by rw [if_neg hdot]; rfl⟩
  · have hcol {q : Text} {v : ℕ} (hq : LaxOctet q v) : colon ∉ q :=
      fun h => absurd (hq.2.1 colon h) (by decide)
    have hdots : [dot].intercalate [a, b, c, d] = a ++ dot :: (b ++ dot :: (c ++ dot :: d)) := by
      simp [intercalate_cons_cons]
    rw [hdots]
    refine ⟨by simp, ?_, ?_⟩
    · have hne : colon ≠ dot := by decide
      simp only [mem_append, mem_cons, hcol ha, hcol hb, hcol hc, hcol hd, hne, or_self, not_false_eq_true]
    · rw [if_pos (by simp)]
      rfl

variable {vs : List ℕ}

lemma groups_mem (h : List.Forall₂ LaxGroup ps vs) (hp : p ∈ ps) : p ≠ [] ∧ colon ∉ p ∧ dot ∉ p := by
  induction h with
  | nil => exact absurd hp not_mem_nil
  | cons hv _ ih =>
    rcases mem_cons.1 hp with rfl | hp
    · obtain ⟨hne, hdot⟩ := hv.ne_nil
      exact ⟨hne, colon_not_mem_group hv, hdot⟩
    · exact ih hp

lemma Groups.spec (h : Groups LaxGroup LaxOctet ps vs) :
    (∀ p ∈ ps, p ≠ [] ∧ colon ∉ p) ∧ vs.length = ps.length + if ∃ p ∈ ps, dot ∈ p then 1 else 0 := by
  rcases h with ⟨rfl, rfl⟩ | ⟨init, last, vs, ws, rfl, rfl, hinit, hlast⟩
  · exact ⟨nofun, by simp⟩
  · obtain ⟨hne, hcol, hlen⟩ := hlast.spec
    constructor
    · intro p hp
      rcases mem_append.1 hp with hp | hp
      · exact ⟨(groups_mem hinit hp).1, (groups_mem hinit hp).2.1⟩
      · rw [mem_singleton.1 hp]
        exact ⟨hne, hcol⟩
    · have hdot : (∃ p ∈ init ++ [last], dot ∈ p) ↔ dot ∈ last := by
        constructor
        · rintro ⟨p, hp, hdot⟩
          rcases mem_append.1 hp with hp | hp
          · exact absurd hdot (groups_mem hinit hp).2.2
          · rwa [← mem_singleton.1 hp]
        · exact fun h => ⟨last, by simp, h⟩
      rw [length_append, length_append, hinit.length_eq, length_singleton]
      simp only [hdot]
      omega

lemma splitOn_joinColons (h : ∀ p ∈ ps, colon ∉ p) : (joinColons ps).splitOn colon = pad ps := by
  by_cases hps : ps = []
  · subst hps
    rfl
  · rw [pad_of_ne_nil hps]
    exact splitOn_intercalate colon h hps

lemma splitOn_compressed {ls rs : List Text} (hl : ∀ p ∈ ls, colon ∉ p) (hr : ∀ p ∈ rs, colon ∉ p) :
    (joinColons ls ++ colon :: colon :: joinColons rs).splitOn colon = pad ls ++ [] :: pad rs := by
  have hrig : (colon :: joinColons rs).splitOn colon = [] :: pad rs := by
    rw [← nil_append (colon :: joinColons rs), splitOn_append_cons_self, splitOn_joinColons hr]
    rfl
  rw [splitOn_append_cons_self, splitOn_joinColons hl, hrig]

lemma splitOn_injective {s t : Text} (h : s.splitOn colon = t.splitOn colon) : s = t := by
  have := congrArg [colon].intercalate h
  rwa [intercalate_splitOn, intercalate_splitOn] at this

end

section

lemma addressOctets_append (vs ws : List ℕ) :
    addressOctets (vs ++ ws) = addressOctets vs ++ addressOctets ws := flatMap_append

lemma addressOctets_zeros (n : ℕ) : addressOctets (replicate n 0) = replicate (2 * n) 0 := by
  induction n with
  | zero => rfl
  | succ n ih =>
    rw [replicate_succ, addressOctets, flatMap_cons, ← addressOctets, ih, mul_add, add_comm, replicate_add]
    rfl

lemma partBytes_values (k : ℕ) (vs : List ℕ) :
    (vs.map (Nat.cast : ℕ → ℤ)).flatMap (partBytes k) = addressOctets vs := by
  rw [flatMap_map]
  congr 1
  funext v
  rw [partBytes, Int.toNat_natCast, shiftRight_eq_div_pow]
  have hlow : v &&& 0xff = v % 2 ^ 8 := and_two_pow_sub_one_eq_mod v 8
  rw [hlow]
  rfl

end

section
variable {ps : List Text} {bytes : List ℕ}

lemma pad_ne_nil (rs : List Text) : pad rs ≠ [] := by
  rw [pad]
  split_ifs with h
  · exact cons_ne_nil _ _
  · exact h

lemma exists_finishPieces {base : List ℤ} {wildcardSeen : Bool} (hb : base = [] → wildcardSeen = false) :
    (∃ init p vs, ps = init ++ [p] ∧ List.Forall₂ LaxGroup init vs ∧
        finishPieces (⟨base ++ vs.map Nat.cast, wildcardSeen, decide (dot ∈ p)⟩, p) = some bytes) ↔
      ∃ rs rvs, ps = pad rs ∧ Groups LaxGroup LaxOctet rs rvs ∧ (rs = [] → base.getLast? = some (-1)) ∧
        (if wildcardSeen then base.length + rvs.length ≤ 7 else base.length + rvs.length = 8) ∧
        bytes = (base ++ rvs.map Nat.cast).flatMap (partBytes (9 - (base.length + rvs.length))) := by
  have hfini {r : Collected × Text} {parts : List ℤ} (hzero : r.1.parts.length ≠ 0) (h : lastPiece r.1 r.2 = some parts) :
      finishPieces r = some bytes ↔ (if r.1.wildcardSeen then parts.length ≤ 7 else parts.length = 8) ∧
        bytes = parts.flatMap (partBytes (9 - parts.length)) := by
    rw [finishPieces, if_neg hzero, h, Option.bind_some]
    by_cases hw : r.1.wildcardSeen = true
    · rw [if_pos hw, if_pos hw, Option.ite_none_left_eq_some, Option.some_inj, not_lt, eq_comm (b := bytes)]
    · rw [if_neg hw, if_neg hw, Option.ite_none_left_eq_some, Option.some_inj, not_not, eq_comm (b := bytes)]
  constructor
  · rintro ⟨init, p, vs, rfl, hinit, hfin⟩
    have hzero : (base ++ vs.map Nat.cast).length ≠ 0 := by
      intro h
      rw [finishPieces, if_pos h] at hfin
      cases hfin
    obtain ⟨parts, hpar, -⟩ := Option.bind_eq_some_iff.1 (by rwa [finishPieces, if_neg hzero] at hfin)
    obtain ⟨hlen, rfl⟩ := (hfini hzero hpar).1 hfin
    by_cases hp : p = []
    · subst hp
      rw [lastPiece, if_pos rfl] at hpar
      split_ifs at hpar with hwild
      cases hpar
      have hvs : vs = [] := by
        by_contra hne
        rw [getLast?_append_of_ne_nil _ (by simpa using hne), getLast?_map] at hwild
        obtain ⟨v, -, hv⟩ := Option.map_eq_some_iff.1 hwild
        exact cast_ne_wildcard v hv
      subst hvs
      rw [map_nil, append_nil] at hwild hlen ⊢
      rw [forall₂_nil_right_iff.1 hinit]
      exact ⟨[], [], rfl, .inl ⟨rfl, rfl⟩, fun _ => hwild, hlen, by rw [map_nil, append_nil]; rfl⟩
    · obtain ⟨ws, hws, rfl⟩ := (lastPiece_iff hp rfl).1 hpar
      rw [append_assoc, ← map_append, length_append, length_map] at hlen ⊢
      exact ⟨init ++ [p], vs ++ ws, (pad_of_ne_nil (by simp)).symm, .inr ⟨init, p, vs, ws, rfl, rfl, hinit, hws⟩,
        fun h => absurd h (by simp), hlen, rfl⟩
  · rintro ⟨rs, rvs, rfl, hrs, hwild, hlen, hbyt⟩
    rcases hrs with ⟨rfl, rfl⟩ | ⟨init, last, vs, ws, rfl, rfl, hinit, hlast⟩
    · have hwild := hwild rfl
      refine ⟨[], [], [], rfl, .nil, ?_⟩
      rw [map_nil, append_nil] at hbyt ⊢
      refine (hfini ?_ ?_).2 ⟨hlen, hbyt⟩
      · rw [Ne, length_eq_zero_iff]
        rintro rfl
        cases hwild
      · rw [lastPiece, if_pos rfl, if_pos hwild]
    · obtain ⟨hne, -, hws⟩ := hlast.spec
      refine ⟨init, last, vs, pad_of_ne_nil (by simp), hinit, ?_⟩
      rw [hfini ?_ ((lastPiece_iff hne rfl).2 ⟨ws, hlast, rfl⟩), append_assoc, ← map_append, length_append, length_map]
      · exact ⟨hlen, hbyt⟩
      · intro hzero
        obtain ⟨rfl, hnil⟩ := append_eq_nil_iff.1 (length_eq_zero_iff.1 hzero)
        rw [hb rfl, map_eq_nil_iff.1 hnil, nil_append, hws, length_nil] at hlen
        split_ifs at hlen <;> omega

/-- The pieces after the empty one give the groups on the right of the zeros. -/
def Filled (lvs : List ℕ) (ps : List Text) (bytes : List ℕ) : Prop :=
  ∃ rs rvs, ps = pad rs ∧ Groups LaxGroup LaxOctet rs rvs ∧ lvs.length + rvs.length ≤ 6 ∧
    bytes = addressOctets (lvs ++ replicate (8 - (lvs.length + rvs.length)) 0 ++ rvs)

lemma run_filled (lvs : List ℕ) :
    ((⟨lvs.map Nat.cast ++ [-1], true, false⟩ : Collected).run ps).bind finishPieces = some bytes ↔
    Filled lvs ps bytes := by
  rw [run_bind_iff, or_iff_left fun h => Bool.noConfusion h.1]
  simp only [Bool.false_or]
  rw [exists_finishPieces fun h => absurd h (by simp)]
  have hlen (rvs : List ℕ) : (lvs.map (Nat.cast : ℕ → ℤ) ++ [-1]).length + rvs.length = lvs.length + rvs.length + 1 := by
    rw [length_append, length_map, length_singleton]
    omega
  refine exists_congr fun rs => exists_congr fun rvs => and_congr_right fun _ => and_congr_right fun _ => ?_
  rw [and_iff_right fun _ => getLast?_concat, hlen, show 9 = 8 + 1 from rfl, Nat.add_sub_add_right,
    flatMap_append, flatMap_append, partBytes_values, partBytes_values, flatMap_singleton,
    addressOctets_append, addressOctets_append, addressOctets_zeros]
  exact and_congr_left' succ_le_succ_iff

lemma parsePieces_iff : parsePieces ps = some bytes ↔
    (∃ vs, Groups LaxGroup LaxOctet ps vs ∧ vs.length = 8 ∧ bytes = addressOctets vs) ∨
    ∃ ls lvs qs, ps = pad ls ++ [] :: qs ∧ List.Forall₂ LaxGroup ls lvs ∧ Filled lvs qs bytes := by
  have hne {q : Text} {v : ℕ} (hv : LaxGroup q v) : q ≠ [] := hv.ne_nil.1
  by_cases hhead : ps.head? = some []
  · -- The range starts with a colon, or is empty.
    obtain ⟨ps, rfl⟩ := head?_eq_some_iff.1 hhead
    rw [or_iff_right fun ⟨vs, hvs, _⟩ => (hvs.spec.1 [] mem_cons_self).1 rfl]
    have hright : (∃ ls lvs qs, [] :: ps = pad ls ++ [] :: qs ∧ List.Forall₂ LaxGroup ls lvs ∧ Filled lvs qs bytes) ↔
        ∃ qs, ps = [] :: qs ∧ Filled [] qs bytes := by
      constructor
      · rintro ⟨ls, lvs, qs, heq, hls, hqs⟩
        cases hls with
        | nil => exact ⟨qs, (cons.inj heq).2, hqs⟩
        | cons hv _ => exact absurd (cons.inj heq).1.symm (hne hv)
      · rintro ⟨qs, rfl, hqs⟩
        exact ⟨[], [], qs, rfl, .nil, hqs⟩
    rw [hright]
    match ps with
    | [] | (_ :: _) :: _ => simp [parsePieces]
    | [[]] =>
      refine iff_of_false nofun ?_
      rintro ⟨qs, heq, rs, rvs, rfl, -⟩
      exact pad_ne_nil rs (cons.inj heq).2.symm
    | [] :: q :: qs =>
      refine (run_filled []).trans ⟨fun h => ⟨_, rfl, h⟩, ?_⟩
      rintro ⟨qs, heq, h⟩
      rwa [(cons.inj heq).2]
  · have hparse : parsePieces ps = ((⟨[], false, false⟩ : Collected).run ps).bind finishPieces := by
      cases ps with
      | nil => rfl
      | cons p ps => exact parsePieces_cons fun h => hhead (by rw [h, head?_cons])
    rw [hparse, run_bind_iff]
    simp only [nil_append, true_and, run_filled]
    apply or_congr
    · -- Groups only.
      refine (@exists_finishPieces ps bytes [] false fun _ => rfl).trans ?_
      constructor
      · rintro ⟨rs, rvs, rfl, hrs, hwild, hlen, rfl⟩
        rw [pad_of_ne_nil fun h => by cases hwild h]
        exact ⟨rvs, hrs, by simpa using hlen, partBytes_values _ _⟩
      · rintro ⟨vs, hvs, hlen, rfl⟩
        have hps : ps ≠ [] := by
          rintro rfl
          have := hvs.spec.2
          rw [hlen] at this
          simp at this
        exact ⟨ps, vs, (pad_of_ne_nil hps).symm, hvs, fun h => absurd h hps, by simpa using hlen, (partBytes_values _ _).symm⟩
    · refine exists_congr fun ls => exists_congr fun lvs => exists_congr fun qs => and_congr_left fun _ => ?_
      cases ls with
      | nil =>
        refine iff_of_false ?_ ?_
        · rintro rfl
          exact hhead rfl
        · rintro rfl
          exact hhead rfl
      | cons a ls => rw [pad_of_ne_nil (cons_ne_nil _ _)]

end
end DartSdk.Uri
