import DartSdk.Convert.Utf8Machine
import Mathlib.Data.List.Basic

namespace DartSdk.Convert.Utf8Decoder
open List
variable {state char : ℕ} {byte : Octet} {p : Partial}

section

def waiting : List (ℕ × List (ℕ × ℕ)) :=
  [(X1, [(0x80, 0xBF)]), (X2, [(0x80, 0xBF), (0x80, 0xBF)]), (X3, [(0x80, 0xBF), (0x80, 0xBF), (0x80, 0xBF)]),
    (TO, [(0xA0, 0xBF), (0x80, 0xBF)]),
    (TS, [(0x80, 0x9F), (0x80, 0xBF)]),
    (QO, [(0x90, 0xBF), (0x80, 0xBF), (0x80, 0xBF)]),
    (QR, [(0x80, 0x8F), (0x80, 0xBF), (0x80, 0xBF)])]

def Carries (state char : ℕ) : Prop :=
  (state = TO ∨ state = TS → char < 0x10) ∧ (state = X3 ∨ state = QR → 1 ≤ char)

instance (state char : ℕ) : Decidable (Carries state char) := by
  unfold Carries
  infer_instance

inductive Reads : ℕ → ℕ → Partial → Prop
  | accept (char : ℕ) : Reads accept char none
  | pending {state char : ℕ} {ranges : List (ℕ × ℕ)} (hwaits : (state, ranges) ∈ waiting)
    (hcarries : Carries state char) : Reads state char (some (ranges, char))

lemma waiting_state : ∀ w ∈ waiting, w.1 ≠ accept ∧ isErrorState w.1 = false ∧ afterBom < w.1 := by decide

def IsExtension (byte : Octet) : Prop := 0x80 ≤ byte.val ∧ byte.val < 0xC0

instance (byte : Octet) : Decidable (IsExtension byte) := by
  unfold IsExtension
  infer_instance

lemma Reads.not_error (h : Reads state char p) : isErrorState state = false := by
  cases h with
  | accept => decide
  | pending hwaits => exact (waiting_state _ hwaits).2.1

lemma transition_first : ∀ byte : Octet,
    (byte.val < 0x80 → transition (byteType byte) = accept ∧ firstChar byte = byte.val) ∧
    (0x80 ≤ byte.val → tailRanges byte.val = none → transition (byteType byte) ∈ [E2, E3]) ∧
    ∀ ranges ∈ tailRanges byte.val, (transition (byteType byte), ranges) ∈ waiting ∧
    firstChar byte = leadBits byte.val ∧ Carries (transition (byteType byte)) (firstChar byte) := by
  decide +kernel

lemma transition_missing : ∀ w ∈ waiting, ∀ byte : Octet, ¬IsExtension byte →
    transition (w.1 + byteType byte) = E1 := by
  decide +kernel

lemma transition_waiting : ∀ w ∈ waiting, ∀ range ∈ w.2.head?, ∀ byte : Octet, IsExtension byte →
    (range.1 ≤ byte.val ∧ byte.val ≤ range.2 ∧ w.2.tail = [] ∧ transition (w.1 + byteType byte) = accept) ∨
    (range.1 ≤ byte.val ∧ byte.val ≤ range.2 ∧ w.2.tail ≠ [] ∧
    (transition (w.1 + byteType byte), w.2.tail) ∈ waiting ∧ transition (w.1 + byteType byte) ∈ [X1, X2]) ∨
    ¬(range.1 ≤ byte.val ∧ byte.val ≤ range.2) ∧ transition (w.1 + byteType byte) ∈ [E4, E5, E6] := by
  decide +kernel

lemma short_states : ∀ state ∈ [X1, X2], ¬(state = TO ∨ state = TS) ∧ ¬(state = X3 ∨ state = QR) := by decide

lemma carries_short {state : ℕ} (h : state ∈ [X1, X2]) (char : ℕ) : Carries state char := by
  obtain ⟨h₂, h₃⟩ := short_states state h
  exact ⟨fun h => absurd h h₂, fun h => absurd h h₃⟩

lemma waiting_ranges : ∀ w ∈ waiting, w.2 ≠ [] ∧ ∀ range ∈ w.2, 0x80 ≤ range.1 ∧ range.2 < 0xC0 := by decide

lemma nextChar_extension {char : ℕ} (byte : Octet) (h : IsExtension byte) :
    nextChar char byte = char * 64 + (byte.val - 0x80) := by
  have hlow : byte.val &&& 0x3F = byte.val - 0x80 := by
    have hmod := Nat.and_two_pow_sub_one_eq_mod byte.val 6
    rw [IsExtension] at h
    rw [hmod]
    omega
  have hlt : byte.val - 0x80 < 2 ^ 6 := by
    rw [IsExtension] at h
    omega
  rw [nextChar, hlow, Nat.or_comm, Nat.shiftLeft_eq, Nat.mul_comm char, ← Nat.two_pow_add_eq_or_of_lt hlt]

def charAfter (state char : ℕ) (byte : Octet) : ℕ :=
  if state = accept then firstChar byte else nextChar char byte

inductive Follows (state char : ℕ) (p : Partial) (byte : Octet) : Prop
  | character (hstate : state = accept) (hstep : step p byte = ([some char], none))
  | waits (p' : Partial) (hreads : Reads state char p') (hne : state ≠ accept)
    (hstep : step p byte = ([], p'))
  | unexpected (hstate : state ∈ [E2, E3]) (hp : p = none) (hstep : step p byte = ([none], none))
  | outside (hstate : state ∈ [E4, E5, E6]) (hstep : step p byte = ([none, none], none))
  | missing (hstate : state = E1) (hp : p ≠ none)
    (hstep : step p byte = (none :: (step none byte).1, (step none byte).2))

lemma follows_first (byte : Octet) : Follows (transition (byteType byte)) (firstChar byte) none byte := by
  by_cases hasc : byte.val < 0x80
  · obtain ⟨hstate, hchar⟩ := (transition_first byte).1 hasc
    apply Follows.character hstate
    rw [step, begin, if_pos hasc, hchar]
  cases hran : tailRanges byte.val with
  | none =>
    apply Follows.unexpected ((transition_first byte).2.1 (by omega) hran) rfl
    rw [step, begin, if_neg hasc, hran]
  | some ranges =>
    obtain ⟨hwaits, hchar, hcarries⟩ := (transition_first byte).2.2 ranges hran
    apply Follows.waits _ (.pending hwaits hcarries) (waiting_state _ hwaits).1
    rw [step, begin, if_neg hasc, hran, hchar]

lemma begin_extension (h : IsExtension byte) : begin byte = ([none], none) := by
  rw [IsExtension] at h
  rw [begin, if_neg (by omega), tailRanges, if_pos (by omega)]

lemma follows_next {ranges : List (ℕ × ℕ)} (hwaits : (state, ranges) ∈ waiting) (byte : Octet) :
    Follows (transition (state + byteType byte)) (nextChar char byte) (some (ranges, char)) byte := by
  obtain ⟨hne, hin⟩ := waiting_ranges _ hwaits
  obtain ⟨range, ranges, rfl⟩ := exists_cons_of_ne_nil hne
  by_cases hext : IsExtension byte
  · obtain ⟨hlo, hhi, hlast, hstate⟩ | ⟨hlo, hhi, hlast, hwaits', hstate⟩ | ⟨hrange, hstate⟩ :=
      transition_waiting _ hwaits range rfl byte hext
    · apply Follows.character hstate
      rw [step, if_pos ⟨hlo, hhi⟩, if_pos (show ranges = [] from hlast), nextChar_extension byte hext]
    · refine Follows.waits _ (.pending hwaits' (carries_short hstate _)) (waiting_state _ hwaits').1 ?_
      rw [step, if_pos ⟨hlo, hhi⟩, if_neg (show ranges ≠ [] from hlast), nextChar_extension byte hext]
      rfl
    · apply Follows.outside hstate
      rw [step, if_neg hrange, begin_extension hext]
  · refine Follows.missing (transition_missing _ hwaits byte hext) (by simp) ?_
    refine if_neg fun hrange => hext ?_
    obtain ⟨hlo, hhi⟩ := hin range mem_cons_self
    rw [IsExtension]
    omega

lemma Reads.follows (h : Reads state char p) (byte : Octet) :
    Follows (transition (state + byteType byte)) (charAfter state char byte) p byte := by
  cases h with
  | accept char =>
    rw [charAfter, Utf8Decoder.accept, IA, Nat.zero_add]
    exact follows_first byte
  | pending hwaits hcarries =>
    rw [charAfter, if_neg (waiting_state _ hwaits).1]
    exact follows_next hwaits byte

end

section

def flag (byte : Octet) : ℕ := scanTable.getD byte.val 0 &&& flagsMask

def size (byte : Octet) : ℕ := scanTable.getD byte.val 0 &&& sizeMask

def flagsOf (bytes : List Octet) : ℕ := bytes.foldr (fun byte flags => flag byte ||| flags) 0

def sizeOf (bytes : List Octet) : ℕ := (bytes.map size).sum

variable (bytes : List Octet)

lemma scanBlock_foldl (r : ℕ × ℕ) :
    let q := bytes.foldl (fun r byte =>
      let t := scanTable.getD byte.val 0
      (r.1 + (t &&& sizeMask), r.2 ||| t)) r
    q.1 = r.1 + sizeOf bytes ∧ q.2 &&& flagsMask = (r.2 &&& flagsMask) ||| flagsOf bytes := by
  induction bytes generalizing r with
  | nil => exact ⟨rfl, (Nat.or_zero _).symm⟩
  | cons byte bytes ih =>
    obtain ⟨hsize, hfla⟩ := ih (r.1 + size byte, r.2 ||| scanTable.getD byte.val 0)
    constructor
    · rw [sizeOf, map_cons, sum_cons, ← Nat.add_assoc]
      exact hsize
    · rw [flagsOf, foldr_cons, ← Nat.or_assoc, flag, ← Nat.and_or_distrib_right]
      exact hfla

lemma scanBlock_eq : scanBlock bytes = (sizeOf bytes, flagsOf bytes) := by
  obtain ⟨hsize, hfla⟩ := scanBlock_foldl bytes (0, 0)
  rw [Nat.zero_add] at hsize
  rw [Nat.zero_and, Nat.zero_or] at hfla
  exact Prod.ext hsize hfla

lemma sizeOf_append (bytes bytes' : List Octet) : sizeOf (bytes ++ bytes') = sizeOf bytes + sizeOf bytes' := by
  rw [sizeOf, map_append, sum_append]
  rfl

lemma flagsOf_append (bytes bytes' : List Octet) : flagsOf (bytes ++ bytes') = flagsOf bytes ||| flagsOf bytes' := by
  induction bytes with
  | nil => exact (Nat.zero_or _).symm
  | cons byte bytes ih =>
    change flag byte ||| flagsOf (bytes ++ bytes') = (flag byte ||| flagsOf bytes) ||| flagsOf bytes'
    rw [ih, Nat.or_assoc]

lemma scan_eq : scan bytes = (sizeOf bytes, flagsOf bytes) := by
  induction bytes using scan.induct with
  | case1 bytes hlong ih =>
    rw [scan, dif_pos hlong, scanBlock_eq, ih]
    dsimp only
    rw [← sizeOf_append, ← flagsOf_append, take_append_drop]
  | case2 bytes hsho => rw [scan, dif_neg hsho, scanBlock_eq]

lemma flag_or {bytes : List Octet} (h : byte ∈ bytes) : flag byte ||| flagsOf bytes = flagsOf bytes := by
  induction h with
  | head bytes =>
    change flag byte ||| (flag byte ||| flagsOf bytes) = flag byte ||| flagsOf bytes
    rw [← Nat.or_assoc, Nat.or_self]
  | tail b _ ih =>
    change flag byte ||| (flag b ||| flagsOf _) = flag b ||| flagsOf _
    rw [← Nat.or_assoc, Nat.or_comm (flag byte), Nat.or_assoc, ih]

lemma flag_or_of_eq {bytes : List Octet} {carried flags : ℕ} (h : byte ∈ bytes)
    (hfla : flagsOf bytes ||| carried = flags) : flag byte ||| flags = flags := by
  rw [← hfla, ← Nat.or_assoc, flag_or h]

lemma flag_table : ∀ byte : Octet, (flag byte ||| 0 = 0 → byte.val < 0x80) ∧
    (flag byte ||| (flagLatin1 ||| flagExtension) = flagLatin1 ||| flagExtension →
    byte.val < 0x80 ∨ IsExtension byte ∨ byte.val = 0xC2 ∨ byte.val = 0xC3) := by
  decide +kernel

end

section

def units (parts : List (Option ℕ)) : List CodeUnit :=
  parts.flatMap fun part => charCodeUnits (part.getD unicodeReplacementCharacterRune)

lemma units_append (parts parts' : List (Option ℕ)) :
    units (parts ++ parts') = units parts ++ units parts' := flatMap_append

lemma units_nil : units [] = [] := rfl

lemma units_singleton (char : ℕ) : units [some char] = charCodeUnits char := append_nil (charCodeUnits char)

def need : Partial → ℕ
  | none => 0
  | some (ranges, _) => ranges.length

def pendingSize : Partial → ℕ
  | none => 0
  | some ([_], char) => if char < 0x400 then 1 else 2
  | some ([_, _], char) => if char < 0x10 then 1 else 2
  | some _ => 2

lemma size_table : ∀ byte : Octet, (byte.val < 0x80 → size byte = 1) ∧ (IsExtension byte → size byte = 0) ∧
    ∀ ranges ∈ tailRanges byte.val, pendingSize (some (ranges, leadBits byte.val)) = size byte := by
  decide +kernel

lemma waiting_long : ∀ w ∈ waiting, w.2.length = 1 ∨ w.2.length = 2 ∨
    w.2.length = 3 ∧ ((w.1 = X3 ∨ w.1 = QR) ∨ w.2.head? = some (0x90, 0xBF)) := by
  decide

lemma charCodeUnits_length (char : ℕ) : (charCodeUnits char).length = if char < 0x10000 then 1 else 2 := by
  rw [charCodeUnits]
  split_ifs
  · omega
  · rfl
  · rfl
  · omega

lemma size_next {range : ℕ × ℕ} {ranges : List (ℕ × ℕ)}
    (hwaits : (state, range :: ranges) ∈ waiting) (hcarries : Carries state char)
    (hrange : range.1 ≤ byte.val ∧ byte.val ≤ range.2) (hext : IsExtension byte) :
    (units (step (some (range :: ranges, char)) byte).1).length +
    pendingSize (step (some (range :: ranges, char)) byte).2 = pendingSize (some (range :: ranges, char)) := by
  rw [IsExtension] at hext
  rw [step, if_pos hrange]
  rcases waiting_long _ hwaits with hlen | hlen | ⟨hlen, hlong⟩
  · obtain rfl : ranges = [] := length_eq_zero_iff.1 (Nat.succ.inj hlen)
    rw [if_pos rfl, units_singleton, charCodeUnits_length, pendingSize, pendingSize]
    split_ifs <;> omega
  · obtain ⟨r₂, rfl⟩ := length_eq_one_iff.1 (Nat.succ.inj hlen)
    rw [if_neg (cons_ne_nil _ _), units_nil, length_nil, pendingSize, pendingSize]
    split_ifs <;> omega
  · obtain ⟨r₂, r₃, rfl⟩ := length_eq_two.1 (Nat.succ.inj hlen)
    have hlar : ¬char * 64 + (byte.val - 0x80) < 0x10 := by
      rcases hlong with hlong | hlong
      · have := hcarries.2 hlong
        omega
      · have : range = (0x90, 0xBF) := Option.some.inj hlong
        subst this
        omega
    rw [if_neg (cons_ne_nil _ _), units_nil, pendingSize, if_neg hlar]
    rfl

lemma Reads.size (h : Reads state char p) (hok : none ∉ (step p byte).1) :
    (units (step p byte).1).length + pendingSize (step p byte).2 = pendingSize p + size byte := by
  cases h with
  | accept char =>
    by_cases hasc : byte.val < 0x80
    · rw [step, begin, if_pos hasc, (size_table byte).1 hasc]
      rw [units_singleton, charCodeUnits_length, if_pos (by omega)]
      rfl
    · cases hran : tailRanges byte.val with
      | none =>
        rw [step, begin, if_neg hasc, hran] at hok
        exact absurd mem_cons_self hok
      | some ranges =>
        rw [step, begin, if_neg hasc, hran, ← (size_table byte).2.2 ranges hran]
        rfl
  | pending hwaits hcarries =>
    obtain ⟨hne, hin⟩ := waiting_ranges _ hwaits
    obtain ⟨range, ranges, rfl⟩ := exists_cons_of_ne_nil hne
    by_cases hrange : range.1 ≤ byte.val ∧ byte.val ≤ range.2
    · have hext : IsExtension byte := by
        obtain ⟨hlo, hhi⟩ := hin range mem_cons_self
        rw [IsExtension]
        omega
      rw [size_next hwaits hcarries hrange hext, (size_table byte).2.1 hext]
      rfl
    · rw [step, if_neg hrange] at hok
      exact absurd mem_cons_self hok

end
end DartSdk.Convert.Utf8Decoder
