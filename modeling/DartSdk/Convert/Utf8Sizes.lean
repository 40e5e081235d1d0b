import DartSdk.Convert.Utf8Tables
import Mathlib.Data.List.Induction
import Mathlib.Tactic.IntervalCases

namespace DartSdk.Convert.Utf8Decoder
open List
variable {p : Partial} {bytes : List Octet}

section

def Reachable (p : Partial) : Prop := ∃ state char, Reads state char p

lemma reachable_none : Reachable none := ⟨_, _, .accept 0⟩

lemma Follows.reachable {state char : ℕ} {byte : Octet} (h : Follows state char p byte)
    (hmissing : p ≠ none → Reachable (Utf8Decoder.step none byte).2) : Reachable (Utf8Decoder.step p byte).2 := by
  cases h with
  | character hstate hstep =>
    rw [hstep]
    exact reachable_none
  | waits p' hreads hne hstep =>
    rw [hstep]
    exact ⟨_, _, hreads⟩
  | unexpected hstate hp hstep | outside hstate hstep =>
    rw [hstep]
    exact reachable_none
  | missing hstate hp hstep =>
    rw [hstep]
    exact hmissing hp

lemma reachable_first (byte : Octet) : Reachable (step none byte).2 :=
  (follows_first byte).reachable fun hp => absurd rfl hp

lemma Reachable.step (h : Reachable p) (byte : Octet) : Reachable (step p byte).2 := by
  obtain ⟨state, char, h⟩ := h
  exact (h.follows byte).reachable fun _ => reachable_first byte

lemma Reachable.steps (h : Reachable p) (bytes : List Octet) : Reachable (run p bytes).2 := by
  induction bytes generalizing p with
  | nil => exact h
  | cons byte bytes ih => exact ih (h.step byte)

lemma run_snoc (p : Partial) (bytes : List Octet) (byte : Octet) :
    run p (bytes ++ [byte]) = ((run p bytes).1 ++ (step (run p bytes).2 byte).1, (step (run p bytes).2 byte).2) := by
  rw [run_append, run, run, append_nil]

lemma Reachable.size_run (h : Reachable p) (hok : none ∉ (run p bytes).1) :
    (units (run p bytes).1).length + pendingSize (run p bytes).2 = pendingSize p + sizeOf bytes := by
  induction bytes generalizing p with
  | nil => exact Nat.zero_add _
  | cons byte bytes ih =>
    rw [run, mem_append, not_or] at hok
    have hrest := ih (h.step byte) hok.2
    obtain ⟨state, char, h⟩ := h
    have hfirst := h.size hok.1
    rw [run, units_append, length_append, sizeOf, map_cons, sum_cons, ← sizeOf]
    dsimp only
    omega

end

variable {byte : Octet}

section

lemma trailing_add (bytes : List Octet) (extensionCount : ℕ) :
    trailing bytes extensionCount = ((trailing bytes 0).1 + extensionCount, (trailing bytes 0).2) := by
  induction bytes generalizing extensionCount with
  | nil => rw [trailing, trailing, Nat.zero_add]
  | cons byte bytes ih =>
    rw [trailing, trailing]
    split_ifs
    · rw [ih, ih (0 + 1), Nat.add_assoc, Nat.add_comm 1]
    · rw [Nat.zero_add]

lemma and_extension : ∀ byte : Octet, byte.val &&& 0xC0 = 0x80 ↔ IsExtension byte := by decide +kernel

lemma trailing_extension (h : IsExtension byte) (bytes : List Octet) : trailing (bytes ++ [byte]).reverse 0 =
    ((trailing bytes.reverse 0).1 + 1, (trailing bytes.reverse 0).2) := by
  rw [reverse_append, reverse_singleton, singleton_append, trailing, if_pos ((and_extension byte).2 h), trailing_add]

lemma trailing_other (h : ¬IsExtension byte) (bytes : List Octet) :
    trailing (bytes ++ [byte]).reverse 0 = (0, some byte) := by
  rw [reverse_append, reverse_singleton, singleton_append, trailing, if_neg fun heq => h ((and_extension byte).1 heq)]

lemma threshold_of_le {extensionCount : ℕ} (h : 6 ≤ extensionCount) : threshold extensionCount = 0xFF := by
  have hshift : (-0x40 : ℤ) >>> extensionCount = -1 := by
    induction extensionCount, h using Nat.le_induction with
    | base => decide
    | succ n _ ih =>
      rw [Int.shiftRight_add, ih]
      decide
  exact congrArg (fun shifted : ℤ => (shifted % 0x100).toNat) hshift

lemma threshold_succ (extensionCount : ℕ) : threshold extensionCount ≤ threshold (extensionCount + 1) := by
  by_cases h : extensionCount < 6
  · interval_cases extensionCount <;> decide
  · rw [threshold_of_le (by omega), threshold_of_le (by omega)]

def unfinished : ℕ × Option Octet → ℕ
  | (_, none) => 0
  | (extensionCount, some byte) =>
    if threshold extensionCount ≤ byte.val then if 0xF0 ≤ byte.val then 2 else 1 else 0

lemma unfinishedSize_eq (bytes : List Octet) : unfinishedSize bytes = unfinished (trailing bytes.reverse 0) := by
  rw [unfinishedSize]
  rcases trailing bytes.reverse 0 with ⟨extensionCount, _ | byte⟩
  · rfl
  · rfl

lemma unfinished_zero : ∀ byte : Octet, unfinished (0, some byte) ≤ size byte := by decide +kernel

lemma unfinished_succ (t : ℕ × Option Octet) : unfinished (t.1 + 1, t.2) ≤ unfinished t := by
  rcases t with ⟨extensionCount, _ | byte⟩
  · rfl
  · have := threshold_succ extensionCount
    rw [unfinished, unfinished]
    dsimp only
    split_ifs <;> omega

lemma unfinishedSize_append (bytes bytes' : List Octet) :
    unfinishedSize (bytes ++ bytes') ≤ unfinishedSize bytes + sizeOf bytes' := by
  induction bytes' using List.reverseRecOn with
  | nil => rw [append_nil]; exact Nat.le_add_right _ _
  | append_singleton bytes' byte ih =>
    rw [← append_assoc, sizeOf_append]
    by_cases hext : IsExtension byte
    · have := unfinished_succ (trailing (bytes ++ bytes').reverse 0)
      rw [unfinishedSize_eq, trailing_extension hext]
      rw [unfinishedSize_eq] at ih
      omega
    · have hzero := unfinished_zero byte
      have hsize : sizeOf [byte] = size byte := Nat.add_zero _
      rw [unfinishedSize_eq, trailing_other hext]
      omega

end

section

def needOf (byte : Octet) : ℕ := need (begin byte).2

inductive Tail (p p' : Partial) (length : ℕ) : ℕ × Option Octet → Prop
  | carried {extensionCount : ℕ} (hlen : extensionCount = length) (hle : extensionCount ≤ need p)
    (hneed : need p' = need p - extensionCount)
    (hsize : pendingSize p' = if extensionCount < need p then pendingSize p else 0) :
    Tail p p' length (extensionCount, none)
  | started {extensionCount : ℕ} {byte : Octet} (hlen : need p ≤ length) (hok : none ∉ (begin byte).1)
    (hle : extensionCount ≤ needOf byte) (hneed : need p' = needOf byte - extensionCount)
    (hsize : pendingSize p' = if extensionCount < needOf byte then size byte else 0) :
    Tail p p' length (extensionCount, some byte)

lemma step_extension (hp : Reachable p) (hext : IsExtension byte)
    (hok : none ∉ (step p byte).1) : need p ≠ 0 ∧ need (step p byte).2 = need p - 1 ∧
      pendingSize (step p byte).2 = if 1 < need p then pendingSize p else 0 := by
  obtain ⟨state, char, h⟩ := hp
  have hsize := h.size hok
  cases h with
  | accept char =>
    rw [step, begin_extension hext] at hok
    exact absurd mem_cons_self hok
  | pending hwaits hcarries =>
    obtain ⟨hne, -⟩ := waiting_ranges _ hwaits
    obtain ⟨range, ranges, rfl⟩ := exists_cons_of_ne_nil hne
    by_cases hrange : range.1 ≤ byte.val ∧ byte.val ≤ range.2
    · rw [step, if_pos hrange] at hsize ⊢
      rw [(size_table byte).2.1 hext] at hsize
      by_cases hlast : ranges = []
      · rw [hlast]
        exact ⟨Nat.succ_ne_zero _, rfl, rfl⟩
      · have hpos := length_pos_iff.2 hlast
        rw [if_neg hlast] at hsize ⊢
        refine ⟨Nat.succ_ne_zero _, rfl, ?_⟩
        rw [if_pos (by rw [need, length_cons]; omega), ← Nat.add_zero (pendingSize (some (_, char))), ← hsize]
        exact (Nat.zero_add _).symm
    · rw [step, if_neg hrange] at hok
      exact absurd mem_cons_self hok

lemma step_other (hp : Reachable p) (hext : ¬IsExtension byte) (hok : none ∉ (step p byte).1) : p = none := by
  obtain ⟨state, char, h⟩ := hp
  cases h with
  | accept char => rfl
  | pending hwaits hcarries =>
    obtain ⟨hne, hin⟩ := waiting_ranges _ hwaits
    obtain ⟨range, ranges, rfl⟩ := exists_cons_of_ne_nil hne
    obtain ⟨hlo, hhi⟩ := hin range mem_cons_self
    rw [IsExtension] at hext
    rw [step, if_neg (by omega)] at hok
    exact absurd mem_cons_self hok

lemma size_begin (hok : none ∉ (begin byte).1) :
    pendingSize (begin byte).2 = if 0 < needOf byte then size byte else 0 := by
  rw [needOf]
  rw [begin] at hok ⊢
  split_ifs at hok ⊢ with hascii hpos hpos
  · cases hpos
  · rfl
  · cases hranges : tailRanges byte.val with
    | none =>
      rw [hranges] at hok
      exact absurd mem_cons_self hok
    | some ranges => exact (size_table byte).2.2 ranges hranges
  · cases hranges : tailRanges byte.val with
    | none => rfl
    | some ranges =>
      rw [hranges] at hpos
      exact absurd (length_pos_iff.2 (waiting_ranges _ ((transition_first byte).2.2 ranges hranges).1).1) hpos

lemma Reachable.tail (h : Reachable p) (hok : none ∉ (run p bytes).1) :
    Tail p (run p bytes).2 bytes.length (trailing bytes.reverse 0) := by
  induction bytes using List.reverseRecOn with
  | nil =>
    refine .carried rfl (Nat.zero_le _) rfl ?_
    obtain ⟨state, char, h⟩ := h
    cases h with
    | accept char => rfl
    | pending hwaits hcarries => exact (if_pos (length_pos_iff.2 (waiting_ranges _ hwaits).1)).symm
  | append_singleton bytes byte ih =>
    rw [run_snoc, mem_append, not_or] at hok
    have ih := ih hok.1
    rw [run_snoc, length_append, length_singleton]
    by_cases hext : IsExtension byte
    · obtain ⟨hne, hneed, hsize⟩ := step_extension (h.steps bytes) hext hok.2
      rw [trailing_extension hext]
      generalize trailing bytes.reverse 0 = t at ih
      dsimp only at hneed hsize ⊢
      cases ih with
      | carried hlen hle hneed' hsize' =>
        refine .carried (by omega) (by omega) (by omega) ?_
        rw [hsize, hsize']
        split_ifs <;> omega
      | started hlen hok' hle hneed' hsize' =>
        refine .started (by omega) hok' (by omega) (by omega) ?_
        rw [hsize, hsize']
        split_ifs <;> omega
    · have hnone := step_other (h.steps bytes) hext hok.2
      rw [trailing_other hext]
      rw [hnone] at ih hok ⊢
      refine .started ?_ hok.2 (Nat.zero_le _) rfl (size_begin hok.2)
      generalize trailing bytes.reverse 0 = t at ih
      cases ih with
      | carried hlen hle hneed =>
        rw [need] at hneed
        omega
      | started hlen => omega

lemma lead_cases : ∀ byte : Octet, none ∉ (begin byte).1 →
    needOf byte ≤ 3 ∧ ∀ extensionCount : Fin 4, unfinished (extensionCount.val, some byte) =
      if extensionCount.val < needOf byte then size byte else 0 := by
  decide +kernel

def carriedSize (p : Partial) (length : ℕ) : ℕ := if need p ≤ length then pendingSize p else 0

lemma Reachable.size_chunk (h : Reachable p) (hok : none ∉ (run p bytes).1) :
    (units (run p bytes).1).length + unfinishedSize bytes = sizeOf bytes + carriedSize p bytes.length := by
  have hsize := h.size_run hok
  have htail := h.tail hok
  rw [unfinishedSize_eq, carriedSize]
  generalize trailing bytes.reverse 0 = t at htail
  cases htail with
  | carried hlen hle hneed hsize' =>
    rw [unfinished]
    split_ifs at hsize' ⊢ <;> omega
  | started hlen hok' hle hneed hsize' =>
    obtain ⟨hshort, hunfinished⟩ := lead_cases _ hok'
    rw [hunfinished ⟨_, by omega⟩]
    split_ifs at hsize' ⊢ <;> omega

lemma Reachable.size_fits (h : Reachable p) (bytes bytes' : List Octet) (hok : none ∉ (run p bytes).1) :
    (units (run p bytes).1).length + unfinishedSize (bytes ++ bytes') ≤
    sizeOf (bytes ++ bytes') + carriedSize p (bytes ++ bytes').length := by
  have hsize := h.size_chunk hok
  have hle := unfinishedSize_append bytes bytes'
  have hcarried : carriedSize p bytes.length ≤ carriedSize p (bytes ++ bytes').length := by
    rw [carriedSize, carriedSize, length_append]
    split_ifs <;> omega
  rw [sizeOf_append]
  omega

end
end DartSdk.Convert.Utf8Decoder
