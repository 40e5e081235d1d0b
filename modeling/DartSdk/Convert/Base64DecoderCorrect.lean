import DartSdk.Convert.Base64Decoder
import Mathlib.Data.List.Forall2
import Mathlib.Data.Nat.Bitwise

namespace DartSdk.Convert.Base64Decoder
open List Nat Option

section

def padNext (e char : ℕ) : Option ℕ :=
  if e = 3 then
    if char = paddingChar then some 0 else if char = charPercent then some 2 else none
  else if e = 2 ∨ e = 5 then if char = char3 then some (e - 1) else none
  else if e = 1 ∨ e = 4 then if (char ||| 0x20) = charD then some (e - 1) else none
  else none

def padRun (e : ℕ) (input : List ℕ) : Option ℕ := input.foldlM padNext e

variable {e e' : ℕ} {input : List ℕ}
variable {char : ℕ}

lemma padRun_cons (h : padRun e (char :: input) = some e') :
    ∃ e1, padNext e char = some e1 ∧ padRun e1 input = some e' := by
  rw [padRun, foldlM_cons, bind_eq_bind, bind_eq_some_iff] at h
  exact h

lemma padRun_append {input' : List ℕ} : padRun e (input ++ input') =
    (padRun e input).bind fun e1 => padRun e1 input' := by
  rw [padRun, foldlM_append]
  rfl

lemma padNext_lt (h : padNext e char = some e') : e' < e := by
  unfold padNext at h
  split at h
  · split at h
    · have := some.inj h
      omega
    · split at h
      · have := some.inj h
        omega
      · cases h
  · split at h
    · split at h
      · have := some.inj h
        omega
      · cases h
    · split at h
      · split at h
        · have := some.inj h
          omega
        · cases h
      · cases h

lemma padRun_le : ∀ {input : List ℕ} {e e' : ℕ}, padRun e input = some e' → e' ≤ e
  | [], _, _, h => le_of_eq (some.inj h).symm
  | _ :: _, _, _, h => by
    obtain ⟨e1, h1, h2⟩ := padRun_cons h
    exact (padRun_le h2).trans (le_of_lt (padNext_lt h1))

def Consumes (input : List ℕ) (e' : ℕ) (r : ℕ × List ℕ × Bool) : Prop :=
  padRun r.1 r.2.1 = some e' ∧ r.1 ≤ 5 ∧ r.2.1.length < input.length ∧ (r.2.2 = false → r.2.1 = [])

lemma expectD_consumes (he : e = 1 ∨ e = 4) (hne : input ≠ []) (h : padRun e input = some e') :
    Consumes input e' (expectD e input) := by
  cases input with
  | nil => exact absurd rfl hne
  | cons char rest =>
    obtain ⟨e1, h1, h2⟩ := padRun_cons h
    rw [padNext, if_neg (by omega), if_neg (by omega), if_pos he] at h1
    split at h1
    · next hd =>
      rw [← some.inj h1] at h2
      rw [expectD, if_neg (not_not.2 hd)]
      refine ⟨h2, by omega, by simp, fun hf => ?_⟩
      simpa using hf
    · cases h1

lemma expectEscape_consumes (he : e = 1 ∨ e = 2 ∨ e = 4 ∨ e = 5) (hne : input ≠ [])
    (h : padRun e input = some e') : Consumes input e' (expectEscape e input) := by
  unfold expectEscape
  by_cases htwo : e = 2 ∨ e = 5
  · rw [if_pos (by split <;> omega)]
    cases input with
    | nil => exact absurd rfl hne
    | cons char rest =>
      obtain ⟨e1, h1, h2⟩ := padRun_cons h
      rw [padNext, if_neg (by omega), if_pos htwo] at h1
      split at h1
      · next hc =>
        rw [← some.inj h1] at h2
        dsimp only
        rw [if_neg (not_not.2 hc)]
        by_cases hrest : rest = []
        · subst hrest
          exact ⟨h2, show e - 1 ≤ 5 by omega, by simp, fun _ => rfl⟩
        · rw [if_neg (by simpa using hrest)]
          obtain ⟨hp, hle, hlen, hflag⟩ := expectD_consumes (by omega) hrest h2
          exact ⟨hp, hle, hlen.trans (by simp), hflag⟩
      · cases h1
  · rw [if_neg (by split <;> omega)]
    exact expectD_consumes (by omega) hne h

lemma paddingStep_consumes (he : e ≤ 5) (hne : input ≠ []) (h : padRun e input = some e') :
    Consumes input e' (paddingStep e input) := by
  cases input with
  | nil => exact absurd rfl hne
  | cons char rest =>
    obtain ⟨e1, h1, h2⟩ := padRun_cons h
    rw [paddingStep]
    by_cases h3 : e = 3
    · subst h3
      rw [if_pos rfl]
      rw [padNext, if_pos rfl] at h1
      split at h1
      · next hc =>
        rw [if_pos hc]
        rw [← some.inj h1] at h2
        refine ⟨h2, by omega, by simp, fun _ => ?_⟩
        cases rest with
        | nil => rfl
        | cons char' rest =>
          obtain ⟨e2, h₃, -⟩ := padRun_cons h2
          simp [padNext] at h₃
      · next hc =>
        rw [if_neg hc]
        split at h1
        · next hp =>
          rw [if_pos hp]
          rw [← some.inj h1] at h2
          by_cases hrest : rest = []
          · subst hrest
            exact ⟨h2, show 2 ≤ 5 by omega, by simp, fun _ => rfl⟩
          · rw [if_neg (by simpa using hrest)]
            obtain ⟨hp, hle, hlen, hflag⟩ := expectEscape_consumes (by omega) hrest h2
            exact ⟨hp, hle, hlen.trans (by simp), hflag⟩
        · cases h1
    · rw [if_neg h3]
      have hzero : e ≠ 0 := by
        rintro rfl
        simp [padNext] at h1
      exact expectEscape_consumes (by omega) hne h

lemma paddingLoop_eq (fuel : ℕ) : ∀ {e : ℕ} {input : List ℕ}, e ≤ 5 → input ≠ [] →
    input.length < fuel → padRun e input = some e' → paddingLoop fuel e input = (e', []) := by
  induction fuel with
  | zero =>
    intro e input _ _ hfuel
    exact absurd hfuel (not_lt_zero _)
  | succ fuel ih =>
    intro e input he hne hfuel h
    have hzero : e ≠ 0 := by
      rintro rfl
      cases input with
      | nil => exact hne rfl
      | cons char rest =>
        obtain ⟨e1, h1, -⟩ := padRun_cons h
        simp [padNext] at h1
    obtain ⟨hp, hle, hlen, hflag⟩ := paddingStep_consumes he hne h
    rw [paddingLoop, if_neg hzero]
    rcases hr : paddingStep e input with ⟨e1, rest, flag⟩
    rw [hr] at hp hle hlen hflag
    dsimp only at hp hle hlen hflag
    cases flag with
    | false =>
      rw [hflag rfl] at hp ⊢
      rw [show e1 = e' from some.inj hp]
    | true =>
      by_cases hrest : rest = []
      · subst hrest
        rw [show e1 = e' from some.inj hp]
        cases fuel with
        | zero => rfl
        | succ fuel =>
          dsimp only
          rw [paddingLoop]
          split
          · rfl
          · rfl
      · exact ih hle hrest (by omega) hp

lemma statePadding_encodePaddingState (e : ℕ) : statePadding (encodePaddingState e) = e := by
  rw [statePadding, encodePaddingState]
  omega

lemma checkPadding_eq (source : List ℕ) (start : ℕ) (he : e ≤ 5) (h : padRun e input = some e') :
    checkPadding source start input (encodePaddingState e) = .ok (encodePaddingState e') := by
  rw [checkPadding]
  by_cases hne : input = []
  · subst hne
    rw [show e = e' from some.inj h]
    rfl
  · rw [if_neg (by simpa using hne), statePadding_encodePaddingState, paddingLoop_eq _ he hne (lt_succ_self _) h]
    rfl

end

abbrev Sextet := Fin 64

def IsDigit (char : ℕ) (s : Sextet) : Prop :=
  char ≤ 127 ∧ inverseAlphabet.getD char (-2) = (s.val : ℤ)

section

def groups : List Sextet → List ℕ
  | a :: b :: c :: d :: rest =>
    [a.val * 4 + b.val / 16, b.val % 16 * 16 + c.val / 4, c.val % 4 * 64 + d.val] ++ groups rest
  | _ => []

def leftover : List Sextet → List Sextet
  | _ :: _ :: _ :: _ :: rest => leftover rest
  | rest => rest

def finalGroup : List Sextet → List ℕ
  | [a, b] => [a.val * 4 + b.val / 16]
  | [a, b, c] => [a.val * 4 + b.val / 16, b.val % 16 * 16 + c.val / 4]
  | _ => []

def Final : List Sextet → Prop
  | [_, b] => b.val % 16 = 0
  | [_, _, c] => c.val % 4 = 0
  | _ => False

lemma length_groups : ∀ digits : List Sextet, (groups digits).length = digits.length / 4 * 3
  | [] => rfl
  | [_] => by simp [groups]
  | [_, _] => by simp [groups]
  | [_, _, _] => by simp [groups]
  | _ :: _ :: _ :: _ :: rest => by
    rw [groups, length_append, length_groups rest]
    simp only [length_cons, length_nil]
    omega

lemma length_leftover : ∀ digits : List Sextet, (leftover digits).length = digits.length % 4
  | [] => rfl
  | [_] => rfl
  | [_, _] => rfl
  | [_, _, _] => rfl
  | _ :: _ :: _ :: _ :: rest => by
    rw [leftover, length_leftover rest]
    simp only [length_cons]
    omega

lemma groups_append : ∀ digits more : List Sextet,
    groups (digits ++ more) = groups digits ++ groups (leftover digits ++ more)
  | [], _ => rfl
  | [_], _ => rfl
  | [_, _], _ => rfl
  | [_, _, _], _ => rfl
  | _ :: _ :: _ :: _ :: rest, more => by
    simp only [cons_append, groups, leftover]
    rw [groups_append rest more]
    simp

lemma leftover_append : ∀ digits more : List Sextet, leftover (digits ++ more) = leftover (leftover digits ++ more)
  | [], _ => rfl
  | [_], _ => rfl
  | [_, _], _ => rfl
  | [_, _, _], _ => rfl
  | _ :: _ :: _ :: _ :: rest, more => by
    simp only [cons_append, leftover]
    rw [leftover_append rest more]

variable {p : List Sextet}

lemma leftover_of_lt (h : p.length < 4) : leftover p = p := by
  match p with
  | [] => rfl
  | [_] => rfl
  | [_, _] => rfl
  | [_, _, _] => rfl
  | _ :: _ :: _ :: _ :: _ =>
    simp only [length_cons] at h
    omega

lemma groups_of_lt (h : p.length < 4) : groups p = [] := by
  apply length_eq_zero_iff.1
  rw [length_groups]
  omega

end

section

def value (p : List Sextet) : ℕ := p.foldl (fun n s => n * 64 + s.val) 0

lemma value_append (p : List Sextet) (s : Sextet) : value (p ++ [s]) = value p * 64 + s.val := by
  rw [value, foldl_append]
  rfl

variable {p : List Sextet}

lemma value_lt (h : p.length < 4) : value p < 2 ^ 18 := by
  match p with
  | [] => decide
  | [a] =>
    simp only [value, foldl_cons, foldl_nil]
    omega
  | [a, b] =>
    simp only [value, foldl_cons, foldl_nil]
    omega
  | [a, b, c] =>
    simp only [value, foldl_cons, foldl_nil]
    omega
  | _ :: _ :: _ :: _ :: _ =>
    simp only [length_cons] at h
    omega

lemma nextBits {n : ℕ} (h : n < 2 ^ 18) (s : Sextet) : ((n <<< 6) ||| s.val) &&& 0xFFFFFF = n * 64 + s.val := by
  rw [show 0xFFFFFF = 2 ^ 24 - 1 from rfl, and_two_pow_sub_one_eq_mod, shiftLeft_eq,
    mul_comm, ← two_pow_add_eq_or_of_lt s.isLt n]
  omega

def stateOf (p : List Sextet) : ℕ := (value p <<< 2) ||| p.length

lemma stateOf_eq (h : p.length < 4) : stateOf p = value p * 4 + p.length := by
  rw [stateOf, shiftLeft_eq, mul_comm]
  exact (two_pow_add_eq_or_of_lt h (value p)).symm

lemma stateBits_stateOf (h : p.length < 4) : stateBits (stateOf p) = value p := by
  rw [stateBits, stateOf_eq h]
  omega

lemma stateCount_stateOf (h : p.length < 4) : stateCount (stateOf p) = p.length := by
  rw [stateCount, stateOf_eq h, show 3 = 2 ^ 2 - 1 from rfl, and_two_pow_sub_one_eq_mod]
  omega

lemma and_asciiMask {char : ℕ} (h : char ≤ 127) : char &&& 127 = char := by
  rw [show 127 = 2 ^ 7 - 1 from rfl, and_two_pow_sub_one_eq_mod]
  omega

lemma or_ascii {a b : ℕ} (ha : a ≤ 127) (hb : b ≤ 127) : a ||| b ≤ 127 :=
  le_of_lt_succ (or_lt_two_pow (n := 7) (lt_succ_of_le ha) (lt_succ_of_le hb))

end

section
variable (length : ℕ) (source : List ℕ) (start : ℕ) (all : List ℕ) (i : ℕ) (rest : List ℕ)
  {c : Chunk} {p : List Sextet}

structure Reads (c : Chunk) (p : List Sextet) : Prop where
  bits : c.bits = value p
  count : c.count = p.length
  unfinished : p.length < 4
  charOr : c.charOr ≤ 127

lemma write_eq {length : ℕ} {output bytes : List ℕ} (h : output.length + bytes.length ≤ length) :
    write length output bytes = .ok (output ++ bytes.map (· % 256)) :=
  if_pos h

variable {char : ℕ}

lemma decodeLoop_digit {s : Sextet} (h : Reads c p) (hs : IsDigit char s)
    (hroom : c.output.length + (p.length + 1) / 4 * 3 ≤ length) :
    ∃ c', decodeLoop length source start all i (char :: rest) c = decodeLoop length source start all (i + 1) rest c' ∧
    Reads c' (leftover (p ++ [s])) ∧ c'.output = c.output ++ groups (p ++ [s]) := by
  obtain ⟨hasc, hcode⟩ := hs
  have hp := h.unfinished
  rw [decodeLoop, and_asciiMask hasc, hcode]
  rw [if_pos (Int.natCast_nonneg _), h.bits, h.count, Int.toNat_natCast, nextBits (value_lt hp)]
  by_cases hfull : p.length = 3
  · rw [if_pos (by rw [hfull]; rfl)]
    match p with
    | [x, y, z] =>
      have hz := z.isLt
      have hval : value [x, y, z] = (x.val * 64 + y.val) * 64 + z.val := by simp [value]
      rw [write_eq (by simpa using hroom)]
      refine ⟨_, rfl, ⟨rfl, rfl, show 0 < 4 by decide, or_ascii h.charOr hasc⟩, ?_⟩
      simp only [map_cons, map_nil, cons_append, shiftRight_eq_div_pow]
      rw [show 0xFF = 2 ^ 8 - 1 from rfl, and_two_pow_sub_one_eq_mod,
        and_two_pow_sub_one_eq_mod, and_two_pow_sub_one_eq_mod]
      congr 2
      · omega
      · congr 1
        · omega
        · congr 1
          omega
  · have hlt : p.length < 3 := by omega
    have hcou : (p.length + 1) &&& 3 = p.length + 1 := by
      rw [show 3 = 2 ^ 2 - 1 from rfl, and_two_pow_sub_one_eq_mod]
      omega
    have hlen : (p ++ [s]).length < 4 := by
      rw [length_append, length_singleton]
      omega
    rw [hcou, if_neg (succ_ne_zero _), leftover_of_lt hlen, groups_of_lt hlen]
    refine ⟨_, rfl, ⟨(value_append p s).symm, ?_, hlen, or_ascii h.charOr hasc⟩, ?_⟩
    · rw [length_append, length_singleton]
    · rw [append_nil]

lemma decodeLoop_digits {chars : List ℕ} {digits : List Sextet}
    (hd : List.Forall₂ IsDigit chars digits) : ∀ (i : ℕ) {c : Chunk} {p : List Sextet}, Reads c p →
    c.output.length + (p.length + digits.length) / 4 * 3 ≤ length →
    ∃ c', decodeLoop length source start all i (chars ++ rest) c =
    decodeLoop length source start all (i + chars.length) rest c' ∧
    Reads c' (leftover (p ++ digits)) ∧ c'.output = c.output ++ groups (p ++ digits) := by
  induction hd with
  | nil =>
    intro i c p h _
    refine ⟨c, rfl, ?_, ?_⟩
    · rwa [append_nil, leftover_of_lt h.unfinished]
    · rw [append_nil, groups_of_lt h.unfinished, append_nil]
  | @cons char s chars digits hs _ ih =>
    intro i c p h hroom
    rw [length_cons] at hroom
    obtain ⟨c1, hc1, hr1, ho1⟩ := decodeLoop_digit length source start all i (chars ++ rest) h hs (by omega)
    have hlen1 : (groups (p ++ [s])).length = (p.length + 1) / 4 * 3 := by
      rw [length_groups, length_append, length_singleton]
    have hleft1 : (leftover (p ++ [s])).length = (p.length + 1) % 4 := by
      rw [length_leftover, length_append, length_singleton]
    obtain ⟨c2, hc2, hr2, ho2⟩ := ih (i + 1) hr1 (by
      rw [ho1, length_append]
      omega)
    refine ⟨c2, ?_, ?_, ?_⟩
    · rw [cons_append, hc1, hc2, length_cons]
      congr 1
      omega
    · rw [← leftover_append, append_assoc] at hr2
      exact hr2
    · rw [ho2, ho1, append_assoc, ← groups_append, append_assoc]
      rfl

lemma decodeLoop_padding {e : ℕ} (h : Reads c p) (hp : Final p) (hchar : char = paddingChar ∨ char = charPercent)
    (hrun : padRun ((3 - p.length) * 3 + if char = charPercent then 2 else 0) rest = some e)
    (hroom : c.output.length + (p.length - 1) ≤ length) : decodeLoop length source start all i (char :: rest) c =
      .ok (encodePaddingState e, c.output ++ finalGroup p) := by
  have hcode : inverseAlphabet.getD (char &&& 127) (-2) = -1 := by rcases hchar with rfl | rfl <;> rfl
  have hasc : char ≤ 127 := by rcases hchar with rfl | rfl <;> decide
  have hlen : p.length = 2 ∨ p.length = 3 := by
    match p, hp with
    | [_, _], _ => exact .inl rfl
    | [_, _, _], _ => exact .inr rfl
  have hbyt : ∃ bytes, finalBytes source i p.length (value p) = .ok bytes ∧ bytes.map (· % 256) = finalGroup p := by
    match p, hp with
    | [a, b], hb =>
      have hval : value [a, b] = a.val * 64 + b.val := by simp [value]
      change b.val % 16 = 0 at hb
      rw [finalBytes, if_neg (by simp), show 0x0F = 2 ^ 4 - 1 from rfl, and_two_pow_sub_one_eq_mod, if_neg (by omega)]
      refine ⟨_, rfl, ?_⟩
      simp only [map_cons, map_nil, shiftRight_eq_div_pow, finalGroup]
      congr 1
      omega
    | [a, b, d], hd =>
      have hval : value [a, b, d] = (a.val * 64 + b.val) * 64 + d.val := by simp [value]
      change d.val % 4 = 0 at hd
      rw [finalBytes, if_pos (by simp), show 0x03 = 2 ^ 2 - 1 from rfl, and_two_pow_sub_one_eq_mod, if_neg (by omega)]
      refine ⟨_, rfl, ?_⟩
      simp only [map_cons, map_nil, shiftRight_eq_div_pow, finalGroup]
      congr 1
      · omega
      · congr 1
        omega
  obtain ⟨bytes, hfinal, hmap⟩ := hbyt
  have hblen : bytes.length = p.length - 1 := by
    rw [← length_map, hmap]
    match p, hp with
    | [_, _], _ => rfl
    | [_, _, _], _ => rfl
  have hor := or_ascii h.charOr hasc
  rw [decodeLoop]
  dsimp only
  rw [hcode, if_neg (by decide), if_pos ⟨rfl, by rw [h.count]; omega⟩, if_neg (by omega), h.count, h.bits, hfinal]
  change (do
    let output ← write length c.output bytes
    let state ← checkPadding source (i + 1) rest
      (encodePaddingState ((3 - p.length) * 3 + if char = charPercent then 2 else 0))
    Except.ok (state, output)) = _
  rw [write_eq (by omega), checkPadding_eq source (i + 1) (by split <;> omega) hrun, hmap]
  rfl

end

section
variable {chars : List ℕ}
variable {before before' : List ℕ} {char char' e' : ℕ} {isMatch : Bool}

lemma skipBack_some (h : skipBack isMatch char before = some (char', before')) :
    (char' = char ∨ char' ∈ before) ∧ before' ⊆ before := by
  unfold skipBack at h
  split at h
  · cases before with
    | nil => cases h
    | cons c before =>
      rw [some.injEq, Prod.mk.injEq] at h
      exact ⟨.inr (h.1 ▸ mem_cons_self), h.2 ▸ subset_cons_self c before⟩
  · rw [some.injEq, Prod.mk.injEq] at h
    exact ⟨.inl h.1.symm, h.2 ▸ fun _ hx => hx⟩

lemma trimLoop_none {l : List ℕ} (hl : ∀ char ∈ l, char ≠ paddingChar ∧ char ≠ charPercent)
    (padding newEnd : ℕ) : trimLoop padding l newEnd = newEnd := by
  match padding, l with
  | 0, _ => rfl
  | _ + 1, [] => rfl
  | padding + 1, char :: before =>
    have hbef : ∀ c ∈ before, c ≠ charPercent := fun c hc => (hl c (mem_cons_of_mem _ hc)).2
    have hchar := hl char mem_cons_self
    rw [trimLoop, if_neg hchar.1]
    split
    · rfl
    · next char1 before1 h1 =>
      have hchar1 : char1 ≠ charPercent := by
        rcases (skipBack_some h1).1 with rfl | hmem
        · exact hchar.2
        · exact hbef _ hmem
      split
      · rfl
      · next char2 before2 h2 =>
        rw [if_neg]
        rcases (skipBack_some h2).1 with rfl | hmem
        · exact hchar1
        · exact hbef _ ((skipBack_some h1).2 hmem)

def Token (l : List ℕ) : Prop :=
  l = [paddingChar] ∨ l = [charPercent] ∨ l = [charPercent, char3] ∨
    ∃ d, (d ||| 0x20) = charD ∧ l = [charPercent, char3, d]

lemma trimLoop_token {t : List ℕ} (h : Token t) (padding : ℕ) (before : List ℕ) (newEnd : ℕ) :
    trimLoop (padding + 1) (t.reverse ++ before) newEnd = trimLoop padding before before.length := by
  rcases h with rfl | rfl | rfl | ⟨d, hd, rfl⟩
  · rfl
  · rfl
  · rfl
  · have hne : d ≠ paddingChar := by
      rintro rfl
      exact absurd hd (by decide)
    simp only [reverse_cons, reverse_nil, nil_append, cons_append]
    rw [trimLoop, if_neg hne, hd]
    rfl

variable {e : ℕ} {l : List ℕ}

lemma padRun_zero (h : padRun 0 l = some e) : l = [] := by
  cases l with
  | nil => rfl
  | cons char l =>
    obtain ⟨e1, h1, -⟩ := padRun_cons h
    simp [padNext] at h1

lemma padRun_escape (he : e = 1 ∨ e = 4) (h : padRun e l = some e') :
    l = [] ∨ ∃ d l', (d ||| 0x20) = charD ∧ l = d :: l' ∧ padRun (e - 1) l' = some e' := by
  cases l with
  | nil => exact .inl rfl
  | cons d l =>
    obtain ⟨e1, h1, h2⟩ := padRun_cons h
    rw [padNext, if_neg (by omega), if_neg (by omega), if_pos he] at h1
    split at h1
    · next hd =>
      rw [← some.inj h1] at h2
      exact .inr ⟨d, l, hd, rfl, h2⟩
    · cases h1

lemma padRun_percent (he : e = 2 ∨ e = 5) (h : padRun e l = some e') :
    l = [] ∨ ∃ l', l = char3 :: l' ∧ padRun (e - 1) l' = some e' := by
  cases l with
  | nil => exact .inl rfl
  | cons d l =>
    obtain ⟨e1, h1, h2⟩ := padRun_cons h
    rw [padNext, if_neg (by omega), if_pos he] at h1
    split at h1
    · next hd =>
      rw [← some.inj h1] at h2
      exact .inr ⟨l, by rw [hd], h2⟩
    · cases h1

lemma token_percent (he : e = 2 ∨ e = 5) (h : padRun e l = some e') :
    ∃ t l', charPercent :: l = t ++ l' ∧ Token t ∧ (l' = [] ∨ padRun (e - 2) l' = some e') := by
  rcases padRun_percent he h with rfl | ⟨l1, rfl, h1⟩
  · exact ⟨[charPercent], [], rfl, .inr (.inl rfl), .inl rfl⟩
  · rcases padRun_escape (by omega) h1 with rfl | ⟨d, l2, hd, rfl, h2⟩
    · exact ⟨[charPercent, char3], [], rfl, .inr (.inr (.inl rfl)), .inl rfl⟩
    · exact ⟨[charPercent, char3, d], l2, rfl, .inr (.inr (.inr ⟨d, hd, rfl⟩)), .inr h2⟩

lemma token_three (h : padRun 3 l = some e') : l = [] ∨ Token l := by
  cases l with
  | nil => exact .inl rfl
  | cons d l =>
    obtain ⟨e1, h1, h2⟩ := padRun_cons h
    rw [padNext, if_pos rfl] at h1
    split at h1
    · next hd =>
      rw [← some.inj h1] at h2
      rw [padRun_zero h2, hd]
      exact .inr (.inl rfl)
    · split at h1
      · next hd =>
        rw [← some.inj h1] at h2
        obtain ⟨t, l', heq, ht, hl'⟩ := token_percent (.inl rfl) h2
        have hnil : l' = [] := by
          rcases hl' with hl' | hl'
          · exact hl'
          · exact padRun_zero hl'
        rw [hnil, append_nil] at heq
        rw [hd, heq]
        exact .inr ht
      · cases h1

lemma tokens_of_padRun {k : ℕ} (hk : k ≤ 1) (hchar : char = paddingChar ∨ char = charPercent)
    (h : padRun (k * 3 + if char = charPercent then 2 else 0) l = some e') :
    ∃ t t', char :: l = t ++ t' ∧ Token t ∧ (t' = [] ∨ Token t') := by
  rcases hchar with rfl | rfl
  · refine ⟨[paddingChar], l, rfl, .inl rfl, ?_⟩
    obtain rfl | rfl : k = 0 ∨ k = 1 := by omega
    · exact .inl (padRun_zero h)
    · exact token_three h
  · rw [if_pos rfl] at h
    obtain ⟨t, t', heq, ht, ht'⟩ := token_percent (by omega) h
    refine ⟨t, t', heq, ht, ?_⟩
    rcases ht' with ht' | ht'
    · exact .inl ht'
    · obtain rfl | rfl : k = 0 ∨ k = 1 := by omega
      · exact .inl (padRun_zero ht')
      · exact token_three ht'

lemma trimPaddingChars_eq {chars pad : List ℕ} (hcha : ∀ char ∈ chars, char ≠ paddingChar ∧ char ≠ charPercent)
    (hpad : pad = [] ∨ ∃ t t', pad = t ++ t' ∧ Token t ∧ (t' = [] ∨ Token t')) :
    trimPaddingChars (chars ++ pad) = chars.length := by
  have hrev : ∀ char ∈ chars.reverse, char ≠ paddingChar ∧ char ≠ charPercent :=
    fun char hc => hcha char (mem_reverse.1 hc)
  rw [trimPaddingChars]
  rcases hpad with rfl | ⟨t, t', rfl, ht, rfl | ht'⟩
  · rw [append_nil, trimLoop_none hrev]
  · rw [append_nil, reverse_append, trimLoop_token ht, trimLoop_none hrev, length_reverse]
  · rw [reverse_append, reverse_append, append_assoc, trimLoop_token ht',
      trimLoop_token ht, trimLoop_none hrev, length_reverse]

end

section
variable {p digits : List Sextet} {chars : List ℕ}

lemma IsDigit.ne {char : ℕ} {s : Sextet} (h : IsDigit char s) : char ≠ paddingChar ∧ char ≠ charPercent := by
  constructor
  · rintro rfl
    exact absurd h.2 (by simp [inverseAlphabet, paddingChar])
  · rintro rfl
    exact absurd h.2 (by simp [inverseAlphabet, charPercent])

lemma ne_of_digits (hd : List.Forall₂ IsDigit chars digits) :
    ∀ char ∈ chars, char ≠ paddingChar ∧ char ≠ charPercent := by
  induction hd with
  | nil => simp
  | cons h _ ih =>
    intro char hc
    rcases mem_cons.1 hc with rfl | hc
    · exact h.ne
    · exact ih char hc

lemma and_three (n : ℕ) : n &&& 3 = n % 4 := by rw [show 3 = 2 ^ 2 - 1 from rfl, and_two_pow_sub_one_eq_mod]

lemma bufferLength_eq (hp : p.length < 4) (hd : List.Forall₂ IsDigit chars digits) {pad : List ℕ}
    (hpad : pad = [] ∨ ∃ t t', pad = t ++ t' ∧ Token t ∧ (t' = [] ∨ Token t')) :
    bufferLength (chars ++ pad) (stateOf p) = (p.length + digits.length) / 4 * 3 +
      if pad = [] then 0 else (p.length + digits.length) % 4 - 1 := by
  have hlen := hd.length_eq
  rw [bufferLength, trimPaddingChars_eq (ne_of_digits hd) hpad, stateCount_stateOf hp, and_three,
    shiftRight_eq_div_pow, hlen]
  congr 1
  by_cases hnil : pad = []
  · rw [if_pos hnil, if_neg]
    rw [hnil, append_nil]
    omega
  · have hpos : 0 < pad.length := length_pos_iff.2 hnil
    rw [length_append]
    split
    · rfl
    · omega

lemma reads_start (hp : p.length < 4) : Reads ⟨stateBits (stateOf p), stateCount (stateOf p), 0, []⟩ p := by
  rw [stateBits_stateOf hp, stateCount_stateOf hp]
  exact ⟨rfl, rfl, hp, zero_le _⟩

section
variable (source : List ℕ) (start : ℕ) (hp : p.length < 4) (hd : List.Forall₂ IsDigit chars digits)
include source start hp hd

lemma decode_digits : decode (stateOf p : ℤ) source start chars =
    .ok ((stateOf (leftover (p ++ digits)) : ℤ), some (groups (p ++ digits))) := by
  rw [decode, if_neg (by omega)]
  by_cases hnil : chars = []
  · subst hnil
    obtain rfl : digits = [] := length_eq_zero_iff.1 hd.length_eq.symm
    rw [if_pos isEmpty_nil, append_nil, leftover_of_lt hp, groups_of_lt hp]
  · have hbuf := bufferLength_eq hp hd (.inl rfl)
    rw [append_nil, if_pos rfl, add_zero] at hbuf
    rw [if_neg (by simpa using hnil), Int.toNat_natCast, hbuf]
    dsimp only [decodeChunk]
    obtain ⟨c, hc, hrea, hout⟩ := decodeLoop_digits ((p.length + digits.length) / 4 * 3) source
      start chars [] hd start (reads_start hp) (by simp)
    rw [append_nil] at hc
    rw [hc, decodeLoop, if_pos hrea.charOr, hout, hrea.bits, hrea.count]
    have hlen : (groups (p ++ digits)).length = (p.length + digits.length) / 4 * 3 := by
      rw [length_groups, length_append]
    change Except.ok (_, some (_ ++ List.replicate _ 0)) = _
    rw [nil_append, hlen, Nat.sub_self, replicate_zero, append_nil]
    rfl

lemma decode_padding {char e : ℕ} {pad : List ℕ}
    (hfinal : Final (leftover (p ++ digits))) (hchar : char = paddingChar ∨ char = charPercent)
    (hrun : padRun ((3 - (leftover (p ++ digits)).length) * 3 + if char = charPercent then 2 else 0) pad = some e) :
    decode (stateOf p : ℤ) source start (chars ++ char :: pad) = .ok (encodePaddingState e,
      some (groups (p ++ digits) ++ finalGroup (leftover (p ++ digits)))) := by
  have hlen2 : (leftover (p ++ digits)).length = 2 ∨ (leftover (p ++ digits)).length = 3 := by
    match leftover (p ++ digits), hfinal with
    | [_, _], _ => exact .inl rfl
    | [_, _, _], _ => exact .inr rfl
  have hleft := length_leftover (p ++ digits)
  rw [length_append] at hleft
  have hgro : (groups (p ++ digits)).length = (p.length + digits.length) / 4 * 3 := by rw [length_groups, length_append]
  have hfin : (finalGroup (leftover (p ++ digits))).length = (leftover (p ++ digits)).length - 1 := by
    match leftover (p ++ digits), hfinal with
    | [_, _], _ => rfl
    | [_, _, _], _ => rfl
  have hbuf := bufferLength_eq hp hd (.inr (tokens_of_padRun (by omega) hchar hrun))
  rw [if_neg (cons_ne_nil _ _), ← hleft] at hbuf
  rw [decode, if_neg (by omega), if_neg (by simp), Int.toNat_natCast, hbuf]
  dsimp only [decodeChunk]
  obtain ⟨c, hc, hrea, hout⟩ := decodeLoop_digits ((p.length + digits.length) / 4 * 3 +
    ((leftover (p ++ digits)).length - 1)) source start (chars ++ char :: pad) (char :: pad) hd start
    (reads_start hp) (by simp)
  rw [nil_append] at hout
  rw [hc, decodeLoop_padding _ _ _ _ _ _ hrea hfinal hchar hrun (by rw [hout, hgro]), hout]
  change Except.ok (_, some (_ ++ List.replicate _ 0)) = _
  rw [length_append, hgro, hfin, Nat.sub_self, replicate_zero, append_nil]

end

lemma decode_more (source : List ℕ) (start : ℕ) {e e' : ℕ} (he : e ≤ 5) {input : List ℕ}
    (h : padRun e input = some e') :
    decode (encodePaddingState e) source start input = .ok (encodePaddingState e', none) := by
  rw [decode, if_pos (by rw [encodePaddingState]; omega), checkPadding_eq source start he h]
  rfl

end
end DartSdk.Convert.Base64Decoder
