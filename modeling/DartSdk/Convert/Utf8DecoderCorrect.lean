import DartSdk.Convert.Utf8Sizes
import Mathlib.Data.List.TakeWhile

namespace DartSdk.Convert.Utf8Decoder
open List
variable {state char size : ℕ} {written : List CodeUnit} {p : Partial} {byte : Octet} {bytes : List Octet}

section

def Fits (size : ℕ) (written : List CodeUnit) (p : Partial) (bytes : List Octet) : Prop :=
  ∀ q x, q ++ x = bytes → none ∉ (run p q).1 → written.length + (units (run p q).1).length ≤ size

structure Outcome (size : ℕ) (written : List CodeUnit) (p : Partial) (bytes : List Octet) (r : Decoded) : Prop where
  ok : none ∉ (run p bytes).1 → r.result = allocated size (written ++ units (run p bytes).1) ∧
    Reads r.state r.charOrIndex (run p bytes).2
  error : none ∈ (run p bytes).1 → isErrorState r.state = true

variable {r : Decoded}

lemma Fits.cons (h : Fits size written p (byte :: bytes)) (hok : none ∉ (step p byte).1) :
    Fits size (written ++ units (step p byte).1) (step p byte).2 bytes := by
  intro q x hq hnone
  have := h (byte :: q) x (by rw [cons_append, hq]) (by
    rw [run, mem_append]
    exact not_or.2 ⟨hok, hnone⟩)
  rw [run, units_append, length_append] at this
  rw [length_append]
  omega

lemma Outcome.nil (h : Reads state char p) : Outcome size written p [] ⟨allocated size written, state, char⟩ where
  ok _ := ⟨by rw [run, units_nil, append_nil], h⟩
  error hmem := absurd hmem not_mem_nil

lemma Outcome.cons (hok : none ∉ (step p byte).1)
    (h : Outcome size (written ++ units (step p byte).1) (step p byte).2 bytes r) :
    Outcome size written p (byte :: bytes) r where
  ok hnone := by
    rw [run, mem_append, not_or] at hnone
    obtain ⟨hres, hrea⟩ := h.ok hnone.2
    refine ⟨?_, hrea⟩
    rw [hres, run, units_append, append_assoc]
  error hmem := by
    rw [run, mem_append] at hmem
    exact h.error (hmem.resolve_left hok)

lemma Outcome.of_error (hmem : none ∈ (step p byte).1) (hsta : isErrorState r.state = true) :
    Outcome size written p (byte :: bytes) r where
  ok hnone := absurd (mem_append_left _ hmem) hnone
  error _ := hsta

variable {p' : Partial}

lemma Fits.emits (h : Fits size written p (byte :: bytes)) (hstep : step p byte = ([some char], p')) :
    (written ++ charCodeUnits char).length ≤ size ∧ Fits size (written ++ charCodeUnits char) p' bytes := by
  have hfits := h.cons (by rw [hstep]; simp)
  rw [hstep, units_singleton] at hfits
  exact ⟨hfits [] bytes rfl not_mem_nil, hfits⟩

lemma Fits.waits (h : Fits size written p (byte :: bytes)) (hstep : step p byte = ([], p')) :
    Fits size written p' bytes := by
  have hfits := h.cons (by rw [hstep]; simp)
  rwa [hstep, units_nil, append_nil] at hfits

lemma Outcome.emits (hstep : step p byte = ([some char], p'))
    (h : Outcome size (written ++ charCodeUnits char) p' bytes r) : Outcome size written p (byte :: bytes) r := by
  apply Outcome.cons
  · rw [hstep]
    simp
  · rwa [hstep, units_singleton]

lemma Outcome.waits (hstep : step p byte = ([], p')) (h : Outcome size written p' bytes r) :
    Outcome size written p (byte :: bytes) r := by
  apply Outcome.cons
  · rw [hstep]
    simp
  · rwa [hstep, units_nil, append_nil]

section
variable (hw : written.length ≤ size)
include hw

lemma Fits.nil : Fits size written p [] := by
  intro q x hq _
  obtain ⟨rfl, rfl⟩ := append_eq_nil_iff.1 hq
  exact hw

lemma Fits.of_cons (h : none ∉ (step p byte).1 → Fits size (written ++ units (step p byte).1) (step p byte).2 bytes) :
    Fits size written p (byte :: bytes) := by
  intro q x hq hok
  cases q with
  | nil => exact hw
  | cons b q =>
    obtain ⟨rfl, hq'⟩ := cons.inj hq
    rw [run, mem_append, not_or] at hok
    have hlen := h hok.1 q x hq' hok.2
    rw [length_append] at hlen
    rw [run, units_append, length_append]
    omega

lemma Fits.of_emits (hstep : step p byte = ([some char], p'))
    (h : Fits size (written ++ charCodeUnits char) p' bytes) : Fits size written p (byte :: bytes) := by
  apply Fits.of_cons hw
  intro _
  rwa [hstep, units_singleton]

lemma Fits.of_waits (hstep : step p byte = ([], p'))
    (h : Fits size written p' bytes) : Fits size written p (byte :: bytes) := by
  apply Fits.of_cons hw
  intro _
  rwa [hstep, units_nil, append_nil]

end

/-- What a decoding function returns: it fails exactly where a write finds no room. -/
structure Decides (size : ℕ) (written : List CodeUnit) (p : Partial) (bytes : List Octet) (o : Option Decoded) :
    Prop where
  returns : Fits size written p bytes → ∃ r, o = some r ∧ Outcome size written p bytes r
  fails : ¬Fits size written p bytes → o = none

variable {o : Option Decoded}

section
variable (hw : written.length ≤ size)
include hw

lemma Decides.nil (h : Reads state char p) :
    Decides size written p [] (some ⟨allocated size written, state, char⟩) where
  returns _ := ⟨_, rfl, .nil h⟩
  fails hn := absurd (.nil hw) hn

lemma Decides.waits (hstep : step p byte = ([], p'))
    (h : Decides size written p' bytes o) : Decides size written p (byte :: bytes) o where
  returns hfits := by
    obtain ⟨r, hr, hout⟩ := h.returns (hfits.waits hstep)
    exact ⟨r, hr, .waits hstep hout⟩
  fails hn := h.fails fun hfits => hn (.of_waits hw hstep hfits)

lemma Decides.emits {f : List CodeUnit → Option Decoded}
    (hstep : step p byte = ([some char], p')) (h : (written ++ charCodeUnits char).length ≤ size →
      Decides size (written ++ charCodeUnits char) p' bytes (f (written ++ charCodeUnits char))) :
    Decides size written p (byte :: bytes) ((if (written ++ charCodeUnits char).length ≤ size
      then some (written ++ charCodeUnits char) else none) >>= f) := by
  by_cases hroom : (written ++ charCodeUnits char).length ≤ size
  · rw [if_pos hroom]
    constructor
    · intro hfits
      obtain ⟨r, hr, hout⟩ := (h hroom).returns (hfits.emits hstep).2
      exact ⟨r, hr, .emits hstep hout⟩
    · exact fun hn => (h hroom).fails fun hfits => hn (.of_emits hw hstep hfits)
  · rw [if_neg hroom]
    exact ⟨fun hfits => absurd (hfits.emits hstep).1 hroom, fun _ => rfl⟩

lemma Decides.of_error (hmem : none ∈ (step p byte).1)
    (herr : isErrorState r.state = true) : Decides size written p (byte :: bytes) (some r) where
  returns _ := ⟨r, rfl, .of_error hmem herr⟩
  fails hn := absurd (.of_cons hw fun hok => absurd hmem hok) hn

end
end

variable {d : Decoder}

section

lemma writeChar_eq (size : ℕ) (written : List CodeUnit) (char : ℕ) : writeChar size written char =
    if (written ++ charCodeUnits char).length ≤ size then some (written ++ charCodeUnits char) else none := by
  rw [writeChar, charCodeUnits]
  by_cases hbig : 0x10000 ≤ char
  · rw [if_pos hbig, if_pos hbig]
    by_cases hroom : written.length < size
    · simp [writeIntoTwoByteString, write, hroom, Nat.succ_le_iff]
    · simp [writeIntoTwoByteString, write, hroom]
      omega
  · rw [if_neg hbig, if_neg hbig]
    simp [writeIntoTwoByteString, write, Nat.succ_le_iff]

lemma error_states : ∀ state ∈ [E1, E2, E3, E4, E5, E6], isErrorState state = true ∧ state ≠ accept := by decide

lemma Follows.cases (h : Follows state char p byte) : (state = accept ∧ step p byte = ([some char], none)) ∨
    (∃ p', Reads state char p' ∧ state ≠ accept ∧ isErrorState state = false ∧ step p byte = ([], p')) ∨
    (none ∈ (step p byte).1 ∧ isErrorState state = true ∧ state ≠ accept) := by
  cases h with
  | character hsta hstep => exact .inl ⟨hsta, hstep⟩
  | waits p' hrea hne hstep => exact .inr (.inl ⟨p', hrea, hne, hrea.not_error, hstep⟩)
  | unexpected hsta hp hstep =>
    refine .inr (.inr ⟨by rw [hstep]; exact mem_cons_self, error_states _ ?_⟩)
    exact mem_cons_of_mem _ (mem_append_left [E4, E5, E6] hsta)
  | outside hsta hstep =>
    refine .inr (.inr ⟨by rw [hstep]; exact mem_cons_self, error_states _ ?_⟩)
    exact mem_cons_of_mem _ (mem_cons_of_mem _ (mem_cons_of_mem _ hsta))
  | missing hsta hp hstep =>
    refine .inr (.inr ⟨by rw [hstep]; exact mem_cons_self, error_states _ ?_⟩)
    rw [hsta]
    exact mem_cons_self

lemma decode16Loop_decides {i state : ℕ} (hw : written.length ≤ size) (hfol : Follows state char p byte) :
    Decides size written p (byte :: bytes) (decode16Loop size i bytes state char written) := by
  induction bytes generalizing i state char byte p written with
  | nil =>
    rcases hfol.cases with ⟨hsta, hstep⟩ | ⟨p', hrea, hne, herr, hstep⟩ | ⟨hmem, herr, hne⟩
    · rw [decode16Loop, writeChar_eq, hsta]
      exact .emits hw hstep fun hroom => .nil hroom (.accept char)
    · rw [decode16Loop, if_neg hne, herr]
      exact .waits hw hstep (.nil hw hrea)
    · rw [decode16Loop, if_neg hne, if_pos herr]
      exact .of_error hw hmem herr
  | cons next bytes ih =>
    rcases hfol.cases with ⟨hsta, hstep⟩ | ⟨p', hrea, hne, herr, hstep⟩ | ⟨hmem, herr, hne⟩
    · rw [decode16Loop, if_pos hsta, writeChar_eq]
      exact .emits hw hstep fun hroom => ih hroom (follows_first next)
    · have hnext := hrea.follows next
      rw [charAfter, if_neg hne] at hnext
      rw [decode16Loop, if_neg hne, herr]
      exact .waits hw hstep (ih hw hnext)
    · rw [decode16Loop, if_neg hne, if_pos herr]
      exact .of_error hw hmem herr

lemma decode16_decides {start : ℕ} (hrea : Reads d.state d.charOrIndex p) (hne : bytes ≠ []) :
    Decides size [] p bytes (decode16 d start bytes size) := by
  obtain ⟨byte, bytes, rfl⟩ := exists_cons_of_ne_nil hne
  have hfol := hrea.follows byte
  rw [decode16]
  by_cases hsta : d.state = accept
  · rw [if_pos hsta]
    rw [charAfter, hsta, accept, IA, Nat.zero_add] at hfol
    exact decode16Loop_decides (Nat.zero_le _) hfol
  · rw [if_neg hsta]
    rw [charAfter, if_neg hsta] at hfol
    exact decode16Loop_decides (Nat.zero_le _) hfol

end

section

def IsLatin1 (byte : Octet) : Prop :=
  byte.val < 0x80 ∨ IsExtension byte ∨ byte.val = 0xC2 ∨ byte.val = 0xC3

lemma xor_extension : ∀ byte : Octet, IsExtension byte →
    byte.val ^^^ 0x80 = byte.val - 0x80 ∧ byte.val - 0x80 < 0x40 := by
  decide +kernel

lemma xor_other : ∀ byte : Octet, ¬IsExtension byte → 0x40 ≤ byte.val ^^^ 0x80 := by decide +kernel

lemma latin1_lead : ∀ byte : Octet, byte.val = 0xC2 ∨ byte.val = 0xC3 →
    begin byte = ([], some ([(0x80, 0xBF)], byte.val &&& 0x1F)) ∧ ∀ e : Fin 64,
    (byte.val <<< 6 ||| e.val) % 0x100 = (byte.val &&& 0x1F) * 64 + e.val := by
  decide +kernel

lemma latin1_carried : ∀ char : Fin 4, ∀ e : Fin 64, (char.val <<< 6 ||| e.val) % 0x100 = char.val * 64 + e.val := by
  decide +kernel

lemma waiting_X1 : ∀ w ∈ waiting, w.1 = X1 → w.2 = [(0x80, 0xBF)] := by decide

lemma reads_X1 (char : ℕ) : Reads X1 char (some ([(0x80, 0xBF)], char)) :=
  .pending mem_cons_self (carries_short mem_cons_self char)

lemma charCodeUnits_small (h : char < 0x10000) : charCodeUnits char = [Fin.ofNat _ char] := if_neg (by omega)

lemma writeIntoOneByteString_eq {unit : ℕ} (hunit : unit % 0x100 = char) (size : ℕ) (written : List CodeUnit) :
    writeIntoOneByteString size written unit =
      if (written ++ charCodeUnits char).length ≤ size then some (written ++ charCodeUnits char) else none := by
  have hsma : char < 0x10000 := by omega
  rw [charCodeUnits_small hsma, writeIntoOneByteString, hunit]
  simp [write, Nat.succ_le_iff]

lemma step_X1_extension (char : ℕ) (h : IsExtension byte) :
    step (some ([(0x80, 0xBF)], char)) byte = ([some (char * 64 + (byte.val - 0x80))], none) := by
  rw [IsExtension] at h
  rw [step, if_pos (by dsimp only; omega), if_pos rfl]

lemma step_X1_other (h : ¬IsExtension byte) : none ∈ (step (some ([(0x80, 0xBF)], char)) byte).1 := by
  rw [IsExtension] at h
  rw [step, if_neg (by dsimp only; omega)]
  exact mem_cons_self

lemma decode8Loop_decides (char i : ℕ) (hw : written.length ≤ size) (hlatin1 : ∀ byte ∈ bytes, IsLatin1 byte) :
    Decides size written none bytes (decode8Loop size char i bytes written) := by
  -- A sequence of two bytes is read at once.
  induction hn : bytes.length using Nat.strong_induction_on generalizing i bytes written with
  | _ n ih =>
    cases bytes with
    | nil => exact .nil hw (.accept char)
    | cons byte bytes =>
      rw [decode8Loop.eq_def]
      dsimp only
      rcases hlatin1 byte mem_cons_self with hasc | hext | hlead
      · rw [if_neg (by omega), writeIntoOneByteString_eq (Nat.mod_eq_of_lt (by omega))]
        exact .emits hw (if_pos hasc) fun hroom => ih bytes.length (by rw [← hn]; exact Nat.lt_succ_self _)
          (i + 1) hroom (fun b hb => hlatin1 b (mem_cons_of_mem _ hb)) rfl
      · rw [if_pos hext.1, if_pos hext.2]
        refine .of_error hw ?_ (error_states errorUnexpectedExtension (by decide)).1
        rw [step, begin_extension hext]
        exact mem_cons_self
      · obtain ⟨hstep, hval⟩ := latin1_lead byte hlead
        rw [if_pos (by omega), if_neg (by omega)]
        refine .waits hw hstep ?_
        cases bytes with
        | nil => exact .nil hw (reads_X1 _)
        | cons extension bytes =>
          dsimp only
          by_cases hext : IsExtension extension
          · obtain ⟨hxor, hlt⟩ := xor_extension extension hext
            rw [hxor, if_neg (by omega), writeIntoOneByteString_eq (hval ⟨_, hlt⟩)]
            exact .emits hw (step_X1_extension _ hext) fun hroom => ih bytes.length
              (by rw [← hn]; exact Nat.lt_succ_of_lt (Nat.lt_succ_self _)) (i + 2) hroom
              (fun b hb => hlatin1 b (mem_cons_of_mem _ (mem_cons_of_mem _ hb))) rfl
          · rw [if_pos (xor_other extension hext)]
            exact .of_error hw (step_X1_other hext) (error_states errorMissingExtension (by decide)).1

lemma decode8_decides {start : ℕ} {p : Partial}
    (hrea : Reads d.state d.charOrIndex p) (hp : p ≠ none → d.state = X1 ∧ d.charOrIndex < 4)
    (hne : bytes ≠ []) (hlatin1 : ∀ byte ∈ bytes, IsLatin1 byte) :
    Decides size [] p bytes (decode8 d start bytes size) := by
  have hw : ([] : List CodeUnit).length ≤ size := Nat.zero_le _
  obtain ⟨extension, bytes, rfl⟩ := exists_cons_of_ne_nil hne
  rw [decode8.eq_def]
  dsimp only
  by_cases hnone : p = none
  · subst hnone
    have hsta : d.state ≠ X1 := by
      generalize d.state = state at hrea
      cases hrea
      decide
    rw [if_neg hsta]
    exact decode8Loop_decides _ _ hw hlatin1
  · obtain ⟨hsta, hchar⟩ := hp hnone
    have hpar : p = some ([(0x80, 0xBF)], d.charOrIndex) := by
      rw [hsta] at hrea
      cases hrea with
      | pending hwai => exact congrArg (fun ranges => some (ranges, d.charOrIndex)) (waiting_X1 _ hwai rfl)
    subst hpar
    rw [if_pos hsta]
    by_cases hext : IsExtension extension
    · obtain ⟨hxor, hlt⟩ := xor_extension extension hext
      rw [hxor, if_neg (by omega), writeIntoOneByteString_eq (latin1_carried ⟨_, hchar⟩ ⟨_, hlt⟩)]
      exact .emits hw (step_X1_extension _ hext) fun hroom => decode8Loop_decides d.charOrIndex (start + 1) hroom
        (fun b hb => hlatin1 b (mem_cons_of_mem _ hb))
    · rw [if_pos (xor_other extension hext)]
      exact .of_error hw (step_X1_other hext) (error_states errorMissingExtension (by decide)).1

end

section

lemma run_ascii (h : ∀ byte ∈ bytes, byte.val < 128) :
    run none bytes = (bytes.map fun byte => some byte.val, none) := by
  induction bytes with
  | nil => rfl
  | cons byte bytes ih =>
    have hstep : step none byte = ([some byte.val], none) := if_pos (h byte mem_cons_self)
    rw [run, hstep, ih fun b hb => h b (mem_cons_of_mem _ hb)]
    rfl

lemma units_ascii (h : ∀ byte ∈ bytes, byte.val < 128) :
    units (bytes.map fun byte => some byte.val) = bytes.map fun byte => Fin.ofNat _ byte.val := by
  induction bytes with
  | nil => rfl
  | cons byte bytes ih =>
    rw [map_cons, map_cons, ← ih fun b hb => h b (mem_cons_of_mem _ hb), units,
      flatMap_cons, Option.getD_some, charCodeUnits_small (by omega)]
    rfl

lemma Reads.le_afterBom (h : Reads state char p) : state ≤ afterBom ↔ p = none := by
  cases h with
  | accept => exact ⟨fun _ => rfl, fun _ => by decide⟩
  | pending hwai =>
    have := (waiting_state _ hwai).2.2
    exact ⟨fun hle => absurd hle (Nat.not_le.2 this), nofun⟩

lemma Reads.eq_accept (h : Reads state char p) : state = Utf8Decoder.accept ↔ p = none := by
  cases h with
  | accept => exact ⟨fun _ => rfl, fun _ => rfl⟩
  | pending hwai => exact ⟨fun heq => absurd heq (waiting_state _ hwai).1, nofun⟩

lemma units_none_cons (parts : List (Option ℕ)) :
    units (none :: parts) = charCodeUnits unicodeReplacementCharacterRune ++ units parts := rfl

lemma outside_states : ∀ state ∈ [E4, E5, E6], state ≠ accept ∧ isErrorState state = true ∧
    state ≠ errorMissingExtension ∧ ¬(state = errorInvalid ∨ state = errorUnexpectedExtension) := by
  decide

lemma unexpected_states : ∀ state ∈ [E2, E3], state ≠ accept ∧ isErrorState state = true ∧
    state ≠ errorMissingExtension ∧ (state = errorInvalid ∨ state = errorUnexpectedExtension) := by
  decide

def Buffered (buffer : List CodeUnit) (p : Partial) (bytes : List Octet) (r : Option Decoded) : Prop :=
  ∃ state char, r = some ⟨buffer ++ units (run p bytes).1, state, char⟩ ∧ Reads state char (run p bytes).2

variable {buffer : List CodeUnit}
variable {r : Option Decoded}

lemma Buffered.cons {byte : Octet}
    (h : Buffered (buffer ++ units (step p byte).1) (step p byte).2 bytes r) : Buffered buffer p (byte :: bytes) r := by
  obtain ⟨state, char, hr, hrea⟩ := h
  refine ⟨state, char, ?_, hrea⟩
  rw [hr, run, units_append, append_assoc]

lemma Buffered.nil (h : Reads state char p) : Buffered buffer p [] (some ⟨buffer, state, char⟩) :=
  ⟨state, char, by rw [run, units_nil, append_nil], h⟩

lemma Buffered.ascii {ascii bytes : List Octet} (hasc : ∀ byte ∈ ascii, byte.val < 128)
    (h : Buffered (buffer ++ ascii.map fun byte => Fin.ofNat _ byte.val) none bytes r) :
    Buffered buffer none (ascii ++ bytes) r := by
  obtain ⟨state, char, hr, hrea⟩ := h
  have hrun := run_append none ascii bytes
  rw [run_ascii hasc] at hrun
  refine ⟨state, char, ?_, by rw [hrun]; exact hrea⟩
  rw [hr, hrun, units_append, units_ascii hasc, append_assoc]

lemma generalLoop_buffered {fuel state char : ℕ} (i : ℕ)
    (buffer : List CodeUnit) (hrea : Reads state char p) (hne : bytes ≠ [])
    (hfuel : 2 * bytes.length + (if p = none then 0 else 1) ≤ fuel) :
    Buffered buffer p bytes (generalLoop true fuel i bytes state char buffer) := by
  induction fuel generalizing i state char bytes buffer p with
  | zero =>
    have := length_pos_iff.2 hne
    omega
  | succ fuel ih =>
    obtain ⟨byte, bytes, rfl⟩ := exists_cons_of_ne_nil hne
    have hchar : (if state ≤ afterBom then firstChar byte else nextChar char byte) =
        charAfter state char byte :=
      if_congr (hrea.le_afterBom.trans hrea.eq_accept.symm) rfl rfl
    have hfol := hrea.follows byte
    rw [generalLoop.eq_def]
    dsimp only
    rw [hchar]
    rw [length_cons] at hfuel
    have hrest : ∀ p' : Partial, 2 * bytes.length + (if p' = none then 0 else 1) ≤ fuel := by
      intro p'
      split_ifs at hfuel ⊢ <;> omega
    cases hfol with
    | character hsta hstep =>
      apply Buffered.cons
      rw [hstep, units_singleton]
      have hasc : ∀ b ∈ bytes.takeWhile fun b => decide (b.val < 128), b.val < 128 := by
        intro b hb
        have := mem_takeWhile_imp hb
        exact of_decide_eq_true this
      have hspl : (bytes.takeWhile fun b => decide (b.val < 128)) ++
        (bytes.dropWhile fun b => decide (b.val < 128)) = bytes := takeWhile_append_dropWhile
      rw [← hspl]
      apply Buffered.ascii hasc
      rw [hspl]
      by_cases hend : (bytes.dropWhile fun b => decide (b.val < 128)) = []
      · rw [hend, hsta]
        exact .nil (.accept _)
      · rw [if_neg hend, hsta]
        apply ih _ _ (.accept _) hend
        have := (dropWhile_suffix (l := bytes) fun b => decide (b.val < 128)).length_le
        have := hrest none
        omega
    | waits p' hwai hne' hstep =>
      rw [if_neg hne', hwai.not_error]
      apply Buffered.cons
      rw [hstep, units_nil, append_nil]
      by_cases hend : bytes = []
      · subst hend
        exact .nil hwai
      · rw [if_neg (by decide), if_neg hend]
        exact ih _ _ hwai hend (hrest p')
    | unexpected hsta hp hstep =>
      obtain ⟨hne', herr, hmis, hsin⟩ := unexpected_states _ hsta
      rw [if_neg hne', if_pos herr, if_neg hmis, if_pos hsin]
      apply Buffered.cons
      rw [hstep, units_none_cons, units_nil]
      by_cases hend : bytes = []
      · subst hend
        exact .nil (.accept _)
      · rw [if_neg hend]
        exact ih _ _ (.accept _) hend (hrest none)
    | outside hsta hstep =>
      obtain ⟨hne', herr, hmis, hdou⟩ := outside_states _ hsta
      rw [if_neg hne', if_pos herr, if_neg hmis, if_neg hdou]
      apply Buffered.cons
      rw [hstep, units_none_cons, units_none_cons, units_nil]
      by_cases hend : bytes = []
      · subst hend
        exact .nil (.accept _)
      · rw [if_neg hend]
        exact ih _ _ (.accept _) hend (hrest none)
    | missing hsta hp hstep =>
      have hmis : transition (state + byteType byte) = errorMissingExtension := hsta
      obtain ⟨herr, hne'⟩ := error_states errorMissingExtension (by decide)
      rw [hmis]
      -- The byte is read once more, as the first of a sequence.
      have haga := ih i (buffer ++ charCodeUnits unicodeReplacementCharacterRune)
        (.accept (charAfter state char byte)) hne (by
          rw [if_neg hp] at hfuel
          rw [length_cons, if_pos rfl]
          omega)
      obtain ⟨state', char', hr, hrea'⟩ := haga
      refine ⟨state', char', ?_, ?_⟩
      · refine hr.trans ?_
        rw [run, run, hstep, cons_append, units_none_cons, append_assoc]
      · rw [run, hstep]
        exact hrea'

lemma units_finish (p : Partial) : units (finish p) =
    if p = none then [] else charCodeUnits unicodeReplacementCharacterRune := by
  cases p with
  | none => rfl
  | some _ => rfl

section
variable (start : ℕ) (hrea : Reads d.state d.charOrIndex p) (hne : bytes ≠ [])
include start hrea hne

lemma decodeGeneral_buffered : Buffered [] p bytes (decodeGeneral true d start bytes false) := by
  obtain ⟨state, char, hr, hrea'⟩ := generalLoop_buffered start [] hrea hne
    (show _ ≤ 2 * bytes.length + 1 by split_ifs <;> omega)
  rw [decodeGeneral, hr]
  exact ⟨state, char, rfl, hrea'⟩

lemma decodeGeneral_single : ∃ r, decodeGeneral true d start bytes true = some r ∧
    r.result = units ((run p bytes).1 ++ finish (run p bytes).2) := by
  obtain ⟨state, char, hr, hrea'⟩ := generalLoop_buffered start [] hrea hne
    (show _ ≤ 2 * bytes.length + 1 by split_ifs <;> omega)
  rw [decodeGeneral, hr, Option.bind_eq_bind, Option.bind_some, units_append, units_finish]
  by_cases hend : (run p bytes).2 = none
  · have hsta := hrea'.le_afterBom.2 hend
    rw [if_neg (by exact Bool.false_ne_true), if_neg (by simpa using hsta), if_pos hend]
    exact ⟨_, rfl, (append_nil _).symm⟩
  · have hsta : afterBom < state := Nat.lt_of_not_le fun hle => hend (hrea'.le_afterBom.1 hle)
    rw [if_neg (by exact Bool.false_ne_true), if_pos (by simpa using hsta), if_neg hend]
    exact ⟨_, rfl, rfl⟩

end
end
end DartSdk.Convert.Utf8Decoder
