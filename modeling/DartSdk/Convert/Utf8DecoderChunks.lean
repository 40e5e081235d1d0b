import DartSdk.Convert.Utf8DecoderCorrect

namespace DartSdk.Convert.Utf8Decoder
open List

section

lemma ite_bind {α β : Type} {c : Prop} [Decidable c] {x y : Option α} {f : α → Option β} {r : α}
    (h : (if c then x else y) = some r) : (if c then x >>= f else y >>= f) = f r := by
  split_ifs at h ⊢
  · rw [h]
    rfl
  · rw [h]
    rfl

lemma or_absorb {x y flags : ℕ} (h : x ||| y = flags) : y ||| flags = flags := by
  rw [← h, Nat.or_comm x, ← Nat.or_assoc, Nat.or_self]

lemma nonLatin1_or : flagNonLatin1 ||| 0 ≠ 0 ∧
    flagNonLatin1 ||| (flagLatin1 ||| flagExtension) ≠ flagLatin1 ||| flagExtension := by
  decide

lemma add_carriedSize (p : Partial) (length size : ℕ) :
    (if need p ≤ length then size + pendingSize p else size) = size + carriedSize p length := by
  rw [carriedSize]
  split_ifs
  · rfl
  · rfl

lemma adjust_eq {d : Decoder} {p : Partial} (hrea : Reads d.state d.charOrIndex p) (length size flags : ℕ) :
    ∃ carried, adjust d length size flags = (size + carriedSize p length, flags ||| carried) ∧
    (carried ||| 0 = 0 → p = none) ∧
    (carried ||| (flagLatin1 ||| flagExtension) = flagLatin1 ||| flagExtension → p ≠ none →
    d.state = X1 ∧ d.charOrIndex < 4) := by
  obtain ⟨state, char, bomIndex⟩ := d
  dsimp only at hrea ⊢
  cases hrea with
  | accept char =>
    refine ⟨0, ?_, fun _ => rfl, fun _ h => absurd rfl h⟩
    rw [Nat.or_zero]
    rfl
  | pending hwaits hcarr =>
    have hlong (p : Partial) : (flagNonLatin1 ||| 0 = 0 → p = none) ∧
      (flagNonLatin1 ||| (flagLatin1 ||| flagExtension) = flagLatin1 ||| flagExtension → p ≠ none →
        state = X1 ∧ char < 4) := ⟨fun h => absurd h nonLatin1_or.1, fun h => absurd h nonLatin1_or.2⟩
    simp only [waiting, mem_cons, not_mem_nil, or_false] at hwaits
    rw [← add_carriedSize]
    rcases hwaits with ⟨rfl, rfl⟩ | ⟨rfl, rfl⟩ | ⟨rfl, rfl⟩ | ⟨rfl, rfl⟩ | ⟨rfl, rfl⟩ | ⟨rfl, rfl⟩ | ⟨rfl, rfl⟩
    · by_cases hchar : char < 4
      · refine ⟨flagLatin1, ?_, fun h => absurd h (by decide), fun _ _ => ⟨rfl, hchar⟩⟩
        have hflag : (if char < 0x100 >>> 6 then flagLatin1 else flagNonLatin1) = flagLatin1 := if_pos hchar
        exact Prod.ext rfl (congrArg (flags ||| ·) hflag)
      · refine ⟨flagNonLatin1, ?_, hlong _⟩
        have hflag : (if char < 0x100 >>> 6 then flagLatin1 else flagNonLatin1) = flagNonLatin1 := if_neg hchar
        exact Prod.ext rfl (congrArg (flags ||| ·) hflag)
    · exact ⟨flagNonLatin1, rfl, hlong _⟩
    · exact ⟨flagNonLatin1, rfl, hlong _⟩
    · refine ⟨flagNonLatin1, ?_, hlong _⟩
      rw [pendingSize, if_pos (hcarr.1 (.inl rfl))]
      rfl
    · refine ⟨flagNonLatin1, ?_, hlong _⟩
      rw [pendingSize, if_pos (hcarr.1 (.inr rfl))]
      rfl
    · exact ⟨flagNonLatin1, rfl, hlong _⟩
    · exact ⟨flagNonLatin1, rfl, hlong _⟩

variable {size : ℕ}

lemma allocated_eq {written : List CodeUnit} (h : written.length = size) : allocated size written = written := by
  rw [allocated, h, Nat.sub_self, replicate_zero, append_nil]

variable {d : Decoder} {p : Partial} {bytes : List Octet}

lemma decode_decides (start carried : ℕ) (hrea : Reads d.state d.charOrIndex p) (hne : bytes ≠ [])
    (hcar : carried ||| (flagLatin1 ||| flagExtension) = flagLatin1 ||| flagExtension → p ≠ none →
      d.state = X1 ∧ d.charOrIndex < 4) :
    Decides size [] p bytes (if flagsOf bytes ||| carried = flagLatin1 ||| flagExtension
      then decode8 d start bytes size else decode16 d start bytes size) := by
  by_cases hfla : flagsOf bytes ||| carried = flagLatin1 ||| flagExtension
  · rw [if_pos hfla]
    exact decode8_decides hrea (hcar (or_absorb hfla)) hne
      (fun byte hmem => (flag_table byte).2 (flag_or_of_eq hmem hfla))
  · rw [if_neg hfla]
    exact decode16_decides hrea hne

lemma fits_chunk (h : Reachable p) (bytes : List Octet) :
    unfinishedSize bytes ≤ sizeOf bytes + carriedSize p bytes.length ∧
    Fits (sizeOf bytes + carriedSize p bytes.length - unfinishedSize bytes) [] p bytes := by
  constructor
  · have hroom := h.size_fits [] bytes not_mem_nil
    rw [nil_append] at hroom
    omega
  · rintro q x rfl hok
    have := h.size_fits q x hok
    rw [length_nil]
    omega

lemma units_of_flags (carried : ℕ) (hfla : flagsOf bytes ||| carried = 0) :
    run none bytes = (bytes.map fun byte => some byte.val, none) ∧
      units (run none bytes).1 = bytes.map fun byte => Fin.ofNat _ byte.val := by
  have hasc : ∀ byte ∈ bytes, byte.val < 128 := fun byte hmem => (flag_table byte).1 (flag_or_of_eq hmem hfla)
  rw [run_ascii hasc]
  exact ⟨rfl, units_ascii hasc⟩

structure Converts (allowMalformed : Bool) (d : Decoder) (p : Partial) (bytes : List Octet)
    (r : Option (Decoder × Except FormatException (List CodeUnit))) : Prop where
  ok : allowMalformed = true ∨ none ∉ (run p bytes).1 → ∃ d', r = some (d', .ok (units (run p bytes).1)) ∧
    d'.bomIndex = d.bomIndex ∧ Reads d'.state d'.charOrIndex (run p bytes).2
  error : allowMalformed = false → none ∈ (run p bytes).1 → ∃ d' e, r = some (d', .error e)

lemma convertBytes_converts (allowMalformed : Bool) (start : ℕ) (bytes : List Octet)
    (hrea : Reads d.state d.charOrIndex p) :
    Converts allowMalformed d p bytes (convertBytes allowMalformed d start bytes) := by
  by_cases hne : bytes = []
  · subst hne
    exact ⟨fun _ => ⟨d, rfl, rfl, hrea⟩, nofun⟩
  rw [convertBytes, if_neg hne, scan_eq]
  dsimp only
  obtain ⟨carried, hadj, hnone, hcar⟩ := adjust_eq hrea bytes.length (sizeOf bytes) (flagsOf bytes)
  rw [hadj]
  by_cases hfla : flagsOf bytes ||| carried = 0
  · obtain rfl : p = none := hnone (or_absorb hfla)
    obtain ⟨hrun, huni⟩ := units_of_flags carried hfla
    rw [if_pos hfla, ← huni]
    constructor
    · intro _
      refine ⟨d, rfl, rfl, ?_⟩
      rw [hrun]
      exact hrea
    · intro _ hmem
      rw [hrun] at hmem
      obtain ⟨byte, -, hbyte⟩ := mem_map.1 hmem
      cases hbyte
  have hreac : Reachable p := ⟨_, _, hrea⟩
  obtain ⟨hroom, hfits⟩ := fits_chunk hreac bytes
  rw [if_neg hfla, if_neg (by omega)]
  obtain ⟨r, hr, hout⟩ := (decode_decides start carried hrea hne hcar).returns hfits
  rw [ite_bind hr]
  by_cases hok : none ∈ (run p bytes).1
  · have herr := hout.error hok
    rw [herr]
    cases allowMalformed with
    | false => exact ⟨fun h => absurd hok (h.resolve_left (by decide)), fun _ _ => ⟨_, _, rfl⟩⟩
    | true =>
      obtain ⟨state, char, hgen, hrea'⟩ := decodeGeneral_buffered start hrea hne
      rw [hgen]
      exact ⟨fun _ => ⟨_, rfl, rfl, hrea'⟩, nofun⟩
  · obtain ⟨hres, hrea'⟩ := hout.ok hok
    have hsize := hreac.size_chunk hok
    rw [hrea'.not_error, hres, nil_append, allocated_eq (by omega)]
    exact ⟨fun _ => ⟨_, rfl, rfl, hrea'⟩, fun _ hmem => absurd hmem hok⟩

end

section

def dropBom (bytes : List Octet) : List Octet :=
  if bomValues <+: bytes then bytes.drop 3 else bytes

lemma dropBom_append (bytes : List Octet) : dropBom (bomValues ++ bytes) = bytes := by rfl

lemma skipBomSingle_eq (codeUnits : List Octet) : codeUnits.drop (skipBomSingle codeUnits) = dropBom codeUnits := by
  rw [dropBom]
  by_cases hbom : bomValues <+: codeUnits
  · obtain ⟨bytes, rfl⟩ := hbom
    rfl
  · rw [if_neg hbom]
    have hzero : skipBomSingle codeUnits = 0 := by
      rw [skipBomSingle.eq_def]
      split
      · next b₀ b₁ b₂ bytes =>
        rw [if_neg]
        rintro ⟨rfl, rfl, rfl⟩
        exact hbom ⟨bytes, rfl⟩
      · rfl
    rw [hzero, drop_zero]

def Delivers (allowMalformed : Bool) (parts : List (Option ℕ))
    (r : Option (Except FormatException (List CodeUnit))) : Prop :=
  (allowMalformed = true ∨ none ∉ parts → r = some (.ok (units parts))) ∧
    (allowMalformed = false → none ∈ parts → ∃ e, r = some (.error e))

lemma reads_initial (char : ℕ) : Reads initial char none := .accept char

lemma mem_finish {p : Partial} (h : p ≠ none) : none ∈ finish p := by
  rw [finish, if_pos (Option.isSome_iff_ne_none.2 h)]
  exact mem_cons_self

lemma fits_single (bytes : List Octet) : Fits (sizeOf bytes) [] none bytes := by
  rintro q x rfl hok
  have hsize := reachable_none.size_run hok
  rw [pendingSize] at hsize
  rw [length_nil, sizeOf_append]
  omega

lemma convertSingle_delivers (allowMalformed : Bool) (codeUnits : List Octet) :
    Delivers allowMalformed (subparts (dropBom codeUnits)) (convertSingle allowMalformed new codeUnits) := by
  rw [convertSingle]
  dsimp only
  rw [skipBomSingle_eq]
  generalize dropBom codeUnits = bytes
  by_cases hne : bytes = []
  · subst hne
    rw [subparts]
    exact ⟨fun _ => rfl, fun _ h => absurd h not_mem_nil⟩
  rw [if_neg hne, scan_eq, ← run_eq_subparts bytes]
  by_cases hfla : flagsOf bytes = 0
  · obtain ⟨hrun, huni⟩ := units_of_flags 0 (by rw [Nat.or_zero]; exact hfla)
    have hfin : finish (run none bytes).2 = [] := by rw [hrun]; rfl
    rw [if_pos hfla, ← huni, hfin, append_nil]
    refine ⟨fun _ => rfl, fun _ hmem => ?_⟩
    rw [hrun] at hmem
    obtain ⟨byte, -, hbyte⟩ := mem_map.1 hmem
    cases hbyte
  obtain ⟨r, hr, hout⟩ := (decode_decides (d := new) (skipBomSingle codeUnits) 0
    (reads_initial 0) hne (fun _ h => absurd rfl h)).returns (fits_single bytes)
  rw [Nat.or_zero] at hr
  rw [if_neg hfla, ite_bind hr]
  by_cases hsta : r.state = accept
  · have hok : none ∉ (run none bytes).1 := by
      intro hmem
      have := hout.error hmem
      rw [hsta] at this
      exact absurd this (by decide)
    obtain ⟨hres, hrea⟩ := hout.ok hok
    have hend := hrea.eq_accept.1 hsta
    have hsize := reachable_none.size_run hok
    rw [hend, pendingSize, Nat.zero_add] at hsize
    have hfin : finish (run none bytes).2 = [] := by rw [hend]; rfl
    rw [if_pos hsta, hres, nil_append, allocated_eq hsize, hfin, append_nil]
    exact ⟨fun _ => rfl, fun _ hmem => absurd hmem hok⟩
  · have hmem : none ∈ (run none bytes).1 ++ finish (run none bytes).2 := by
      by_cases hok : none ∈ (run none bytes).1
      · exact mem_append_left _ hok
      · exact mem_append_right _ (mem_finish fun hend => hsta ((hout.ok hok).2.eq_accept.2 hend))
    rw [if_neg hsta]
    cases allowMalformed with
    | false =>
      rw [if_pos (by decide)]
      refine ⟨fun h => absurd hmem (h.resolve_left (by decide)), fun _ _ => ?_⟩
      split_ifs
      · exact ⟨_, rfl⟩
      · exact ⟨_, rfl⟩
    | true =>
      obtain ⟨r', hr', hres⟩ := decodeGeneral_single (d := ⟨initial, r.charOrIndex, new.bomIndex⟩)
        (skipBomSingle codeUnits) (reads_initial _) hne
      rw [hr', Delivers, ← hres]
      exact ⟨fun _ => rfl, fun h => absurd h (by decide)⟩

end

section Chunks

lemma bomLoop_cases (values bytes : List Octet) (i : ℕ) :
    (∃ rest, bytes = values ++ rest ∧ bomLoop values bytes i = some (i + values.length, 0)) ∨
    (∃ rest, values = bytes ++ rest ∧ rest ≠ [] ∧ ∃ j, bomLoop values bytes i = some (j, rest.length)) ∨
    (¬values <+: bytes ∧ ¬bytes <+: values ∧ bomLoop values bytes i = none) := by
  induction values generalizing bytes i with
  | nil => exact .inl ⟨bytes, rfl, rfl⟩
  | cons value values ih =>
    cases bytes with
    | nil => exact .inr (.inl ⟨_, rfl, cons_ne_nil _ _, i, rfl⟩)
    | cons byte bytes =>
      rw [bomLoop]
      by_cases heq : byte = value
      · subst heq
        rw [if_neg (not_not_intro rfl)]
        rcases ih bytes (i + 1) with ⟨rest, rfl, hloop⟩ | ⟨rest, rfl, hne, j, hloop⟩ | ⟨h1, h2, hloop⟩
        · refine .inl ⟨rest, rfl, ?_⟩
          rw [hloop, length_cons, Nat.add_assoc, Nat.add_comm 1]
        · exact .inr (.inl ⟨rest, rfl, hne, j, hloop⟩)
        · refine .inr (.inr ⟨?_, ?_, hloop⟩)
          · exact fun h => h1 (cons_prefix_cons.1 h).2
          · exact fun h => h2 (cons_prefix_cons.1 h).2
      · rw [if_pos heq]
        refine .inr (.inr ⟨?_, ?_, rfl⟩)
        · exact fun h => heq (cons_prefix_cons.1 h).1.symm
        · exact fun h => heq (cons_prefix_cons.1 h).1

structure Sync (seen : List Octet) (d : Decoder) : Prop where
  reads : Reads d.state d.charOrIndex (run none (dropBom seen)).2
  mark : (∃ k : ℕ, k < 3 ∧ d.bomIndex = k ∧ seen = bomValues.take k) ∨
    (d.bomIndex = -1 ∧ ∀ more, dropBom (seen ++ more) = dropBom seen ++ more)

lemma sync_new : Sync [] new where
  reads := .accept 0
  mark := .inl ⟨0, by decide, rfl, rfl⟩

lemma mark_silent : ∀ k : Fin 3, dropBom (bomValues.take k) = bomValues.take k ∧
    (run none (bomValues.take k)).1 = [] := by
  decide +kernel

lemma not_prefix_append {values bytes : List Octet} (h1 : ¬values <+: bytes) (h2 : ¬bytes <+: values)
    (more : List Octet) : ¬values <+: bytes ++ more := by
  intro h
  rcases prefix_or_prefix_of_prefix h (prefix_append bytes more) with h | h
  · exact h1 h
  · exact h2 h

def Follow (allowMalformed : Bool) (seen chunk : List Octet)
    (r : Option (Decoder × Except FormatException (List CodeUnit))) : Prop :=
  ∃ parts, (run none (dropBom (seen ++ chunk))).1 = (run none (dropBom seen)).1 ++ parts ∧
    (allowMalformed = true ∨ none ∉ parts → ∃ d, r = some (d, .ok (units parts)) ∧ Sync (seen ++ chunk) d) ∧
    (allowMalformed = false → none ∈ parts → ∃ d e, r = some (d, .error e))

variable {d : Decoder}
variable {seen : List Octet} {allowMalformed : Bool}

lemma follow_text {chunk : List Octet}
    (hrea : Reads d.state d.charOrIndex (run none (dropBom seen)).2) (hbom : d.bomIndex = -1)
    (hfix : ∀ more, dropBom (seen ++ chunk ++ more) = dropBom seen ++ chunk ++ more) :
    Follow allowMalformed seen chunk (convertBytes allowMalformed d 0 chunk) := by
  have hcon := convertBytes_converts allowMalformed 0 chunk hrea
  have hdrop : dropBom (seen ++ chunk) = dropBom seen ++ chunk := by
    have := hfix []
    rwa [append_nil, append_nil] at this
  refine ⟨(run (run none (dropBom seen)).2 chunk).1, ?_, ?_, ?_⟩
  · rw [hdrop, run_append]
  · intro h
    obtain ⟨d', hr, hbom', hrea'⟩ := hcon.ok h
    refine ⟨d', hr, ?_, .inr ⟨hbom'.trans hbom, fun more => ?_⟩⟩
    · rw [hdrop, run_append]
      exact hrea'
    · rw [hfix, hdrop]
  · exact hcon.error

lemma convertChunked_follow (allowMalformed : Bool)
    (chunk : List Octet) (h : Sync seen d) : Follow allowMalformed seen chunk (convertChunked allowMalformed d chunk) := by
  rw [convertChunked, skipBomChunked]
  rcases h.mark with ⟨k, hk, hbom, hseen⟩ | ⟨hbom, hfix⟩
  · have hrea := h.reads
    obtain ⟨hdrop, hsil⟩ := mark_silent ⟨k, hk⟩
    rw [← hseen] at hdrop hsil
    have hwhole : seen ++ bomValues.drop k = bomValues := by rw [hseen, take_append_drop]
    rw [hbom, Int.toNat_natCast]
    rcases bomLoop_cases (bomValues.drop k) chunk 0 with
      ⟨rest, hchu, hloop⟩ | ⟨rest, hvalues, hne, j, hloop⟩ | ⟨h1, h2, hloop⟩
    · -- The mark ends in the chunk, and the state goes back to the initial one.
      rw [hloop]
      change Follow _ _ _ (convertBytes _ ⟨initial, d.charOrIndex, -1⟩ (0 + (bomValues.drop k).length)
        (chunk.drop (0 + (bomValues.drop k).length)))
      have hseen' : seen ++ chunk = bomValues ++ rest := by rw [hchu, ← append_assoc, hwhole]
      have hrest : chunk.drop (0 + (bomValues.drop k).length) = rest := by rw [Nat.zero_add, hchu, drop_left]
      rw [hrest]
      have hcon := convertBytes_converts allowMalformed (d := ⟨initial, d.charOrIndex, -1⟩)
        (0 + (bomValues.drop k).length) rest (reads_initial _)
      refine ⟨(run none rest).1, ?_, ?_, hcon.error⟩
      · rw [hseen', dropBom_append, hdrop, hsil, nil_append]
      · intro hok
        obtain ⟨d', hr, hbom', hrea'⟩ := hcon.ok hok
        rw [hseen']
        refine ⟨d', hr, ?_, .inr ⟨hbom', fun more => ?_⟩⟩
        · exact hrea'
        · rw [append_assoc, dropBom_append, dropBom_append]
    · -- The chunk ends before the mark does.
      have hpos := length_pos_iff.2 hne
      have hlen : (bomValues.drop k).length = 3 - k := length_drop
      rw [hvalues, length_append] at hlen
      have hseen' : seen ++ chunk = bomValues.take (k + chunk.length) := by
        rw [hvalues, ← append_assoc] at hwhole
        rw [← hwhole, take_left']
        rw [length_append, hseen, length_take]
        change min k 3 + _ = _
        omega
      obtain ⟨hdrop', hsil'⟩ := mark_silent ⟨k + chunk.length, by omega⟩
      rw [← hseen'] at hdrop' hsil'
      obtain ⟨n, hn⟩ : ∃ n, rest.length = n + 1 := ⟨rest.length - 1, by omega⟩
      rw [hloop, hn]
      have hcon := convertBytes_converts allowMalformed
        (d := ⟨d.state, d.charOrIndex, 3 - ((n + 1 : ℕ) : ℤ)⟩) 0 chunk hrea
      rw [hdrop] at hcon
      have hrun := run_append none seen chunk
      have hparts : (run (run none seen).2 chunk).1 = [] := by
        have := congrArg Prod.fst hrun
        rw [hsil', hsil] at this
        exact this.symm
      refine ⟨[], ?_, ?_, nofun⟩
      · rw [hdrop', hdrop, hsil, hsil']
        rfl
      · intro _
        obtain ⟨d', hr, hbom', hrea'⟩ := hcon.ok (.inr (by rw [hparts]; exact not_mem_nil))
        rw [hparts] at hr
        refine ⟨d', hr, ?_, .inl ⟨k + chunk.length, by omega, ?_, hseen'⟩⟩
        · rw [hdrop', hrun]
          exact hrea'
        · rw [hbom']
          push_cast
          omega
    · -- There is no mark.
      rw [hloop]
      apply follow_text (by exact hrea) rfl
      intro more
      rw [hdrop, dropBom, if_neg]
      rw [append_assoc, ← hwhole, prefix_append_right_inj]
      exact not_prefix_append h1 h2 more
  · rw [if_pos hbom]
    apply follow_text h.reads hbom
    intro more
    rw [append_assoc, hfix, append_assoc]

section
variable {d : Decoder} {p : Partial} {allowMalformed : Bool}

/-- The states of a decoder over its life: a chunk may end in an exception, and the decoder is used on after one. -/
inductive Reached (allowMalformed : Bool) : Decoder → Prop
  | new : Reached allowMalformed new
  | chunk {d d' : Decoder} {codeUnits : List Octet} {result : Except FormatException (List CodeUnit)} :
      Reached allowMalformed d → convertChunked allowMalformed d codeUnits = some (d', result) → Reached allowMalformed d'
  | flush {d : Decoder} : Reached allowMalformed d → Reached allowMalformed (flushed d)
  | reset {d : Decoder} : Reached allowMalformed d → Reached allowMalformed (reset d)

lemma skipBomChunked_reads (hrea : Reads d.state d.charOrIndex p) (codeUnits : List Octet) :
    ∃ p', Reads (skipBomChunked d codeUnits).1.state (skipBomChunked d codeUnits).1.charOrIndex p' := by
  unfold skipBomChunked
  split_ifs
  · exact ⟨p, hrea⟩
  · split
    · exact ⟨p, hrea⟩
    · exact ⟨none, reads_initial _⟩
    · exact ⟨p, hrea⟩

lemma convertBytes_error {start : ℕ} {bytes : List Octet} {d' : Decoder} {e : FormatException}
    (h : convertBytes allowMalformed d start bytes = some (d', .error e)) : d'.state = initial := by
  rw [convertBytes] at h
  dsimp only at h
  split at h
  · cases h
  split at h
  · cases h
  split at h
  · cases h
  split at h
  all_goals
    obtain ⟨r, -, h⟩ := Option.bind_eq_some_iff.1 h
    split at h
    · cases h
    split at h
    · obtain rfl := congrArg Prod.fst (Option.some.inj h)
      rfl
    · obtain ⟨r', -, h⟩ := Option.bind_eq_some_iff.1 h
      cases h

lemma Reached.reads (h : Reached allowMalformed d) : ∃ p, Reads d.state d.charOrIndex p := by
  induction h with
  | new => exact ⟨none, .accept 0⟩
  | flush => exact ⟨none, reads_initial _⟩
  | reset => exact ⟨none, reads_initial _⟩
  | @chunk d d' codeUnits result _ hstep ih =>
    obtain ⟨p, hrea⟩ := ih
    obtain ⟨p', hrea'⟩ := skipBomChunked_reads hrea codeUnits
    rw [convertChunked] at hstep
    generalize skipBomChunked d codeUnits = skipped at hrea' hstep
    obtain ⟨d₁, start⟩ := skipped
    have hcon := convertBytes_converts allowMalformed start (codeUnits.drop start) hrea'
    by_cases hok : allowMalformed = true ∨ none ∉ (run p' (codeUnits.drop start)).1
    · obtain ⟨d'', hr, -, hrea''⟩ := hcon.ok hok
      obtain rfl := congrArg Prod.fst (Option.some.inj (hr.symm.trans hstep))
      exact ⟨_, hrea''⟩
    · rw [not_or, not_not] at hok
      obtain ⟨d'', e, hr⟩ := hcon.error (eq_false_of_ne_true hok.1) hok.2
      obtain rfl := congrArg Prod.fst (Option.some.inj (hr.symm.trans hstep))
      rw [convertBytes_error hr]
      exact ⟨none, reads_initial _⟩

/-- Every write of a chunk stays inside its string, and a run without an error fills it: with less
room it would write past the end. -/
theorem decode_fills_string (h : Reached allowMalformed d) (codeUnits : List Octet) :
    (let (d, start) := skipBomChunked d codeUnits
      let bytes := codeUnits.drop start
      let (size, flags) := adjust d bytes.length (scan bytes).1 (scan bytes).2
      let decode n := if flags = flagLatin1 ||| flagExtension then decode8 d start bytes n
        else decode16 d start bytes n
      bytes ≠ [] → unfinishedSize bytes ≤ size ∧ ∃ r, decode (size - unfinishedSize bytes) = some r ∧
        (isErrorState r.state = false → ∀ n < size - unfinishedSize bytes, decode n = none)) ∧
    (let start := skipBomSingle codeUnits
      let bytes := codeUnits.drop start
      let (size, flags) := scan bytes
      bytes ≠ [] → ∃ r, (if flags = flagLatin1 ||| flagExtension then decode8 new start bytes size
        else decode16 new start bytes size) = some r) := by
  obtain ⟨_, hrea⟩ := h.reads
  obtain ⟨p, hrea⟩ := skipBomChunked_reads hrea codeUnits
  constructor
  · generalize skipBomChunked d codeUnits = skipped at hrea ⊢
    obtain ⟨d, start⟩ := skipped
    dsimp only at hrea ⊢
    generalize codeUnits.drop start = bytes
    obtain ⟨carried, hadj, -, hcar⟩ := adjust_eq hrea bytes.length (sizeOf bytes) (flagsOf bytes)
    have hreac : Reachable p := ⟨_, _, hrea⟩
    obtain ⟨hroom, hfits⟩ := fits_chunk hreac bytes
    rw [scan_eq, hadj]
    intro hne
    obtain ⟨r, hr, hout⟩ := (decode_decides start carried hrea hne hcar).returns hfits
    refine ⟨hroom, r, hr, ?_⟩
    intro herr n hn
    apply (decode_decides start carried hrea hne hcar).fails
    intro hfits'
    have hok : none ∉ (run p bytes).1 := by
      intro hmem
      rw [hout.error hmem] at herr
      cases herr
    have hlen := hfits' bytes [] (append_nil _) hok
    have hsize := hreac.size_chunk hok
    omega
  · dsimp only
    rw [scan_eq]
    intro hne
    obtain ⟨r, hr, -⟩ := (decode_decides (d := new) _ 0 (reads_initial 0) hne (fun _ h => absurd rfl h)).returns
      (fits_single _)
    rw [Nat.or_zero] at hr
    exact ⟨r, hr⟩

lemma scan_short {bytes : List Octet} (h : bytes.length ≤ 4) : scan bytes = scanBlock bytes := by
  rw [scan, dif_neg]
  rw [scanChunkSize]
  omega

/-- Two bytes of the euro sign are carried over into a chunk that ends in an unfinished sequence. -/
theorem decode_fills_string_euro :
    convertChunked false new [0x41, 0xE2, 0x82] = some (⟨X1, 0x82, -1⟩, .ok [0x41]) ∧
    ∃ r, decode16 ⟨X1, 0x82, -1⟩ 0 [0xAC, 0x42, 0xC3] 2 = some r ∧
      (isErrorState r.state = false → ∀ n < 2, decode16 ⟨X1, 0x82, -1⟩ 0 [0xAC, 0x42, 0xC3] n = none) := by
  have hchunk : convertChunked false new [0x41, 0xE2, 0x82] = some (⟨X1, 0x82, -1⟩, .ok [0x41]) := by
    change convertBytes false ⟨initial, 0, -1⟩ 0 [0x41, 0xE2, 0x82] = _
    rw [convertBytes, scan_short (by decide)]
    rfl
  have h := (decode_fills_string (.chunk .new hchunk) [0xAC, 0x42, 0xC3]).1
  rw [show skipBomChunked ⟨X1, 0x82, -1⟩ [0xAC, 0x42, 0xC3] = (⟨X1, 0x82, -1⟩, 0) from rfl] at h
  dsimp only [drop_zero] at h
  rw [scan_short (by decide)] at h
  exact ⟨hchunk, (h (cons_ne_nil _ _)).2⟩

end

lemma parts_append (bytes more : List Octet) :
    ∃ parts, subparts (dropBom (bytes ++ more)) = (run none (dropBom bytes)).1 ++ parts := by
  have hfix : dropBom (bytes ++ more) = dropBom bytes ++ more →
      ∃ parts, subparts (dropBom (bytes ++ more)) = (run none (dropBom bytes)).1 ++ parts := by
    intro hdrop
    rw [hdrop, ← run_eq_subparts, run_append, append_assoc]
    exact ⟨_, rfl⟩
  by_cases h1 : bomValues <+: bytes
  · obtain ⟨rest, rfl⟩ := h1
    apply hfix
    rw [append_assoc, dropBom_append, dropBom_append]
  by_cases h2 : bytes <+: bomValues
  · have hlen : bytes.length < 3 := by
      by_contra hge
      exact h1 (prefix_of_prefix_length_le (prefix_refl _) h2 (Nat.le_of_not_lt hge))
    obtain ⟨hdrop, hsil⟩ := mark_silent ⟨bytes.length, hlen⟩
    rw [← prefix_iff_eq_take.1 h2] at hdrop hsil
    rw [hdrop, hsil]
    exact ⟨_, rfl⟩
  · apply hfix
    rw [dropBom, if_neg (not_prefix_append h1 h2 more), dropBom, if_neg h1]

lemma flush_delivers {p : Partial} (h : Reads d.state d.charOrIndex p) :
    Delivers allowMalformed (finish p) (some (flush allowMalformed d)) := by
  rw [flush]
  by_cases hend : p = none
  · subst hend
    rw [if_pos (h.le_afterBom.2 rfl)]
    exact ⟨fun _ => rfl, nofun⟩
  · rw [if_neg fun hle => hend (h.le_afterBom.1 hle)]
    cases allowMalformed with
    | false => refine ⟨fun hok => absurd (mem_finish hend) (hok.resolve_left (by decide)), fun _ _ => ⟨_, rfl⟩⟩
    | true =>
      refine ⟨fun _ => ?_, nofun⟩
      rw [units_finish, if_neg hend]
      rfl

lemma convertChunks_delivers (allowMalformed : Bool) (chunks : List (List Octet)) (h : Sync seen d) :
    ∃ parts, subparts (dropBom (seen ++ chunks.flatten)) = (run none (dropBom seen)).1 ++ parts ∧
    Delivers allowMalformed parts (convertChunks allowMalformed d chunks) := by
  induction chunks generalizing seen d with
  | nil =>
    refine ⟨finish (run none (dropBom seen)).2, ?_, flush_delivers h.reads⟩
    rw [flatten_nil, append_nil, run_eq_subparts]
  | cons chunk chunks ih =>
    obtain ⟨parts, hparts, hok, herr⟩ := convertChunked_follow allowMalformed chunk h
    rw [convertChunks, flatten_cons, ← append_assoc]
    by_cases hgood : allowMalformed = true ∨ none ∉ parts
    · obtain ⟨d', hr, hsync⟩ := hok hgood
      obtain ⟨parts', hparts', hok', herr'⟩ := ih hsync
      refine ⟨parts ++ parts', ?_, ?_, ?_⟩
      · rw [hparts', hparts, append_assoc]
      · intro hboth
        rw [hr, units_append]
        have := hok' (hboth.imp_right fun h hmem => h (mem_append_right _ hmem))
        exact congrArg (· >>= fun rest => some (rest.map fun string' => units parts ++ string')) this
      · intro hstr hmem
        have hmem' := (mem_append.1 hmem).resolve_left (hgood.resolve_left (by rw [hstr]; decide))
        obtain ⟨e, he⟩ := herr' hstr hmem'
        refine ⟨e, ?_⟩
        rw [hr]
        exact congrArg (· >>= fun rest => some (rest.map fun string' => units parts ++ string')) he
    · obtain ⟨hstr, hmem⟩ := not_or.1 hgood
      rw [Bool.not_eq_true] at hstr
      rw [not_not] at hmem
      obtain ⟨d', e, hr⟩ := herr hstr hmem
      obtain ⟨parts', hparts'⟩ := parts_append (seen ++ chunk) chunks.flatten
      refine ⟨parts ++ parts', ?_, ?_, ?_⟩
      · rw [hparts', hparts, append_assoc]
      · intro hboth
        exact absurd (mem_append_left _ hmem) (hboth.resolve_left (by rw [hstr]; decide))
      · intro _ _
        refine ⟨e, ?_⟩
        rw [hr]
        rfl

end Chunks

section

def utf16 (r : ℕ) : List CodeUnit :=
  if r < 0x10000 then [Fin.ofNat _ r]
  else [Fin.ofNat _ (0xD800 + (r - 0x10000) / 0x400), Fin.ofNat _ (0xDC00 + (r - 0x10000) % 0x400)]

lemma charCodeUnits_eq (r : ℕ) : charCodeUnits r = utf16 r := by
  rw [charCodeUnits, utf16]
  by_cases hr : r < 0x10000
  · rw [if_neg (by omega), if_pos hr]
  · have hhigh : 0xD7C0 + r >>> 10 = 0xD800 + (r - 0x10000) / 0x400 := by omega
    have hlow : r &&& 0x3FF = (r - 0x10000) % 0x400 := by
      rw [show (0x3FF : ℕ) = 2 ^ 10 - 1 by rfl, Nat.and_two_pow_sub_one_eq_mod]
      omega
    rw [if_pos (by omega), if_neg hr, hhigh, hlow]

def Decodes (allowMalformed : Bool) (bytes : List Octet) (string : List CodeUnit) : Prop :=
  if allowMalformed then
    string = (subparts (dropBom bytes)).flatMap fun part => utf16 (part.getD 0xFFFD)
  else ∃ rs : List ℕ, (∀ r ∈ rs, IsScalar r) ∧ dropBom bytes = octets (rs.flatMap encodeRune) ∧
    string = rs.flatMap utf16

lemma units_some (rs : List ℕ) : units (rs.map some) = rs.flatMap utf16 := by
  rw [units, flatMap_map]
  exact congrArg (rs.flatMap ·) (funext charCodeUnits_eq)

lemma Delivers.decodes {allowMalformed : Bool} {bytes : List Octet}
    {r : Option (Except FormatException (List CodeUnit))} (h : Delivers allowMalformed (subparts (dropBom bytes)) r) :
    ∃ result, r = some result ∧ ∀ string, result = .ok string ↔ Decodes allowMalformed bytes string := by
  cases allowMalformed with
  | true =>
    refine ⟨_, h.1 (.inl rfl), fun string => ?_⟩
    have huni : units (subparts (dropBom bytes)) =
        (subparts (dropBom bytes)).flatMap fun part => utf16 (part.getD 0xFFFD) :=
      congrArg (List.flatMap · _) (funext fun part => charCodeUnits_eq _)
    rw [huni, Decodes]
    exact ⟨fun h => (Except.ok.inj h).symm, fun h => congrArg Except.ok h.symm⟩
  | false =>
    by_cases hok : none ∈ subparts (dropBom bytes)
    · obtain ⟨e, he⟩ := h.2 rfl hok
      refine ⟨_, he, fun string => ⟨nofun, ?_⟩⟩
      rintro ⟨rs, hsca, hbyt, -⟩
      rw [hbyt, subparts_flatMap hsca] at hok
      obtain ⟨r, -, hr⟩ := mem_map.1 hok
      cases hr
    · obtain ⟨rs, hparts, hsca, hbyt⟩ := exists_scalars hok
      refine ⟨_, h.1 (.inr hok), fun string => ?_⟩
      rw [hparts, units_some]
      constructor
      · intro heq
        exact ⟨rs, hsca, hbyt, (Except.ok.inj heq).symm⟩
      · rintro ⟨rs', hsca', hbyt', rfl⟩
        have hsame : rs'.map some = rs.map some := by rw [← subparts_flatMap hsca', ← hbyt', hparts]
        rw [map_injective_iff.2 (Option.some_injective ℕ) hsame]

theorem utf8Decoder_decodes (allowMalformed : Bool) (chunks : List (List Octet)) :
    ∃ whole chunked, convertSingle allowMalformed new chunks.flatten = some whole ∧
      convertChunks allowMalformed new chunks = some chunked ∧ ∀ string,
        (whole = .ok string ↔ Decodes allowMalformed chunks.flatten string) ∧
        (chunked = .ok string ↔ Decodes allowMalformed chunks.flatten string) := by
  obtain ⟨whole, hwhole, hsingle⟩ := (convertSingle_delivers allowMalformed chunks.flatten).decodes
  obtain ⟨parts, hparts, hdelivers⟩ := convertChunks_delivers allowMalformed chunks sync_new
  have hnil : (run none (dropBom [])).1 = [] := rfl
  rw [nil_append, hnil, nil_append] at hparts
  rw [← hparts] at hdelivers
  obtain ⟨chunked, hchunked, hchunks⟩ := hdelivers.decodes
  exact ⟨whole, chunked, hwhole, hchunked, fun string => ⟨hsingle string, hchunks string⟩⟩

end
end DartSdk.Convert.Utf8Decoder
