import DartSdk.Convert.Utf8Decoder
import DartSdk.Convert.Utf8EncoderCorrect

namespace DartSdk.Convert.Utf8Decoder
open List

section

def tailRanges (lead : ℕ) : Option (List (ℕ × ℕ)) :=
  if lead < 0xC2 then none
  else if lead < 0xE0 then some [(0x80, 0xBF)]
  else if lead = 0xE0 then some [(0xA0, 0xBF), (0x80, 0xBF)]
  else if lead = 0xED then some [(0x80, 0x9F), (0x80, 0xBF)]
  else if lead < 0xF0 then some [(0x80, 0xBF), (0x80, 0xBF)]
  else if lead = 0xF0 then some [(0x90, 0xBF), (0x80, 0xBF), (0x80, 0xBF)]
  else if lead < 0xF4 then some [(0x80, 0xBF), (0x80, 0xBF), (0x80, 0xBF)]
  else if lead = 0xF4 then some [(0x80, 0x8F), (0x80, 0xBF), (0x80, 0xBF)]
  else none

def leadBits (lead : ℕ) : ℕ :=
  if lead < 0xE0 then lead - 0xC0 else if lead < 0xF0 then lead - 0xE0 else lead - 0xF0

def takeTail : List (ℕ × ℕ) → ℕ → List Octet → Option ℕ × List Octet
  | [], char, bytes => (some char, bytes)
  | _ :: _, _, [] => (none, [])
  | range :: ranges, char, byte :: bytes =>
    if range.1 ≤ byte.val ∧ byte.val ≤ range.2 then
      takeTail ranges (char * 64 + (byte.val - 0x80)) bytes
    else (none, byte :: bytes)

lemma takeTail_length (ranges : List (ℕ × ℕ)) (char : ℕ) (bytes : List Octet) :
    (takeTail ranges char bytes).2.length ≤ bytes.length := by
  induction ranges generalizing char bytes with
  | nil => rfl
  | cons range ranges ih =>
    cases bytes with
    | nil => rfl
    | cons byte bytes =>
      rw [takeTail]
      split
      · exact (ih _ _).trans (Nat.le_succ _)
      · rfl

def subparts : List Octet → List (Option ℕ)
  | [] => []
  | byte :: bytes =>
    if byte.val < 0x80 then some byte.val :: subparts bytes
    else
      match tailRanges byte.val with
      | none => none :: subparts bytes
      | some ranges =>
        (takeTail ranges (leadBits byte.val) bytes).1 :: subparts (takeTail ranges (leadBits byte.val) bytes).2
termination_by bytes => bytes.length
decreasing_by
  · exact Nat.lt_succ_self _
  · exact Nat.lt_succ_self _
  · exact Nat.lt_succ_of_le (takeTail_length _ _ _)

end

section

def IsScalar (r : ℕ) : Prop := r < 0xD800 ∨ 0xE000 ≤ r ∧ r < 0x110000

def octets (bytes : List ℕ) : List Octet := bytes.map (Fin.ofNat 256)

variable {n : ℕ}

lemma octet_val (h : n < 256) : (Fin.ofNat 256 n).val = n := Nat.mod_eq_of_lt h

variable {byte : Octet}

lemma octet_eq (h : byte.val = n) : byte = Fin.ofNat 256 n := by
  apply Fin.ext
  rw [octet_val (h ▸ byte.isLt), h]

variable {ranges : List (ℕ × ℕ)}
variable {char r lo hi : ℕ} {range : ℕ × ℕ}

lemma takeTail_cons (bytes : List Octet) (h : range.1 ≤ byte.val ∧ byte.val ≤ range.2) :
    takeTail (range :: ranges) char (byte :: bytes) = takeTail ranges (char * 64 + (byte.val - 0x80)) bytes := if_pos h

variable {bytes rest : List Octet}

lemma takeTail_some (h : takeTail (range :: ranges) char bytes = (some r, rest)) : ∃ byte bytes',
    bytes = byte :: bytes' ∧ (range.1 ≤ byte.val ∧ byte.val ≤ range.2) ∧
    takeTail ranges (char * 64 + (byte.val - 0x80)) bytes' = (some r, rest) := by
  cases bytes with
  | nil => cases h
  | cons byte bytes =>
    rw [takeTail] at h
    split at h
    · next hin => exact ⟨byte, bytes, rfl, hin, h⟩
    · cases h

lemma subparts_lead (h : tailRanges byte.val = some ranges)
    (bytes : List Octet) : subparts (byte :: bytes) = (takeTail ranges (leadBits byte.val) bytes).1 ::
    subparts (takeTail ranges (leadBits byte.val) bytes).2 := by
  have hasc : ¬byte.val < 0x80 := by
    intro hlt
    rw [tailRanges, if_pos (by omega)] at h
    cases h
  rw [subparts, if_neg hasc, h]

variable {r : ℕ}

lemma subparts_encodeRune (hr : IsScalar r) (bytes : List Octet) :
    subparts (octets (encodeRune r) ++ bytes) = some r :: subparts bytes := by
  rw [IsScalar] at hr
  rw [encodeRune]
  by_cases h1 : r < 0x80
  · rw [if_pos h1, octets, map_singleton, singleton_append, subparts, octet_val (by omega), if_pos h1]
  rw [if_neg h1]
  by_cases h2 : r < 0x800
  · have hran : tailRanges (Fin.ofNat 256 (0xC0 + r / 64)).val = some [(0x80, 0xBF)] := by
      rw [octet_val (by omega), tailRanges, if_neg (by omega), if_pos (by omega)]
    rw [if_pos h2]
    simp only [octets, map_cons, map_nil, cons_append, nil_append]
    rw [subparts_lead hran, takeTail_cons _ (by rw [octet_val (by omega)]; omega), takeTail, leadBits,
      octet_val (by omega), octet_val (by omega), if_pos (by omega)]
    exact congrArg (fun char => some char :: subparts bytes) (by omega)
  rw [if_neg h2]
  by_cases h3 : r < 0x10000
  · obtain ⟨lo, hi, hran, hin⟩ : ∃ lo hi, tailRanges (Fin.ofNat 256 (0xE0 + r / 4096)).val
        = some [(lo, hi), (0x80, 0xBF)] ∧ lo ≤ 0x80 + r / 64 % 64 ∧ 0x80 + r / 64 % 64 ≤ hi := by
      rw [octet_val (by omega), tailRanges, if_neg (by omega), if_neg (by omega)]
      split_ifs
      · exact ⟨_, _, rfl, by omega, by omega⟩
      · exact ⟨_, _, rfl, by omega, by omega⟩
      · exact ⟨_, _, rfl, by omega, by omega⟩
      all_goals omega
    rw [if_pos h3]
    simp only [octets, map_cons, map_nil, cons_append, nil_append]
    rw [subparts_lead hran, takeTail_cons _ (by rw [octet_val (by omega)]; exact hin),
      takeTail_cons _ (by rw [octet_val (by omega)]; omega), takeTail, leadBits,
      octet_val (by omega), octet_val (by omega), octet_val (by omega), if_neg (by omega),
      if_pos (by omega)]
    exact congrArg (fun char => some char :: subparts bytes) (by omega)
  · obtain ⟨lo, hi, hran, hin⟩ : ∃ lo hi, tailRanges (Fin.ofNat 256 (0xF0 + r / 262144)).val
        = some [(lo, hi), (0x80, 0xBF), (0x80, 0xBF)] ∧ lo ≤ 0x80 + r / 4096 % 64 ∧ 0x80 + r / 4096 % 64 ≤ hi := by
      rw [octet_val (by omega), tailRanges, if_neg (by omega), if_neg (by omega), if_neg (by omega),
        if_neg (by omega), if_neg (by omega)]
      split_ifs
      · exact ⟨_, _, rfl, by omega, by omega⟩
      · exact ⟨_, _, rfl, by omega, by omega⟩
      · exact ⟨_, _, rfl, by omega, by omega⟩
      · omega
    rw [if_neg h3]
    simp only [octets, map_cons, map_nil, cons_append, nil_append]
    rw [subparts_lead hran, takeTail_cons _ (by rw [octet_val (by omega)]; exact hin),
      takeTail_cons _ (by rw [octet_val (by omega)]; omega),
      takeTail_cons _ (by rw [octet_val (by omega)]; omega), takeTail, leadBits,
      octet_val (by omega), octet_val (by omega), octet_val (by omega), octet_val (by omega),
      if_neg (by omega), if_neg (by omega)]
    exact congrArg (fun char => some char :: subparts bytes) (by omega)

lemma takeTail_nil (h : takeTail [] char bytes = (some r, rest)) : r = char ∧ rest = bytes := by
  exact ⟨(Option.some.inj (congrArg Prod.fst h)).symm, (congrArg Prod.snd h).symm⟩

lemma octets_cons {ns : List ℕ} (hb : byte.val = n)
    (h : bytes = octets ns ++ rest) : byte :: bytes = octets (n :: ns) ++ rest := by
  rw [octet_eq hb, h]
  rfl

lemma encodeRune_two (hbyte : 0xC2 ≤ byte.val ∧ byte.val < 0xE0)
    (h : takeTail [(0x80, 0xBF)] (leadBits byte.val) bytes = (some r, rest)) :
    byte :: bytes = octets (encodeRune r) ++ rest ∧ IsScalar r := by
  obtain ⟨x, bytes, rfl, hx, h⟩ := takeTail_some h
  obtain ⟨hr, hrest⟩ := takeTail_nil h
  subst hrest
  rw [leadBits, if_pos hbyte.2] at hr
  constructor
  · rw [encodeRune, if_neg (by omega), if_pos (by omega)]
    exact octets_cons (by omega) (octets_cons (by omega) rfl)
  · exact .inl (by omega)

lemma encodeRune_three (hbyte : 0xE0 ≤ byte.val ∧ byte.val < 0xF0) (hlo : 0x80 ≤ lo) (hhi : hi ≤ 0xBF)
    (hover : byte.val = 0xE0 → 0xA0 ≤ lo) (hsur : byte.val = 0xED → hi ≤ 0x9F)
    (h : takeTail [(lo, hi), (0x80, 0xBF)] (leadBits byte.val) bytes = (some r, rest)) :
    byte :: bytes = octets (encodeRune r) ++ rest ∧ IsScalar r := by
  obtain ⟨x, bytes, rfl, hx, h⟩ := takeTail_some h
  obtain ⟨y, bytes, rfl, hy, h⟩ := takeTail_some h
  obtain ⟨hr, hrest⟩ := takeTail_nil h
  subst hrest
  rw [leadBits, if_neg (by omega), if_pos hbyte.2] at hr
  constructor
  · rw [encodeRune, if_neg (by omega), if_neg (by omega), if_pos (by omega)]
    exact octets_cons (by omega) (octets_cons (by omega) (octets_cons (by omega) rfl))
  · rw [IsScalar]
    omega

lemma encodeRune_four (hbyte : 0xF0 ≤ byte.val ∧ byte.val ≤ 0xF4) (hlo : 0x80 ≤ lo) (hhi : hi ≤ 0xBF)
    (hover : byte.val = 0xF0 → 0x90 ≤ lo) (hrange : byte.val = 0xF4 → hi ≤ 0x8F)
    (h : takeTail [(lo, hi), (0x80, 0xBF), (0x80, 0xBF)] (leadBits byte.val) bytes = (some r, rest)) :
    byte :: bytes = octets (encodeRune r) ++ rest ∧ IsScalar r := by
  obtain ⟨x, bytes, rfl, hx, h⟩ := takeTail_some h
  obtain ⟨y, bytes, rfl, hy, h⟩ := takeTail_some h
  obtain ⟨z, bytes, rfl, hz, h⟩ := takeTail_some h
  obtain ⟨hr, hrest⟩ := takeTail_nil h
  subst hrest
  rw [leadBits, if_neg (by omega), if_neg (by omega)] at hr
  constructor
  · rw [encodeRune, if_neg (by omega), if_neg (by omega), if_neg (by omega)]
    exact octets_cons (by omega) (octets_cons (by omega) (octets_cons (by omega) (octets_cons (by omega) rfl)))
  · rw [IsScalar]
    omega

lemma encodeRune_of_tail (hran : tailRanges byte.val = some ranges)
    (h : takeTail ranges (leadBits byte.val) bytes = (some r, rest)) :
    byte :: bytes = octets (encodeRune r) ++ rest ∧ IsScalar r := by
  rw [tailRanges] at hran
  split_ifs at hran <;> cases hran
  · exact encodeRune_two (by omega) h
  · exact encodeRune_three (by omega) (by omega) (by omega) (by omega) (by omega) h
  · exact encodeRune_three (by omega) (by omega) (by omega) (by omega) (by omega) h
  · exact encodeRune_three (by omega) (by omega) (by omega) (by omega) (by omega) h
  · exact encodeRune_four (by omega) (by omega) (by omega) (by omega) (by omega) h
  · exact encodeRune_four (by omega) (by omega) (by omega) (by omega) (by omega) h
  · exact encodeRune_four (by omega) (by omega) (by omega) (by omega) (by omega) h

lemma exists_scalars {bytes : List Octet} (h : none ∉ subparts bytes) :
    ∃ rs : List ℕ, subparts bytes = rs.map some ∧ (∀ r ∈ rs, IsScalar r) ∧ bytes = octets (rs.flatMap encodeRune) := by
  induction bytes using subparts.induct with
  | case1 => exact ⟨[], by rw [subparts]; rfl, nofun, rfl⟩
  | case2 byte bytes hasc ih =>
    rw [subparts, if_pos hasc] at h ⊢
    obtain ⟨rs, hrs, hsca, hbyt⟩ := ih fun hmem => h (mem_cons_of_mem _ hmem)
    refine ⟨byte.val :: rs, by rw [hrs]; rfl, ?_, ?_⟩
    · exact forall_mem_cons.2 ⟨.inl (by omega), hsca⟩
    · rw [flatMap_cons, encodeRune, if_pos hasc, octets, map_append, ← octets, ← octets, ← hbyt]
      exact congrArg (· :: bytes) (octet_eq rfl)
  | case3 byte bytes hasc hran ih =>
    rw [subparts, if_neg hasc, hran] at h
    exact absurd mem_cons_self h
  | case4 byte bytes hasc ranges hran ih =>
    rw [subparts, if_neg hasc, hran] at h ⊢
    dsimp only at h ⊢
    obtain ⟨rs, hrs, hsca, hbyt⟩ := ih fun hmem => h (mem_cons_of_mem _ hmem)
    obtain ⟨r, hr⟩ : ∃ r, (takeTail ranges (leadBits byte.val) bytes).1 = some r :=
      Option.ne_none_iff_exists'.1 fun hnone => h (hnone ▸ mem_cons_self)
    obtain ⟨heq, hr'⟩ := encodeRune_of_tail hran (Prod.ext hr rfl)
    refine ⟨r :: rs, by rw [hrs, hr]; rfl, forall_mem_cons.2 ⟨hr', hsca⟩, ?_⟩
    rw [heq, flatMap_cons, octets, octets, map_append, ← octets, ← octets, ← hbyt]

lemma subparts_flatMap {rs : List ℕ} (h : ∀ r ∈ rs, IsScalar r) :
    subparts (octets (rs.flatMap encodeRune)) = rs.map some := by
  induction rs with
  | nil =>
    rw [flatMap_nil, octets, map_nil, subparts]
    rfl
  | cons r rs ih =>
    obtain ⟨hr, hrs⟩ := forall_mem_cons.1 h
    rw [flatMap_cons, octets, map_append, ← octets, ← octets, subparts_encodeRune hr, ih hrs]
    rfl

end

section

abbrev Partial := Option (List (ℕ × ℕ) × ℕ)

def begin (byte : Octet) : List (Option ℕ) × Partial :=
  if byte.val < 0x80 then ([some byte.val], none)
  else
    match tailRanges byte.val with
    | none => ([none], none)
    | some ranges => ([], some (ranges, leadBits byte.val))

def step (p : Partial) (byte : Octet) : List (Option ℕ) × Partial :=
  match p with
  | none => begin byte
  | some ([], _) => begin byte
  | some (range :: ranges, char) =>
    if range.1 ≤ byte.val ∧ byte.val ≤ range.2 then
      if ranges = [] then ([some (char * 64 + (byte.val - 0x80))], none)
      else ([], some (ranges, char * 64 + (byte.val - 0x80)))
    else (none :: (begin byte).1, (begin byte).2)

def run (p : Partial) : List Octet → List (Option ℕ) × Partial
  | [] => ([], p)
  | byte :: bytes => ((step p byte).1 ++ (run (step p byte).2 bytes).1, (run (step p byte).2 bytes).2)

def finish (p : Partial) : List (Option ℕ) := if p.isSome then [none] else []

lemma run_append (p : Partial) (bytes bytes' : List Octet) :
    run p (bytes ++ bytes') = ((run p bytes).1 ++ (run (run p bytes).2 bytes').1, (run (run p bytes).2 bytes').2) := by
  induction bytes generalizing p with
  | nil => rfl
  | cons byte bytes ih => rw [cons_append, run, run, ih, append_assoc]

lemma run_takeTail (ranges : List (ℕ × ℕ)) (hne : ranges ≠ []) (char : ℕ) (bytes : List Octet) :
    (run (some (ranges, char)) bytes).1 ++ finish (run (some (ranges, char)) bytes).2 =
    (takeTail ranges char bytes).1 :: ((run none (takeTail ranges char bytes).2).1 ++
    finish (run none (takeTail ranges char bytes).2).2) := by
  induction ranges generalizing char bytes with
  | nil => exact absurd rfl hne
  | cons range ranges ih =>
    cases bytes with
    | nil => rfl
    | cons byte bytes =>
      rw [run, takeTail, step]
      by_cases hin : range.1 ≤ byte.val ∧ byte.val ≤ range.2
      · rw [if_pos hin, if_pos hin]
        by_cases hlast : ranges = []
        · subst hlast
          rfl
        · rw [if_neg hlast]
          exact ih hlast _ bytes
      · rw [if_neg hin, if_neg hin]
        rfl

lemma run_eq_subparts (bytes : List Octet) : (run none bytes).1 ++ finish (run none bytes).2 = subparts bytes := by
  induction bytes using subparts.induct with
  | case1 =>
    rw [subparts]
    rfl
  | case2 byte bytes hasc ih =>
    rw [subparts, if_pos hasc, run, step, begin, if_pos hasc, ← ih]
    rfl
  | case3 byte bytes hasc hran ih =>
    rw [subparts, if_neg hasc, hran, run, step, begin, if_neg hasc, hran, ← ih]
    rfl
  | case4 byte bytes hasc ranges hran ih =>
    have hne : ranges ≠ [] := by
      rintro rfl
      rw [tailRanges] at hran
      split_ifs at hran <;> cases hran
    rw [subparts, if_neg hasc, hran, run, step, begin, if_neg hasc, hran]
    dsimp only
    rw [nil_append, run_takeTail ranges hne, ih]

end
end DartSdk.Convert.Utf8Decoder
