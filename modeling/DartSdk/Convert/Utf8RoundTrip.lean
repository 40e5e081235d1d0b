import DartSdk.Convert.Utf8DecoderChunks
import DartSdk.Convert.Utf8EncoderSink

namespace DartSdk.Convert.Utf8Decoder
open Utf8Encoder Utf8EncoderSink Sink List

def replaceUnpaired : List CodeUnit → List CodeUnit
  | [] => []
  | u :: rest =>
    if isLeadSurrogate u.val then
      match rest with
      | [] => [0xFFFD]
      | v :: rest' =>
        if isTailSurrogate v.val then u :: v :: replaceUnpaired rest'
        else 0xFFFD :: replaceUnpaired (v :: rest')
    else if isTailSurrogate u.val then 0xFFFD :: replaceUnpaired rest
    else u :: replaceUnpaired rest

lemma utf16_unit (u : CodeUnit) : utf16 u.val = [u] := by
  rw [utf16, if_pos u.isLt]
  exact congrArg (fun v => [v]) (Fin.ext (Nat.mod_eq_of_lt u.isLt))

lemma utf16_pair {u v : CodeUnit} (hu : 0xD800 ≤ u.val ∧ u.val < 0xDC00) (hv : 0xDC00 ≤ v.val ∧ v.val < 0xE000) :
    utf16 (0x10000 + (u.val - 0xD800) * 1024 + (v.val - 0xDC00)) = [u, v] := by
  have hlead : 0xD800 + (0x10000 + (u.val - 0xD800) * 1024 + (v.val - 0xDC00) - 0x10000) / 0x400 = u.val := by omega
  have htail : 0xDC00 + (0x10000 + (u.val - 0xD800) * 1024 + (v.val - 0xDC00) - 0x10000) % 0x400 = v.val := by omega
  rw [utf16, if_neg (by omega), hlead, htail]
  refine congrArg₂ (fun a b => [a, b]) (Fin.ext ?_) (Fin.ext ?_)
  · exact Nat.mod_eq_of_lt u.isLt
  · exact Nat.mod_eq_of_lt v.isLt

lemma utf16_replacement : utf16 0xFFFD = [0xFFFD] := utf16_unit 0xFFFD

lemma isScalar_replacement : IsScalar 0xFFFD := .inr ⟨by decide, by decide⟩

variable (str : List CodeUnit)

lemma runes_spec : (∀ r ∈ runes str, IsScalar r) ∧ (runes str).flatMap utf16 = replaceUnpaired str := by
  fun_induction runes str with
  | case1 => exact ⟨nofun, rfl⟩
  | case2 u hu =>
    rw [replaceUnpaired, if_pos hu]
    exact ⟨forall_mem_singleton.2 isScalar_replacement, utf16_replacement⟩
  | case3 u hu v rest hv ih =>
    rw [replaceUnpaired.eq_def]
    dsimp only
    rw [if_pos hu, if_pos hv, flatMap_cons, ih.2]
    have hu' := (isLeadSurrogate_iff u.isLt).1 hu
    have hv' := (isTailSurrogate_iff v.isLt).1 hv
    rw [utf16_pair hu' hv']
    refine ⟨forall_mem_cons.2 ⟨.inr ?_, ih.1⟩, rfl⟩
    omega
  | case4 u hu v rest hv ih =>
    rw [replaceUnpaired.eq_def]
    dsimp only
    rw [if_pos hu, if_neg hv, flatMap_cons, ih.2]
    exact ⟨forall_mem_cons.2 ⟨isScalar_replacement, ih.1⟩, rfl⟩
  | case5 u rest hu hv ih =>
    rw [replaceUnpaired.eq_def]
    dsimp only
    rw [if_neg hu, if_pos hv, flatMap_cons, ih.2]
    exact ⟨forall_mem_cons.2 ⟨isScalar_replacement, ih.1⟩, rfl⟩
  | case6 u rest hu hv ih =>
    rw [replaceUnpaired.eq_def]
    dsimp only
    rw [if_neg hu, if_neg hv, flatMap_cons, ih.2, utf16_unit]
    rw [isLeadSurrogate_iff u.isLt] at hu
    rw [isTailSurrogate_iff u.isLt] at hv
    refine ⟨forall_mem_cons.2 ⟨?_, ih.1⟩, rfl⟩
    rw [IsScalar]
    omega

lemma runes_head {str : List CodeUnit} {rs : List ℕ} (h : runes str = 0xFEFF :: rs) : str.head? = some 0xFEFF := by
  revert h
  fun_cases runes str with
  | case1 | case2 u hu => exact nofun
  | case3 u hu v rest hv =>
    intro h
    have := (List.cons.inj h).1
    omega
  | case4 u hu v rest hv | case5 u rest hu hv => exact nofun
  | case6 u rest hu hv =>
    intro h
    exact congrArg some (Fin.ext (List.cons.inj h).1)

lemma bomValues_eq : bomValues = octets (encodeRune 0xFEFF) := by decide

lemma dropBom_encoded {str : List CodeUnit} (h : str.head? ≠ some 0xFEFF) :
    dropBom (octets (encoded str)) = octets (encoded str) := by
  rw [dropBom, if_neg]
  rintro ⟨rest, hrest⟩
  have hparts : subparts (octets (encoded str)) = (runes str).map some := subparts_flatMap (runes_spec str).1
  rw [← hrest, bomValues_eq, subparts_encodeRune (.inr ⟨by decide, by decide⟩)] at hparts
  obtain ⟨r, rs, hr⟩ := exists_cons_of_ne_nil (l := runes str) (by
    rintro hnil
    rw [hnil] at hparts
    cases hparts)
  rw [hr] at hparts
  have : 0xFEFF = r := Option.some.inj (List.cons.inj hparts).1
  exact h (runes_head (this ▸ hr))

lemma not_mem_map_some (rs : List ℕ) : none ∉ rs.map some := by
  intro hmem
  obtain ⟨r, -, hr⟩ := mem_map.1 hmem
  cases hr

def withoutMark (str : List CodeUnit) : List CodeUnit :=
  if str.head? = some 0xFEFF then str.tail else str

lemma encoded_mark : octets (encoded (0xFEFF :: str)) = bomValues ++ octets (encoded str) := by
  have hrunes : runes (0xFEFF :: str) = 0xFEFF :: runes str := by
    rw [runes.eq_def]
    rfl
  rw [bomValues_eq, encoded, encoded, hrunes, flatMap_cons, octets, octets, octets, map_append]

lemma decode_encoded : convertSingle false new (octets (encoded str)) =
    some (.ok (replaceUnpaired (withoutMark str))) := by
  have hdrop : dropBom (octets (encoded str)) = octets (encoded (withoutMark str)) := by
    rw [withoutMark]
    by_cases hhead : str.head? = some 0xFEFF
    · rw [if_pos hhead]
      obtain ⟨rest, rfl⟩ := List.head?_eq_some_iff.1 hhead
      rw [encoded_mark, dropBom_append, tail_cons]
    · rw [if_neg hhead, dropBom_encoded hhead]
  obtain ⟨hscalar, hutf16⟩ := runes_spec (withoutMark str)
  have hparts : subparts (octets (encoded (withoutMark str))) = (runes (withoutMark str)).map some :=
    subparts_flatMap hscalar
  have hdelivers := convertSingle_delivers false (octets (encoded str))
  rw [hdrop, hparts] at hdelivers
  rw [← hutf16, ← units_some]
  exact hdelivers.1 (.inr (not_mem_map_some _))

lemma encodeRune_lt {r : ℕ} (h : IsScalar r) : ∀ b ∈ encodeRune r, b < 256 := by
  rw [IsScalar] at h
  rw [encodeRune]
  split_ifs <;> simp only [forall_mem_cons, not_mem_nil, false_implies, implies_true, and_true] <;>
    omega

lemma encoded_lt : ∀ b ∈ encoded str, b < 256 := by
  intro b hb
  obtain ⟨r, hr, hb⟩ := mem_flatMap.1 hb
  exact encodeRune_lt ((runes_spec str).1 r hr) b hb

theorem utf8_roundTrip (str : List CodeUnit) :
    (str.head? ≠ some 0xFEFF → ∃ bytes, convert str = some bytes ∧ (∀ b ∈ bytes, b < 256) ∧
      convertSingle false new (octets bytes) = some (.ok (replaceUnpaired str))) ∧
    ∀ chunks ending, chunks.flatten ++ Ending.str ending = str → ∃ s s',
      start.addAll chunks = some s ∧ s.finish ending = some s' ∧
        convert str = some (contents s'.events) := by
  constructor
  · intro hhead
    refine ⟨encoded str, convert_eq str, encoded_lt str, ?_⟩
    rw [decode_encoded, withoutMark, if_neg hhead]
  · rintro chunks ending rfl
    obtain ⟨s, p, hs, hsent⟩ := sent_start.addAll chunks
    obtain ⟨s', hs', hcontents, -⟩ := hsent.finish ending
    rw [nil_append] at hcontents
    exact ⟨s, s', hs, hs', by rw [convert_eq, hcontents]⟩

theorem utf8_roundTrip_loneLead : (∃ bytes, convert [0x61, 0xD800] = some bytes ∧ (∀ b ∈ bytes, b < 256) ∧
      convertSingle false new (octets bytes) = some (.ok [0x61, 0xFFFD])) ∧
    ∃ s s', start.addAll [[0x61]] = some s ∧ s.finish (.slice [0xD800]) = some s' ∧
      convert [0x61, 0xD800] = some (contents s'.events) :=
  ⟨(utf8_roundTrip [0x61, 0xD800]).1 (by decide), (utf8_roundTrip [0x61, 0xD800]).2 [[0x61]] (.slice [0xD800]) rfl⟩

end DartSdk.Convert.Utf8Decoder
