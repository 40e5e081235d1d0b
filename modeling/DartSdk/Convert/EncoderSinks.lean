import DartSdk.Convert.Base64EncoderCorrect
import DartSdk.Convert.Utf8EncoderSink

namespace DartSdk.Convert
open Sink

namespace Base64EncoderSink
open Base64Encoder

def addAll (add : Base64EncoderSink → List ℤ → Bool → Base64EncoderSink)
    (calls : List (List ℤ)) : Base64EncoderSink :=
  calls.foldl (fun s source => add s source false) start

def AllBytes (source : List ℤ) : Prop := ∀ b ∈ source, 0 ≤ b ∧ b ≤ 255

def Open (s : Base64EncoderSink) : Prop :=
  .close ∉ s.events ∧ ∃ p : List Byte, p.length < 3 ∧ s.state = stateOf p

lemma open_start : Open start := ⟨by simp [start], [], by decide, rfl⟩

lemma AllBytes.exists_bytes {source : List ℤ} (h : AllBytes source) : ∃ bytes : List Byte, source = ints bytes := by
  induction source with
  | nil => exact ⟨[], rfl⟩
  | cons b source ih =>
    obtain ⟨bytes, rfl⟩ := ih fun b' hb' => h b' (List.mem_cons_of_mem b hb')
    obtain ⟨h0, h1⟩ := h b List.mem_cons_self
    refine ⟨⟨b.toNat, by omega⟩ :: bytes, ?_⟩
    change b :: ints bytes = (b.toNat : ℤ) :: ints bytes
    rw [Int.toNat_of_nonneg h0]

section
variable (urlSafe : Bool) {s : Base64EncoderSink} {source : List ℤ}

lemma encode_of_not_allBytes (h : ¬AllBytes source) (state : ℕ) (isLast : Bool) :
    encode urlSafe state source isLast = none := by
  apply encode_invalid
  simpa [AllBytes] using h

lemma Open.encode (h : Open s) (hb : AllBytes source) (isLast : Bool) :
    ∃ p : List Byte, ∃ bytes, p.length < 3 ∧ s.state = stateOf p ∧ source = ints bytes ∧
      Base64Encoder.encode urlSafe s.state source isLast = some (if isLast then 0 else stateOf (leftover (p ++ bytes)),
        if outputOf urlSafe isLast (p ++ bytes) = [] then none else some (outputOf urlSafe isLast (p ++ bytes))) := by
  obtain ⟨-, p, hp, hs⟩ := h
  obtain ⟨bytes, rfl⟩ := hb.exists_bytes
  exact ⟨p, bytes, hp, hs, rfl, by rw [hs, encode_eq urlSafe hp]⟩

lemma length_leftover_lt (bytes : List Byte) : (leftover bytes).length < 3 := by
  rw [length_leftover]
  omega

lemma Open.asciiAdd (h : Open s) (source : List ℤ) : Open (asciiAdd urlSafe s source false) := by
  rw [Base64EncoderSink.asciiAdd]
  by_cases hb : AllBytes source
  · obtain ⟨p, bytes, -, -, -, henc⟩ := h.encode urlSafe hb false
    rw [henc]
    refine ⟨?_, _, length_leftover_lt (p ++ bytes), rfl⟩
    by_cases hout : outputOf urlSafe false (p ++ bytes) = [] <;> simp [hout, h.1]
  · rwa [encode_of_not_allBytes urlSafe hb]

lemma Open.utf8Add (h : Open s) (source : List ℤ) : Open (utf8Add urlSafe s source false) := by
  rw [Base64EncoderSink.utf8Add]
  by_cases hb : AllBytes source
  · obtain ⟨p, bytes, -, -, -, henc⟩ := h.encode urlSafe hb false
    rw [henc]
    refine ⟨?_, _, length_leftover_lt (p ++ bytes), rfl⟩
    by_cases hout : outputOf urlSafe false (p ++ bytes) = [] <;> simp [hout, h.1, Sink.addSlice]
  · rwa [encode_of_not_allBytes urlSafe hb]

lemma Open.asciiAdd_last (h : Open s) (source : List ℤ) :
    ClosedOnce (Base64EncoderSink.asciiAdd urlSafe s source true).events ↔ AllBytes source := by
  rw [Base64EncoderSink.asciiAdd]
  by_cases hb : AllBytes source
  · obtain ⟨p, bytes, -, -, -, henc⟩ := h.encode urlSafe hb true
    rw [henc]
    refine iff_of_true (closedOnce_append closedOnce_close ?_) hb
    by_cases hout : outputOf urlSafe true (p ++ bytes) = [] <;> simp [hout, h.1]
  · rw [encode_of_not_allBytes urlSafe hb]
    exact iff_of_false (not_closedOnce_of_notMem h.1) hb

lemma Open.utf8Add_last (h : Open s) (source : List ℤ) :
    ClosedOnce (Base64EncoderSink.utf8Add urlSafe s source true).events ↔
    AllBytes source ∧ 0 < stateCount s.state + source.length := by
  rw [Base64EncoderSink.utf8Add]
  by_cases hb : AllBytes source
  · obtain ⟨p, bytes, hp, hs, rfl, henc⟩ := h.encode urlSafe hb true
    have hlen := length_outputOf urlSafe true (p ++ bytes)
    rw [henc]
    dsimp only
    rw [hs, stateCount_stateOf hp, ints, List.length_map]
    rw [List.length_append] at hlen
    by_cases hout : outputOf urlSafe true (p ++ bytes) = []
    · rw [if_pos hout]
      refine iff_of_false ?_ fun hpos => ?_
      · rw [List.append_nil]
        exact not_closedOnce_of_notMem h.1
      · rw [hout, List.length_nil] at hlen
        simp only [Bool.true_and, decide_eq_true_eq] at hlen
        split at hlen <;> omega
    · rw [if_neg hout]
      refine iff_of_true (closedOnce_append (closedOnce_addSlice _) h.1) ⟨hb, ?_⟩
      by_contra hzero
      rw [show p.length + bytes.length = 0 by omega] at hlen
      exact hout (List.length_eq_zero_iff.1 hlen)
  · rw [encode_of_not_allBytes urlSafe hb]
    exact iff_of_false (not_closedOnce_of_notMem h.1) fun hc => hb hc.1

lemma open_addAll {add : Base64EncoderSink → List ℤ → Bool → Base64EncoderSink}
    (hadd : ∀ {s : Base64EncoderSink}, Open s → ∀ source, Open (add s source false))
    (calls : List (List ℤ)) : Open (addAll add calls) := by
  have hfold : ∀ (calls : List (List ℤ)) (s : Base64EncoderSink), Open s →
      Open (calls.foldl (fun s source => add s source false) s) := by
    intro calls
    induction calls with
    | nil => exact fun s h => h
    | cons source calls ih => exact fun s h => ih _ (hadd h source)
  exact hfold calls start open_start

end
end Base64EncoderSink

open Base64EncoderSink in
theorem encoderSinks_closedOnce_iff (chunks : List (List CodeUnit)) (ending : Utf8EncoderSink.Ending)
    (urlSafe : Bool) (calls : List (List ℤ)) (last : List ℤ) :
    (∃ s s', Utf8EncoderSink.start.addAll chunks = some s ∧ s.finish ending = some s' ∧
      (ClosedOnce s'.events ↔ Utf8EncoderSink.ClosesOnce chunks.flatten ending)) ∧
    (ClosedOnce (asciiAdd urlSafe (addAll (asciiAdd urlSafe) calls) last true).events ↔ AllBytes last) ∧
    (ClosedOnce (utf8Add urlSafe (addAll (utf8Add urlSafe) calls) last true).events ↔ AllBytes last ∧
        0 < Base64Encoder.stateCount (addAll (utf8Add urlSafe) calls).state + last.length) := by
  refine ⟨?_, ?_, ?_⟩
  · obtain ⟨s, p, hs, hsent⟩ := Utf8EncoderSink.sent_start.addAll chunks
    obtain ⟨s', hs', -, honce⟩ := hsent.finish ending
    exact ⟨s, s', hs, hs', honce⟩
  · exact (open_addAll (fun h source => h.asciiAdd urlSafe source) calls).asciiAdd_last urlSafe last
  · exact (open_addAll (fun h source => h.utf8Add urlSafe source) calls).utf8Add_last urlSafe last

theorem encoderSinks_not_closedOnce : (Utf8EncoderSink.start.finish (.slice [97])).map Utf8EncoderSink.events =
      some [.add [97], .close, .close] ∧
    (Base64EncoderSink.utf8Add false Base64EncoderSink.start [] true).events = [] := by
  decide

end DartSdk.Convert
