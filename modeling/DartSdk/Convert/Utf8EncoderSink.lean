import DartSdk.Convert.Utf8EncoderCorrect

namespace DartSdk.Convert.Utf8EncoderSink
open Option
open Utf8Encoder Sink List

def Pending (carry : ℕ) (p : List CodeUnit) : Prop :=
  (carry = 0 ∧ p = []) ∨ ∃ u : CodeUnit, p = [u] ∧ carry = u.val ∧ isLeadSurrogate u.val = true

lemma pending_zero : Pending 0 [] := .inl ⟨rfl, rfl⟩

lemma ne_zero_of_lead {u : CodeUnit} (h : isLeadSurrogate u.val = true) : u.val ≠ 0 := by
  rw [isLeadSurrogate_iff u.isLt] at h
  omega

lemma pending_lead {u : CodeUnit} (h : isLeadSurrogate u.val = true) : Pending u.val [u] := .inr ⟨u, rfl, rfl, h⟩

structure Sliced (isLast : Bool) (str : List CodeUnit) (buffer : List ℕ) (carry : ℕ)
    (events : List (Event ℕ)) (p : List CodeUnit) : Prop where
  pending : Pending carry p
  all : buffer ++ encoded str = contents events ++ encoded p
  more : isLast = false → ∀ future, buffer ++ encoded (str ++ future) = contents events ++ encoded (p ++ future)
  carried : isLast = false → (carry ≠ 0 ↔ endsInLead str = true)
  unclosed : isLast = false ∨ endsInLead str = true → .close ∉ events
  closed : isLast = true → endsInLead str = false → carry = 0 ∧ ClosedOnce events
  room : isLast = true → endsInLead str = true →
    (carry = 0 ↔ lastBuffer bufferSize buffer.length str + 3 < bufferSize)

section
variable {isLast : Bool} {str rest : List CodeUnit} {buffer bytes : List ℕ}

lemma Sliced.finish (henc : ∀ future, encoded (str ++ future) = bytes ++ encoded future)
    (hlead : endsInLead str = false) : Sliced isLast str buffer 0 (Sink.addSlice (buffer ++ bytes) isLast) [] := by
  have hall := henc []
  rw [append_nil] at hall
  refine ⟨pending_zero, ?_, fun _ future => ?_, fun _ => ?_, fun h => ?_, fun hl _ => ⟨rfl, ?_⟩, fun _ h => ?_⟩
  · rw [contents_addSlice, hall, append_assoc]
  · rw [contents_addSlice, henc, append_assoc]
    rfl
  · simp [hlead]
  · rcases h with rfl | h
    · exact close_notMem_addSlice _
    · rw [hlead] at h
      cases h
  · rw [hl]
    exact closedOnce_addSlice _
  · rw [hlead] at h
    cases h

section
variable {u : CodeUnit} (hu : isLeadSurrogate u.val = true)
  (henc : ∀ future, encoded (str ++ future) = bytes ++ encoded (u :: future)) (hlead : endsInLead str = true)
  (hfull : lastBuffer bufferSize buffer.length str = (buffer ++ bytes).length)

include hu henc hlead hfull

lemma Sliced.hold (hroom : isLast = true → ¬(buffer ++ bytes).length < bufferSize - 3) :
    Sliced isLast str buffer u.val (Sink.addSlice (buffer ++ bytes) false) [u] := by
  have hall := henc []
  rw [append_nil] at hall
  refine ⟨pending_lead hu, ?_, fun _ future => ?_, fun _ => ?_, fun _ => close_notMem_addSlice _, fun _ h => ?_,
    fun hl _ => ?_⟩
  · rw [contents_addSlice, hall, append_assoc]
  · rw [contents_addSlice, henc, append_assoc]
    rfl
  · simp [hlead, ne_zero_of_lead hu]
  · rw [hlead] at h
    cases h
  · rw [hfull]
    exact iff_of_false (ne_zero_of_lead hu) fun h => hroom hl (by omega)

lemma Sliced.replace (hroom : (buffer ++ bytes).length < bufferSize - 3) :
    Sliced true str buffer 0 (Sink.addSlice (buffer ++ bytes ++ replacementCharacter) false) [] := by
  have hall := henc []
  rw [append_nil, encoded_lead hu] at hall
  refine ⟨pending_zero, ?_, fun h => ?_, fun h => ?_, fun _ => close_notMem_addSlice _, fun _ h => ?_, fun _ _ => ?_⟩
  · rw [contents_addSlice, hall]
    simp [encoded, runes]
  · cases h
  · cases h
  · rw [hlead] at h
    cases h
  · rw [hfull]
    exact iff_of_true rfl (by omega)

end

lemma Sliced.cons {carry : ℕ} {events : List (Event ℕ)} {p : List CodeUnit} (h : Sliced isLast rest [] carry events p)
    (henc : ∀ future, encoded (str ++ future) = bytes ++ encoded (rest ++ future))
    (hlead : endsInLead rest = endsInLead str)
    (hfull : lastBuffer bufferSize buffer.length str = lastBuffer bufferSize 0 rest) :
    Sliced isLast str buffer carry (Sink.addSlice (buffer ++ bytes) false ++ events) p := by
  have hall := henc []
  rw [append_nil, append_nil] at hall
  refine ⟨h.pending, ?_, fun hl future => ?_, fun hl => ?_, fun hl => ?_, fun hl hend => ?_, fun hl hend => ?_⟩
  · have := h.all
    rw [nil_append] at this
    rw [contents_append, contents_addSlice, hall, this]
    simp only [append_assoc]
  · have := h.more hl future
    rw [nil_append] at this
    rw [contents_append, contents_addSlice, henc, this]
    simp only [append_assoc]
  · rw [← hlead]
    exact h.carried hl
  · rw [mem_append, not_or]
    rw [← hlead] at hl
    exact ⟨close_notMem_addSlice _, h.unclosed hl⟩
  · rw [← hlead] at hend
    exact ⟨(h.closed hl hend).1, closedOnce_append (h.closed hl hend).2 (close_notMem_addSlice _)⟩
  · rw [hfull]
    exact h.room hl (hlead.trans hend)

lemma sliceLoop_spec (isLast : Bool) (fuel : ℕ) :
    ∀ {str : List CodeUnit} {buffer : List ℕ}, str.length < fuel → buffer.length + 4 ≤ bufferSize →
    ∃ carry events p, sliceLoop isLast fuel str buffer = some (carry, events) ∧
    Sliced isLast str buffer carry events p := by
  induction fuel with
  | zero =>
    intro str buffer hfuel
    exact absurd hfuel (Nat.not_lt_zero _)
  | succ fuel ih =>
    intro str buffer hfuel hbuf
    obtain ⟨rest, bytes, taken, hfill, htak, hcap, -, henc, hlead, -⟩ :=
      fillBuffer_spec bufferSize str buffer (by omega)
    have hfull := lastBuffer_fillBuffer (by decide) (show buffer.length ≤ bufferSize by omega) hfill
    rw [sliceLoop, hfill]
    simp only [bind_eq_bind, bind_some]
    by_cases hfir : firstCharacter rest = none
    · rw [if_pos hfir] at hfull
      rcases firstCharacter_none hfir with rfl | ⟨u, rfl, hu⟩
      · have hend : endsInLead str = false := hlead.symm.trans rfl
        refine ⟨0, _, [], ?_, Sliced.finish henc hend⟩
        simp [finishSurrogate]
      · have hend : endsInLead str = true := hlead.symm.trans hu
        rw [finishSurrogate, if_pos hu]
        by_cases hroom : (isLast && decide ((buffer ++ bytes).length < bufferSize - 3)) = true
        · rw [Bool.and_eq_true, decide_eq_true_iff] at hroom
          rw [if_pos (by rwa [Bool.and_eq_true, decide_eq_true_iff]), write_eq (by
            simp only [replacementCharacter, length_cons, length_nil]
            omega), hroom.1]
          exact ⟨0, _, [], by simp, Sliced.replace hu henc hend hfull hroom.2⟩
        · rw [if_neg hroom]
          exact ⟨u.val, _, [u], by simp, Sliced.hold hu henc hend hfull fun hl h => hroom (by
            rw [hl, Bool.true_and, decide_eq_true_iff]
            exact h)⟩
    · -- the buffer was full
      have hstr : firstCharacter str ≠ none := by
        intro hnone
        rw [fillBuffer_none hnone, Option.some.injEq, Prod.mk.injEq] at hfill
        rw [← hfill.1] at hfir
        exact hfir hnone
      have hlt : rest.length < str.length := fillBuffer_progress hbuf hstr hfill
      obtain ⟨carry, events, p, hloop, hsli⟩ :=
        ih (show rest.length < fuel by omega) (show ([] : List ℕ).length + 4 ≤ bufferSize by decide)
      have hnone : rest ≠ [] := by
        rintro rfl
        exact hfir rfl
      have hfin : finishSurrogate isLast rest (buffer ++ bytes) = some (rest, buffer ++ bytes, 0) := by
        rcases rest with _ | ⟨u, _ | ⟨v, rest⟩⟩
        · rfl
        · have hu : ¬isLeadSurrogate u.val = true := by
            intro hu
            apply hfir
            rw [firstCharacter.eq_def]
            dsimp only
            rw [if_pos hu]
          rw [finishSurrogate, if_neg hu]
        · rfl
      refine ⟨carry, _, p, ?_, hsli.cons henc hlead (hfull.trans (if_neg hfir))⟩
      rw [hfin, isEmpty_eq_false_iff.2 hnone]
      simp [hnone, hloop]

end

structure Added (isLast : Bool) (q str : List CodeUnit) (s s' : Utf8EncoderSink)
    (events : List (Event ℕ)) (p : List CodeUnit) : Prop where
  log : s'.events = s.events ++ events
  pending : Pending s'.carry p
  all : encoded (q ++ str) = contents events ++ encoded p
  more : isLast = false → ∀ future, encoded (q ++ str ++ future) = contents events ++ encoded (p ++ future)
  carried : isLast = false → (s'.carry ≠ 0 ↔ endsInLead (q ++ str) = true)
  unclosed : isLast = false ∨ endsInLead str = true → .close ∉ events
  closed : isLast = true → endsInLead str = false → s'.carry = 0 ∧ ClosedOnce events
  room : isLast = true → endsInLead str = true →
    (s'.carry = 0 ↔ lastBuffer bufferSize 0 (q ++ str) + 3 < bufferSize)

section
variable {isLast : Bool} {s : Utf8EncoderSink} {q str : List CodeUnit}

lemma Sliced.added {rest : List CodeUnit} {bytes : List ℕ} {carry : ℕ} {events : List (Event ℕ)}
    {p : List CodeUnit} (h : Sliced isLast rest bytes carry events p) (henc : ∀ future, isLast = false ∨ future = [] →
    encoded (q ++ str ++ future) = bytes ++ encoded (rest ++ future)) (hlead : endsInLead rest = endsInLead str)
    (hlead' : isLast = false → endsInLead rest = endsInLead (q ++ str))
    (hfull : endsInLead str = true → lastBuffer bufferSize 0 (q ++ str) = lastBuffer bufferSize bytes.length rest) :
    Added isLast q str s ⟨carry, s.events ++ events⟩ events p := by
  refine ⟨rfl, h.pending, ?_, fun hl future => ?_, fun hl => ?_, fun hl => ?_, fun hl hend => ?_, fun hl hend => ?_⟩
  · have := henc [] (.inr rfl)
    rw [append_nil, append_nil] at this
    rw [this, h.all]
  · rw [henc future (.inl hl), h.more hl]
  · rw [← hlead' hl]
    exact h.carried hl
  · rw [← hlead] at hl
    exact h.unclosed hl
  · rw [← hlead] at hend
    exact h.closed hl hend
  · rw [hfull hend]
    exact h.room hl (hlead.trans hend)

lemma addSliceData_spec (hq : Pending s.carry q) (str : List CodeUnit) (isLast : Bool) :
    ∃ s' events p, s.addSliceData str isLast = some s' ∧ Added isLast q str s s' events p := by
  by_cases hemp : (str.isEmpty && !isLast) = true
  · refine ⟨s, [], q, by rw [addSliceData, if_pos hemp], ?_⟩
    rw [Bool.and_eq_true, List.isEmpty_iff] at hemp
    obtain ⟨rfl, hl⟩ := hemp
    rw [Bool.not_eq_true'] at hl
    refine ⟨by simp, hq, by simp [contents], fun _ future => by simp [contents], fun _ => ?_,
      fun _ => by simp, fun h => ?_, fun h => ?_⟩
    · rcases hq with ⟨hc, rfl⟩ | ⟨u, rfl, hc, hu⟩
      · simp [hc, endsInLead]
      · simp [hc, endsInLead, hu, ne_zero_of_lead hu]
    · rw [hl] at h
      cases h
    · rw [hl] at h
      cases h
  · rw [addSliceData, if_neg hemp]
    rcases hq with ⟨hc, rfl⟩ | ⟨u, rfl, hc, hu⟩
    · obtain ⟨carry, events, p, hloop, hsli⟩ := sliceLoop_spec isLast (str.length + 1)
        (Nat.lt_succ_self str.length) (show ([] : List ℕ).length + 4 ≤ bufferSize by decide)
      refine ⟨⟨carry, s.events ++ events⟩, events, p, ?_, hsli.added (fun _ _ => rfl) rfl (fun _ => rfl) fun _ => rfl⟩
      simp [hc, hloop]
    · have hne : s.carry ≠ 0 := hc ▸ ne_zero_of_lead hu
      cases str with
      | nil =>
        have hl : isLast = true := by simpa using hemp
        subst hl
        obtain ⟨carry, events, p, hloop, hsli⟩ := sliceLoop_spec true ([] : List CodeUnit).length.succ
          (Nat.lt_succ_self _) (show replacementCharacter.length + 4 ≤ bufferSize by decide)
        refine ⟨⟨carry, s.events ++ events⟩, events, p, ?_, hsli.added ?_ rfl (fun h => ?_) fun h => ?_⟩
        · rw [if_pos hne, writeSurrogate_other (by decide) (by decide)]
          have hloop' : sliceLoop true 1 [] replacementCharacter = some (carry, events) := hloop
          simp [hloop']
        · rintro future (h | rfl)
          · cases h
          · rw [append_nil, append_nil, encoded_lead hu]
            simp [encoded, runes]
        · cases h
        · cases h
      | cons v str =>
        obtain ⟨bytes, wasCombined, hfir, hwri, hlen⟩ : ∃ bytes wasCombined, firstCharacter (u :: v :: str) =
              some (bytes, if wasCombined then str else v :: str) ∧
            writeSurrogate bufferSize [] s.carry v.val = some (bytes, wasCombined) ∧
            bytes.length ≤ 4 := by
          rw [firstCharacter, if_pos hu, hc]
          by_cases hv : isTailSurrogate v.val
          · exact ⟨_, true, if_pos hv, writeSurrogate_tail hv (by decide), by simp [surrogateBytes]⟩
          · exact ⟨_, false, if_neg hv, writeSurrogate_other hv (by decide), by decide⟩
        have hlead := endsInLead_firstCharacter hfir
        have hlead' : endsInLead (u :: v :: str) = endsInLead (v :: str) := endsInLead_append [u] (cons_ne_nil v str)
        obtain ⟨carry, events, p, hloop, hsli⟩ := sliceLoop_spec isLast
          ((if wasCombined then str else v :: str).length + 1) (Nat.lt_succ_self _)
          (show bytes.length + 4 ≤ bufferSize by rw [bufferSize]; omega)
        refine ⟨⟨carry, s.events ++ events⟩, events, p, ?_, hsli.added ?_ ?_ (fun _ => hlead) fun _ => ?_⟩
        · rw [if_pos hne]
          simp [hwri, hloop]
        · exact fun future _ => encoded_firstCharacter hfir future
        · rw [hlead, hlead']
        · have hmargin : margin (u :: v :: str) bytes = 4 := by simp [margin, hu]
          rw [singleton_append, lastBuffer_firstCharacter hfir, hmargin, place, if_neg (by decide), Nat.zero_add]

end

def addAll (s : Utf8EncoderSink) (chunks : List (List CodeUnit)) : Option Utf8EncoderSink :=
  chunks.foldlM (fun s str => s.addSlice str false) s

inductive Ending
  | close
  | slice (str : List CodeUnit)

def Ending.str : Ending → List CodeUnit
  | .close => []
  | .slice str => str

def finish (s : Utf8EncoderSink) : Ending → Option Utf8EncoderSink
  | .close => s.close
  | .slice str => s.addSlice str true

structure Sent (all : List CodeUnit) (s : Utf8EncoderSink) (p : List CodeUnit) : Prop where
  pending : Pending s.carry p
  more : ∀ future, encoded (all ++ future) = contents s.events ++ encoded (p ++ future)
  carried : s.carry ≠ 0 ↔ endsInLead all = true
  unclosed : .close ∉ s.events

lemma sent_start : Sent [] start [] := ⟨pending_zero, fun _ => rfl, by simp [start, endsInLead], by simp [start]⟩

section
variable {all p : List CodeUnit} {s : Utf8EncoderSink}

lemma Sent.addSlice (h : Sent all s p) (str : List CodeUnit) :
    ∃ s' p', s.addSlice str false = some s' ∧ Sent (all ++ str) s' p' := by
  obtain ⟨s', events, p', hs, hadd⟩ := addSliceData_spec h.pending str false
  refine ⟨s', p', ?_, hadd.pending, fun future => ?_, ?_, ?_⟩
  · rw [Utf8EncoderSink.addSlice, hs]
    rfl
  · rw [append_assoc, h.more, ← append_assoc, hadd.more rfl, hadd.log, contents_append, append_assoc]
  · rw [hadd.carried rfl]
    by_cases hstr : str = []
    · subst hstr
      rw [append_nil, append_nil, ← h.carried]
      rcases h.pending with ⟨hc, rfl⟩ | ⟨u, rfl, hc, hu⟩
      · simp [hc, endsInLead]
      · simp [hc, endsInLead, hu, ne_zero_of_lead hu]
    · rw [endsInLead_append p hstr, endsInLead_append all hstr]
  · rw [hadd.log, mem_append, not_or]
    exact ⟨h.unclosed, hadd.unclosed (.inl rfl)⟩

lemma Sent.addAll (h : Sent all s p) (chunks : List (List CodeUnit)) :
    ∃ s' p', s.addAll chunks = some s' ∧ Sent (all ++ chunks.flatten) s' p' := by
  induction chunks generalizing all s p with
  | nil => exact ⟨s, p, rfl, by rwa [flatten_nil, append_nil]⟩
  | cons str chunks ih =>
    obtain ⟨s1, p1, hs1, h1⟩ := h.addSlice str
    obtain ⟨s2, p2, hs2, h2⟩ := ih h1
    refine ⟨s2, p2, ?_, ?_⟩
    · rw [Utf8EncoderSink.addAll, foldlM_cons, hs1]
      exact hs2
    · rwa [flatten_cons, ← append_assoc]

lemma closeLoop_zero (hc : s.carry = 0) (fuel : ℕ) : s.closeLoop (fuel + 1) = some ⟨0, s.events ++ [.close]⟩ := by
  rw [closeLoop, if_neg (not_not.2 hc), hc]

lemma closeLoop_carry (hp : Pending s.carry p) (hc : s.carry ≠ 0) (fuel : ℕ) :
    ∃ events, s.closeLoop (fuel + 2) = some ⟨0, s.events ++ events ++ [.close]⟩ ∧
    contents events = encoded p ∧ ClosedOnce events := by
  obtain ⟨s', events, p', hs, hadd⟩ := addSliceData_spec hp [] true
  obtain ⟨hc', honce⟩ := hadd.closed rfl rfl
  refine ⟨events, ?_, ?_, honce⟩
  · rw [closeLoop, if_pos hc, hs]
    simp only [bind_eq_bind, bind_some]
    rw [closeLoop_zero hc', hadd.log]
  · have hall := hadd.all
    rcases hadd.pending with ⟨-, rfl⟩ | ⟨u, -, hu, hlead⟩
    · simpa [encoded, runes] using hall.symm
    · exact absurd (hu.symm.trans hc') (ne_zero_of_lead hlead)

def trailingLead (text : List CodeUnit) : List CodeUnit := (text.getLast?.filter (isLeadSurrogate ·.val)).toList

/-- The next sink is closed once after `text`: no surrogate waits for its other half at the end; or the
last slice ends in a lead surrogate, for whose replacement its last buffer has room. -/
def ClosesOnce (text : List CodeUnit) : Ending → Prop
  | .close => endsInLead text = false
  | .slice str => endsInLead str = true ∧ lastBuffer bufferSize 0 (trailingLead text ++ str) + 3 < bufferSize

lemma trailingLead_cases (text : List CodeUnit) : endsInLead text = false ∧ trailingLead text = [] ∨
    ∃ w : CodeUnit, endsInLead text = true ∧ trailingLead text = [w] ∧ isLeadSurrogate w.val = true := by
  unfold endsInLead trailingLead
  cases text.getLast? with
  | none => exact .inl ⟨rfl, rfl⟩
  | some w =>
    rw [Option.filter_some]
    cases hw : isLeadSurrogate w.val with
    | false => exact .inl ⟨hw, rfl⟩
    | true => exact .inr ⟨w, hw, rfl, hw⟩

lemma Sent.lastBuffer_pending (h : Sent all s p) (str : List CodeUnit) :
    lastBuffer bufferSize 0 (p ++ str) = lastBuffer bufferSize 0 (trailingLead all ++ str) := by
  rcases h.pending with ⟨hc, rfl⟩ | ⟨u, rfl, hc, hu⟩
  · have hno : endsInLead all = false := by simpa [hc] using h.carried
    rcases trailingLead_cases all with ⟨-, ht⟩ | ⟨w, hl, -⟩
    · rw [ht]
    · simp [hl] at hno
  · have hyes : endsInLead all = true := h.carried.1 (hc ▸ ne_zero_of_lead hu)
    rcases trailingLead_cases all with ⟨hl, -⟩ | ⟨w, -, ht, hw⟩
    · simp [hl] at hyes
    · rw [ht]
      exact lastBuffer_lead hu hw 0 str

lemma Sent.finish (h : Sent all s p) (ending : Ending) :
    ∃ s', s.finish ending = some s' ∧ contents s'.events = encoded (all ++ ending.str) ∧
    (ClosedOnce s'.events ↔ ClosesOnce all ending) := by
  cases ending with
  | close =>
    rw [Utf8EncoderSink.finish, Ending.str]
    by_cases hc : s.carry = 0
    · refine ⟨_, closeLoop_zero hc 1, ?_, iff_of_true ?_ (by simpa [ClosesOnce, hc] using h.carried)⟩
      · rcases h.pending with ⟨-, rfl⟩ | ⟨u, -, hu, hlead⟩
        · rw [contents_append, h.more]
          rfl
        · exact absurd (hu.symm.trans hc) (ne_zero_of_lead hlead)
      · exact closedOnce_append closedOnce_close h.unclosed
    · obtain ⟨events, hs, hcont, hclo⟩ := closeLoop_carry h.pending hc 0
      refine ⟨_, hs, ?_, iff_of_false (not_closedOnce_twice hclo) (by simpa [ClosesOnce] using h.carried.1 hc)⟩
      rw [contents_append, contents_append, hcont, contents_close, append_nil, h.more, append_nil]
  | slice str =>
    obtain ⟨s', events, p', hs, hadd⟩ := addSliceData_spec h.pending str true
    have hall : encoded (all ++ str) = contents s'.events ++ encoded p' := by
      rw [h.more, hadd.all, hadd.log, contents_append, append_assoc]
    rw [Utf8EncoderSink.finish, Utf8EncoderSink.addSlice, hs]
    simp only [Ending.str]
    by_cases hc : s'.carry = 0
    · refine ⟨_, closeLoop_zero hc 1, ?_, ?_⟩
      · rcases hadd.pending with ⟨-, rfl⟩ | ⟨u, -, hu, hlead⟩
        · rw [contents_append, hall]
          rfl
        · exact absurd (hu.symm.trans hc) (ne_zero_of_lead hlead)
      · rw [hadd.log]
        by_cases hlead : endsInLead str = true
        · refine iff_of_true (closedOnce_append closedOnce_close ?_)
            ⟨hlead, h.lastBuffer_pending str ▸ (hadd.room rfl hlead).1 hc⟩
          rw [mem_append, not_or]
          exact ⟨h.unclosed, hadd.unclosed (.inr hlead)⟩
        · refine iff_of_false (not_closedOnce_twice ?_) fun hcond => hlead hcond.1
          exact (hadd.closed rfl (Bool.eq_false_iff.2 hlead)).2
    · obtain ⟨events', hs', hcont, hclo⟩ := closeLoop_carry hadd.pending hc 0
      refine ⟨_, hs', ?_, iff_of_false (not_closedOnce_twice hclo) fun hcond => ?_⟩
      · rw [contents_append, contents_append, hcont, contents_close, append_nil, hall]
      · exact hc ((hadd.room rfl hcond.1).2 (h.lastBuffer_pending str ▸ hcond.2))

end
end DartSdk.Convert.Utf8EncoderSink
