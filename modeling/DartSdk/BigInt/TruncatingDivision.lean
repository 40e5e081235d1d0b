import DartSdk.BigInt.History

namespace DartSdk.BigInt
open List Int BigIntImpl Op State

section

lemma tdiv_signed (a b : Bool) (m n : ℕ) : (signed a m).tdiv (signed b n) = signed (a != b) (m / n) := by
  have h := Int.ofNat_tdiv m n
  cases a <;> cases b <;> simp [← h]

lemma tmod_signed (a b : Bool) (m n : ℕ) : (signed a m).tmod (signed b n) = signed a (m % n) := by
  have h : ((m : ℤ).tmod n) = ((m % n : ℕ) : ℤ) := rfl
  cases a <;> cases b <;> simp [h]

end

namespace BigIntImpl
variable {x : BigIntImpl}

lemma Canonical.leading (hx : x.Canonical) (hused : x.used ≠ 0) : Leading x.usedDigits := by
  have hlen := hx.usedDigits_length
  refine ⟨hx.usedDigits_bounded, by omega, ?_⟩
  rw [hlen, usedDigits, getD_eq_getElem?_getD, List.getElem?_take_of_lt (by omega)]
  exact hx.top hused

lemma signedResult_represents {n : ℕ} (hx : x.Represents n) (isNegative : Bool) :
    (if isNegative = true ∧ x.used > 0 then x.neg else x).Represents (signed isNegative n) := by
  have hneg := neg_represents hx.1
  rw [hx.2] at hneg
  cases isNegative with
  | false => exact hx
  | true =>
    by_cases hzero : x.used = 0
    · rw [if_neg (by omega)]
      have hn : (n : ℤ) = 0 := by rw [← hx.2, hx.1.val_eq_zero.2 hzero]
      rw [signed_true, hn, neg_zero, ← hn]
      exact hx
    · rw [if_pos ⟨rfl, by omega⟩]
      exact hneg

end BigIntImpl

namespace State

def CacheSound (arrays : List (List ℕ)) (c : Cache) : Prop :=
  c.dividend < arrays.length ∧ c.divisor < arrays.length ∧
    c.quoRem.Correct (value ((arrays.getD c.dividend []).take c.dividendUsed))
      (value ((arrays.getD c.divisor []).take c.divisorUsed))

structure Sound (s : State) : Prop where
  values : ∀ r ∈ s.values, r.array < s.arrays.length ∧ (s.load r).Canonical
  cache : ∀ c, s.cache = some c → CacheSound s.arrays c

variable {s : State} {a b : Ref}

lemma divRemCached_sound (hs : s.Sound) (ha : a ∈ s.values) (hb : b ∈ s.values) (hb0 : b.used ≠ 0)
    (hle : b.used ≤ a.used) : ∃ c, s.divRemCached a b = .ok c ∧ CacheSound s.arrays c ∧
    c.quoRem.Correct (s.load a).magnitude (s.load b).magnitude := by
  obtain ⟨haArray, haCanonical⟩ := hs.values a ha
  obtain ⟨hbArray, hbCanonical⟩ := hs.values b hb
  obtain ⟨q, hq, hcor⟩ := divRem_correct haCanonical.usedDigits_bounded (hbCanonical.leading hb0)
    (by rw [haCanonical.usedDigits_length, hbCanonical.usedDigits_length]; exact hle)
  have hcom : ∃ c, (do
      let quoRem ← divRem (s.load a).usedDigits (s.load b).usedDigits
      .ok ⟨a.array, a.used, b.array, b.used, quoRem⟩ : Except Error Cache) = .ok c ∧ CacheSound s.arrays c ∧
      c.quoRem.Correct (s.load a).magnitude (s.load b).magnitude := by
    rw [hq]
    exact ⟨_, rfl, ⟨haArray, hbArray, hcor⟩, hcor⟩
  rw [divRemCached]
  cases hcac : s.cache with
  | none => exact hcom
  | some c =>
    dsimp only
    split_ifs with hhit
    · obtain ⟨hau, hbu, haa, hba⟩ := hhit
      have hsound := hs.cache c hcac
      refine ⟨c, rfl, hsound, ?_⟩
      have := hsound.2.2
      rwa [← hau, ← hbu, ← haa, ← hba] at this
    · exact hcom

variable {m n : ℕ} {c : Cache}

lemma quotient_represents (hc : c.quoRem.Correct m n) :
    (quotient c a b).Represents (signed (a.isNegative != b.isNegative) (m / n)) := by
  have hlen : ((c.quoRem.digits.take c.quoRem.used).drop c.quoRem.remUsed).length =
      c.quoRem.used - c.quoRem.remUsed := by
    rw [length_drop, length_take, Nat.min_eq_left hc.used]
  have hmake := make_filled false ((hc.bounded.take c.quoRem.used).drop c.quoRem.remUsed)
  rw [hlen, hc.quotient] at hmake
  have h := signedResult_represents hmake (a.isNegative != b.isNegative)
  rw [quotient]
  convert h using 2
  simp

lemma remainder_represents (hc : c.quoRem.Correct m n) :
    ∃ r, remainder c a = .ok r ∧ r.Represents (signed a.isNegative (m % n)) := by
  have hlen : (c.quoRem.digits.take c.quoRem.remUsed).length = c.quoRem.remUsed := by
    rw [length_take, Nat.min_eq_left (hc.remUsed.trans hc.used)]
  have hmake := make_filled false (hc.bounded.take c.quoRem.remUsed)
  rw [hlen, hc.remainder, signed_false] at hmake
  have hshi : ∃ r, (if c.quoRem.remNsh > 0 then
      (make false c.quoRem.remUsed (filled c.quoRem.remUsed
        (c.quoRem.digits.take c.quoRem.remUsed))).shiftRight c.quoRem.remNsh
      else .ok (make false c.quoRem.remUsed (filled c.quoRem.remUsed
        (c.quoRem.digits.take c.quoRem.remUsed)))) = .ok r ∧ r.Represents ((m % n : ℕ) : ℤ) := by
    split_ifs with hnsh
    · obtain ⟨r, hr, hrep⟩ := shiftRight_represents hmake.1 c.quoRem.remNsh
      refine ⟨r, hr, ?_⟩
      rw [hmake.2] at hrep
      have hdiv : ((2 ^ c.quoRem.remNsh * (m % n) : ℕ) : ℤ) / 2 ^ c.quoRem.remNsh = ((m % n : ℕ) : ℤ) := by
        exact_mod_cast Nat.mul_div_cancel_left (m % n) (Nat.two_pow_pos c.quoRem.remNsh)
      rwa [hdiv] at hrep
    · refine ⟨_, rfl, ?_⟩
      rwa [show c.quoRem.remNsh = 0 by omega, pow_zero, Nat.one_mul] at hmake
  obtain ⟨r, hr, hrep⟩ := hshi
  rw [remainder, hr]
  exact ⟨_, rfl, signedResult_represents hrep a.isNegative⟩

section
variable (hs : s.Sound) (ha : a ∈ s.values) (hb : b ∈ s.values) (hb0 : b.used ≠ 0)
include hs ha hb hb0

lemma div_represents : ∃ q c, s.div a b = .ok (q, c) ∧ q.Represents ((s.load a).val.tdiv (s.load b).val) ∧
    ∀ c', c = some c' → CacheSound s.arrays c' := by
  have hval : (s.load a).val.tdiv (s.load b).val =
      signed (a.isNegative != b.isNegative) ((s.load a).magnitude / (s.load b).magnitude) :=
    tdiv_signed _ _ _ _
  rw [div, hval]
  split_ifs with hlt
  · have hmag := magnitude_lt_of_used_lt (hs.values a ha).2 (hs.values b hb).2 hlt
    rw [Nat.div_eq_of_lt hmag, signed_zero]
    exact ⟨_, _, rfl, zero_represents, hs.cache⟩
  · obtain ⟨c, hc, hsound, hcor⟩ := divRemCached_sound hs ha hb hb0 (by omega)
    rw [hc]
    refine ⟨_, _, rfl, quotient_represents hcor, ?_⟩
    rintro c' ⟨rfl⟩
    exact hsound

lemma rem_represents : ∃ r c, s.rem a b = .ok (r, c) ∧ r.Represents ((s.load a).val.tmod (s.load b).val) ∧
    ∀ c', c = some c' → CacheSound s.arrays c' := by
  have hval : (s.load a).val.tmod (s.load b).val =
    signed a.isNegative ((s.load a).magnitude % (s.load b).magnitude) := tmod_signed _ _ _ _
  rw [rem, hval]
  split_ifs with hlt
  · have hmag := magnitude_lt_of_used_lt (hs.values a ha).2 (hs.values b hb).2 hlt
    rw [Nat.mod_eq_of_lt hmag]
    exact ⟨_, _, rfl, ⟨(hs.values a ha).2, rfl⟩, hs.cache⟩
  · obtain ⟨c, hc, hsound, hcor⟩ := divRemCached_sound hs ha hb hb0 (by omega)
    obtain ⟨r, hr, hrep⟩ := remainder_represents hcor
    rw [hc]
    refine ⟨r, some c, ?_, hrep, ?_⟩
    · change (do
        let r ← remainder c a
        .ok (r, some c)) = _
      rw [hr]
      rfl
    · rintro c' ⟨rfl⟩
      exact hsound

end

lemma emod_of_tmod (m n : ℤ) :
    m % n = if m.tmod n < 0 then (if n < 0 then m.tmod n - n else m.tmod n + n) else m.tmod n := by
  rw [emod_eq_tmod]
  by_cases h : 0 ≤ m ∨ n ∣ m
  · have hnon : 0 ≤ m.tmod n := by
      rcases h with h | h
      · exact tmod_nonneg n h
      · rw [tmod_eq_zero_of_dvd h]
    rw [if_pos h, if_neg (by omega)]
    exact add_zero _
  · rw [not_or] at h
    have hle : 0 ≤ (-m).tmod n := tmod_nonneg n (by omega)
    rw [Int.neg_tmod] at hle
    have hne : m.tmod n ≠ 0 := fun hzero => h.2 (dvd_of_tmod_eq_zero hzero)
    split_ifs <;> omega

lemma mod_represents (hs : s.Sound) (ha : a ∈ s.values) (hb : b ∈ s.values) (hb0 : b.used ≠ 0) :
    ∃ r c, s.mod a b = .ok (r, c) ∧ r.Represents ((s.load a).val % (s.load b).val) ∧
    ∀ c', c = some c' → CacheSound s.arrays c' := by
  have hbCanonical := (hs.values b hb).2
  obtain ⟨r, c, hr, hrep, hsound⟩ := rem_represents hs ha hb hb0
  rw [mod, hr]
  refine ⟨_, c, rfl, ?_, hsound⟩
  rw [emod_of_tmod, ← hrep.2]
  have hbneg : (s.load b).val < 0 ↔ b.isNegative = true := hbCanonical.val_neg_iff
  by_cases hneg : r.isNegative = true
  · rw [if_pos hneg, if_pos (hrep.1.val_neg_iff.2 hneg)]
    by_cases hsign : b.isNegative = true
    · rw [if_pos hsign, if_pos (hbneg.2 hsign)]
      exact sub_represents hrep.1 hbCanonical
    · rw [if_neg hsign, if_neg (mt hbneg.1 hsign)]
      exact add_represents hrep.1 hbCanonical
  · rw [if_neg hneg, if_neg (mt hrep.1.val_neg_iff.1 hneg)]
    exact ⟨hrep.1, rfl⟩

section
variable {s' : State} {x : BigIntImpl} {cache : Option Cache}
variable {arrays : List (List ℕ)} {op : Op}

lemma CacheSound.append {c : Cache} (h : CacheSound arrays c) (ds : List ℕ) : CacheSound (arrays ++ [ds]) c := by
  obtain ⟨hdividend, hdivisor, hcor⟩ := h
  refine ⟨?_, ?_, ?_⟩
  · rw [length_append]
    omega
  · rw [length_append]
    omega
  · rwa [getD_append _ _ _ _ hdividend, getD_append _ _ _ _ hdivisor]

lemma Sound.placed (hs : s.Sound) (hx : x.Canonical) (hcac : ∀ c, cache = some c → CacheSound s.arrays c)
    (h : Placed s x cache s') : s'.Sound := by
  cases h with
  | fresh =>
    refine ⟨?_, fun c hc => (hcac c hc).append _⟩
    intro r hr
    rcases mem_append.1 hr with hr | hr
    · obtain ⟨harr, hcan⟩ := hs.values r hr
      refine ⟨?_, ?_⟩
      · rw [length_append]
        omega
      · rw [load, getD_append _ _ _ _ harr]
        exact hcan
    · rw [mem_singleton.1 hr]
      refine ⟨?_, ?_⟩
      · rw [length_append]
        exact Nat.lt_succ_self _
      · rw [load, getD_append_right _ _ _ _ le_rfl, Nat.sub_self]
        exact hx
  | @shared i hi =>
    refine ⟨?_, hcac⟩
    intro r hr
    rcases mem_append.1 hr with hr | hr
    · exact hs.values r hr
    · rw [mem_singleton.1 hr]
      refine ⟨(List.getElem?_eq_some_iff.1 hi).1, ?_⟩
      rw [load, getD_eq_getElem?_getD, hi]
      exact hx

lemma plain_ok {result : Except Error BigIntImpl} (h : s.plain result = .ok (x, cache)) :
    result = .ok x ∧ cache = s.cache := by
  cases result with
  | error e => cases h
  | ok y =>
    cases h
    exact ⟨rfl, rfl⟩

lemma amount_canonical (shift : BigIntImpl → ℤ → Except Error BigIntImpl) {y z : BigIntImpl} {n : ℤ}
    {f : ℕ → ℤ} (hspec : ∀ n : ℕ, ∃ z, shift y n = .ok z ∧ z.Represents (f n))
    (hneg : n < 0 → ∃ e, shift y n = .error e) (h : shift y n = .ok z) : z.Canonical := by
  by_cases hlt : n < 0
  · obtain ⟨e, he⟩ := hneg hlt
    rw [he] at h
    cases h
  · obtain ⟨n, rfl⟩ := eq_ofNat_of_zero_le (not_lt.1 hlt)
    obtain ⟨z', hz', hrep⟩ := hspec n
    rw [hz'] at h
    cases h
    exact hrep.1

lemma Sound.eval (hs : s.Sound) (hop : op.Applies s) (h : s.eval op = .ok (x, cache)) :
    x.Canonical ∧ ∀ c, cache = some c → CacheSound s.arrays c := by
  obtain ⟨hope, hcreate⟩ := hop
  have hpla {result : Except Error BigIntImpl} (hcan : ∀ z, result = .ok z → z.Canonical)
      (hres : s.plain result = .ok (x, cache)) :
      x.Canonical ∧ ∀ c, cache = some c → CacheSound s.arrays c := by
    obtain ⟨hx, rfl⟩ := plain_ok hres
    exact ⟨hcan x hx, hs.cache⟩
  have hval {z : BigIntImpl} (hz : z.Canonical) (hres : s.plain (.ok z) = .ok (x, cache)) :
      x.Canonical ∧ ∀ c, cache = some c → CacheSound s.arrays c := by
    refine hpla ?_ hres
    rintro _ ⟨rfl⟩
    exact hz
  have hcan (r : Ref) (hr : r ∈ op.operands) : (s.load r).Canonical := (hs.values r (hope r hr)).2
  have hdivi {n : ℤ} {result : Except Error (BigIntImpl × Option Cache)} {b : Ref}
      (hspec : b.used ≠ 0 → ∃ q c, result = .ok (q, c) ∧ q.Represents n ∧ ∀ c', c = some c' → CacheSound s.arrays c')
      (hres : (if b.used = 0 then .error .integerDivisionByZero else result) = .ok (x, cache)) :
      x.Canonical ∧ ∀ c, cache = some c → CacheSound s.arrays c := by
    split_ifs at hres with hzero
    obtain ⟨q, c, hq, hrep, hsound⟩ := hspec hzero
    rw [hq] at hres
    cases hres
    exact ⟨hrep.1, hsound⟩
  cases op with
  | create y => exact hval (hcreate _ rfl) h
  | neg a => exact hval (neg_represents (hcan a (.head _))).1 h
  | not a => exact hval (not_represents (hcan a (.head _))).1 h
  | add a b => exact hval (add_represents (hcan a (.head _)) (hcan b (.tail _ (.head _)))).1 h
  | sub a b => exact hval (sub_represents (hcan a (.head _)) (hcan b (.tail _ (.head _)))).1 h
  | mul a b =>
    refine hpla ?_ h
    intro z hz
    obtain ⟨z', hz', hrep⟩ := mul_represents (hcan a (.head _)) (hcan b (.tail _ (.head _)))
    rw [hz'] at hz
    cases hz
    exact hrep.1
  | and a b => exact hval (and_represents (hcan a (.head _)) (hcan b (.tail _ (.head _)))).1 h
  | or a b => exact hval (or_represents (hcan a (.head _)) (hcan b (.tail _ (.head _)))).1 h
  | xor a b => exact hval (xor_represents (hcan a (.head _)) (hcan b (.tail _ (.head _)))).1 h
  | shiftLeft a n =>
    refine hpla (fun z hz => ?_) h
    exact amount_canonical shiftLeft (shiftLeft_represents (hcan a (.head _))) (fun hn => ⟨_, if_pos hn⟩) hz
  | shiftRight a n =>
    refine hpla (fun z hz => ?_) h
    exact amount_canonical shiftRight (shiftRight_represents (hcan a (.head _))) (fun hn => ⟨_, if_pos hn⟩) hz
  | pow a n =>
    refine hpla (fun z hz => ?_) h
    exact amount_canonical pow (pow_represents (hcan a (.head _))) (fun hn => ⟨_, if_pos hn⟩) hz
  | truncDiv a b => exact hdivi (div_represents hs (hope a (.head _)) (hope b (.tail _ (.head _)))) h
  | remainder a b => exact hdivi (rem_represents hs (hope a (.head _)) (hope b (.tail _ (.head _)))) h
  | mod a b => exact hdivi (mod_represents hs (hope a (.head _)) (hope b (.tail _ (.head _)))) h

lemma Sound.step (hs : s.Sound) (hop : op.Applies s) (h : Step s op s') : s'.Sound := by
  cases h with
  | returns heval hplaced =>
    obtain ⟨hx, hcac⟩ := hs.eval hop heval
    exact hs.placed hx hcac hplaced
  | throws _ => exact hs

lemma sound_of_reachable (h : Reachable s) : s.Sound := by
  induction h with
  | start => exact ⟨nofun, nofun⟩
  | next _ hop hstep ih => exact ih.step hop hstep

end
end State

section

lemma signed_natAbs (m : ℤ) : signed (decide (m < 0)) m.natAbs = m := by
  by_cases h : m < 0
  · rw [decide_eq_true h, signed_true]
    omega
  · rw [decide_eq_false h, signed_false]
    omega

variable {m n : ℤ}

lemma abs_tmod_lt (hn : n ≠ 0) : |m.tmod n| < |n| := by
  have hlt := Nat.mod_lt m.natAbs (natAbs_pos.2 hn)
  have habs : |m.tmod n| = ((m.natAbs % n.natAbs : ℕ) : ℤ) := by
    conv_lhs => rw [← signed_natAbs m, ← signed_natAbs n]
    rw [tmod_signed]
    cases decide (m < 0)
    · rw [signed_false, Nat.abs_cast]
    · rw [signed_true, abs_neg, Nat.abs_cast]
  rw [habs, abs_eq_natAbs]
  exact_mod_cast hlt

lemma tmod_sign (m n : ℤ) : m.tmod n = 0 ∨ (m.tmod n).sign = m.sign := by
  by_cases hzero : m.tmod n = 0
  · exact Or.inl hzero
  right
  rcases lt_trichotomy m 0 with hneg | rfl | hpos
  · have hle : 0 ≤ (-m).tmod n := tmod_nonneg n (by omega)
    rw [Int.neg_tmod] at hle
    rw [sign_eq_neg_one_of_neg hneg, sign_eq_neg_one_of_neg (by omega)]
  · exact absurd (zero_tmod n) hzero
  · have hle := tmod_nonneg n hpos.le
    rw [sign_eq_one_of_pos hpos, sign_eq_one_of_pos (by omega)]

lemma truncating_unique (hn : n ≠ 0) (q r : ℤ) :
    (q = m.tdiv n ∧ r = m.tmod n) ↔ (m = q * n + r ∧ |r| < |n| ∧ (r = 0 ∨ r.sign = m.sign)) := by
  have hdec := mul_tdiv_add_tmod m n
  constructor
  · rintro ⟨rfl, rfl⟩
    exact ⟨by linear_combination -hdec, abs_tmod_lt hn, tmod_sign m n⟩
  · rintro ⟨heq, hlt, hsign⟩
    have hlt' := abs_tmod_lt (m := m) hn
    -- Two remainders of one sign differ by less than the divisor.
    have hdiff : |r - m.tmod n| < |n| := by
      rcases lt_trichotomy m 0 with hneg | rfl | hpos
      · have hr : r ≤ 0 := by
          rcases hsign with rfl | hsign
          · exact le_rfl
          · rw [sign_eq_neg_one_of_neg hneg] at hsign
            exact (sign_eq_neg_one_iff_neg.1 hsign).le
        have hle : 0 ≤ (-m).tmod n := tmod_nonneg n (by omega)
        rw [Int.neg_tmod] at hle
        rw [abs_lt] at *
        omega
      · rw [zero_tmod, sub_zero]
        exact hlt
      · have hr : 0 ≤ r := by
          rcases hsign with rfl | hsign
          · exact le_rfl
          · rw [sign_eq_one_of_pos hpos] at hsign
            exact (sign_eq_one_iff_pos.1 hsign).le
        have hle := tmod_nonneg n hpos.le
        rw [abs_lt] at *
        omega
    have hdvd : n ∣ r - m.tmod n := ⟨m.tdiv n - q, by linear_combination -heq - hdec⟩
    rw [abs_eq_natAbs, abs_eq_natAbs] at hdiff
    have hr : r - m.tmod n = 0 := eq_zero_of_dvd_of_natAbs_lt_natAbs hdvd (by exact_mod_cast hdiff)
    have hq : (q - m.tdiv n) * n = 0 := by linear_combination heq.symm + hdec.symm - hr
    rcases mul_eq_zero.1 hq with hq | hzero
    · exact ⟨by omega, by omega⟩
    · exact absurd hzero hn

lemma euclidean_unique (hn : n ≠ 0) (r : ℤ) : r = m % n ↔ (0 ≤ r ∧ r < |n| ∧ r ≡ m [ZMOD n]) := by
  constructor
  · rintro rfl
    exact ⟨emod_nonneg m hn, emod_lt_abs m hn, mod_modEq m n⟩
  · rintro ⟨hlo, hhi, hmod⟩
    rw [← hmod.eq, ← emod_abs, emod_eq_of_lt hlo hhi]

end

theorem bigInt_division {s : State} (hs : Reachable s) {a b : Ref} (ha : a ∈ s.values) (hb : b ∈ s.values)
    (hzero : (s.load b).val ≠ 0) :
    (∃ q cq r cr, s.eval (.truncDiv a b) = .ok (q, cq) ∧ s.eval (.remainder a b) = .ok (r, cr) ∧
      ∀ q' r' : ℤ, (q' = q.val ∧ r' = r.val) ↔ ((s.load a).val = q' * (s.load b).val + r' ∧
        |r'| < |(s.load b).val| ∧ (r' = 0 ∨ r'.sign = (s.load a).val.sign))) ∧ ∃ m c, s.eval (.mod a b) = .ok (m, c) ∧
      ∀ m' : ℤ, m' = m.val ↔ (0 ≤ m' ∧ m' < |(s.load b).val| ∧ m' ≡ (s.load a).val [ZMOD (s.load b).val]) := by
  have hsound := sound_of_reachable hs
  have hb0 : b.used ≠ 0 := fun h => hzero ((hsound.values b hb).2.val_eq_zero.2 h)
  obtain ⟨q, cq, hq, hqrep, -⟩ := div_represents hsound ha hb hb0
  obtain ⟨r, cr, hr, hrrep, -⟩ := rem_represents hsound ha hb hb0
  obtain ⟨m, c, hm, hmrep, -⟩ := mod_represents hsound ha hb hb0
  refine ⟨⟨q, cq, r, cr, ?_, ?_, fun q' r' => ?_⟩, m, c, ?_, fun m' => ?_⟩
  · rw [eval, if_neg hb0, hq]
  · rw [eval, if_neg hb0, hr]
  · rw [hqrep.2, hrrep.2]
    exact truncating_unique hzero q' r'
  · rw [eval, if_neg hb0, hm]
  · rw [hmrep.2]
    exact euclidean_unique hzero m'

/-- After a division the digits of its quotient and remainder are cached, and the next division of the same operands
reads them. -/
theorem bigInt_division_cached : ∃ q c,
    eval ⟨[[7, 0], [2, 0]], [⟨false, 1, 0⟩, ⟨false, 1, 1⟩], none⟩ (.truncDiv ⟨false, 1, 0⟩ ⟨false, 1, 1⟩) = .ok (q, some c) ∧
    ∃ m c', eval ⟨[[7, 0], [2, 0], q.digits], [⟨false, 1, 0⟩, ⟨false, 1, 1⟩, ⟨q.isNegative, q.used, 2⟩], some c⟩
        (.mod ⟨false, 1, 0⟩ ⟨false, 1, 1⟩) = .ok (m, c') ∧
      ∀ m' : ℤ, m' = m.val ↔ (0 ≤ m' ∧ m' < |(2 : ℤ)| ∧ m' ≡ 7 [ZMOD 2]) := by
  have hcreate (s : State) {n : ℤ} (hlo : -2 ^ 63 ≤ n) (hhi : n < 2 ^ 63) : Op.Applies s (.create (fromInt n)) := by
    refine ⟨by simp [operands], fun x hx => ?_⟩
    cases hx
    exact (fromInt_represents hlo hhi).1
  have hfirst : Reachable ⟨[[7, 0]], [⟨false, 1, 0⟩], none⟩ :=
    .next .start (hcreate _ (n := 7) (by decide) (by decide)) (.returns rfl .fresh)
  have hsecond : Reachable ⟨[[7, 0], [2, 0]], [⟨false, 1, 0⟩, ⟨false, 1, 1⟩], none⟩ :=
    .next hfirst (hcreate _ (n := 2) (by decide) (by decide)) (.returns rfl .fresh)
  obtain ⟨⟨q, cache, -, -, hq, -⟩, -⟩ := bigInt_division hsecond (a := ⟨false, 1, 0⟩) (b := ⟨false, 1, 1⟩)
    (by decide) (by decide) (by decide)
  have hsome : (eval ⟨[[7, 0], [2, 0]], [⟨false, 1, 0⟩, ⟨false, 1, 1⟩], none⟩
      (.truncDiv ⟨false, 1, 0⟩ ⟨false, 1, 1⟩)).toOption.any (·.2.isSome) = true := by decide +kernel
  rw [hq] at hsome
  obtain ⟨c, rfl⟩ := Option.isSome_iff_exists.1 hsome
  have hthird : Reachable ⟨[[7, 0], [2, 0], q.digits], [⟨false, 1, 0⟩, ⟨false, 1, 1⟩, ⟨q.isNegative, q.used, 2⟩], some c⟩ :=
    .next hsecond ⟨by simp [operands], fun x hx => by cases hx⟩ (.returns hq .fresh)
  have h := bigInt_division hthird (a := ⟨false, 1, 0⟩) (b := ⟨false, 1, 1⟩) (by simp) (by simp)
    (show (2 : ℤ) ≠ 0 by decide)
  exact ⟨q, c, hq, h.2⟩

end DartSdk.BigInt
