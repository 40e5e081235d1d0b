import DartSdk.Loops.Bounds

namespace DartSdk.Loops
open WrapInt InductionVar Option Int64

def ArrayLengths (g : FlowGraph) (ρ : Def → Int64) : Prop :=
  ∀ d, g.isArrayLength (some d) = true → 0 ≤ (ρ d).toInt ∧ (ρ d).toInt < 2 ^ 62

def HeldOnEntry (g : FlowGraph) (loop : LoopInfo) (ρ : Def → Int64) (pos : Instruction) (k : ℕ) (r : Record) : Prop :=
  ∀ bound ∈ loop.bounds r.addr, g.isDominatedBy pos bound.branch = true →
    (r.var.isLinear = some 1 → r.var.eval ρ k < bound.limit.eval ρ) ∧
      (r.var.isLinear = some (-1) → bound.limit.eval ρ < r.var.eval ρ k)

def Unwrapped (ρ : Def → Int64) (k : ℕ) : InductionVar → Prop
  | .linear initial next => Fits ((initial.eval ρ).toInt + k * (next.eval ρ).toInt)
  | _ => True

def NoOvershoot (g : FlowGraph) (loop : LoopInfo) (ρ : Def → Int64) (pos : Instruction) (k : ℕ) : InductionVar → Prop
  | .linear initial next =>
    ∀ control bound range start step, loop.control = some control → control.var = .linear start step →
      guard g loop (invariantBounds g []) pos control = some (bound, range) → Unwrapped ρ k control.var ∧
      (bound.limit.isConstant = none ∨ initial.isConstant = none →
        Fits ((initial.eval ρ).toInt + ((bound.limit.eval ρ).toInt - (next.eval ρ).toInt - (start.eval ρ).toInt)))
  | _ => True

/-- The condition on an execution that `IsInRange` relies on without checking it: the length is a
length, and the induction that a comparison keeps in bounds does not wrap around. An index with a
bound of its own is that induction; any other index follows the control induction. -/
structure WithoutWrapAround (g : FlowGraph) (loop : LoopInfo) (ρ : Def → Int64)
    (pos : Instruction) (k : ℕ) (index : Record) (length : InductionVar) : Prop where
  length_nonneg : 0 ≤ length.eval ρ k
  direct : directlyBounded g loop pos index length = true → Unwrapped ρ k index.var
  lockstep : directlyBounded g loop pos index length = false → NoOvershoot g loop ρ pos k index.var

section

lemma toInt_steps (x s : Int64) (k : ℕ) : ∃ t : ℤ,
    (x + Int64.ofNat k * s).toInt = x.toInt + k * s.toInt - 2 ^ 64 * t := by
  obtain ⟨t, ht⟩ := add_spec x (ofNat k * s)
  obtain ⟨v, hv⟩ := bmod_spec ((ofNat k).toInt * s.toInt)
  obtain ⟨w, hw⟩ := ofNat_spec k
  exact ⟨t + v + w * s.toInt, by rw [ht, Int64.toInt_mul, hv, hw]; ring⟩

lemma adjusted_spec (a off u s : Int64) : ∃ t : ℤ, (u + (s - off)).toInt =
    a.toInt + (u.toInt + s.toInt - (a + off).toInt) - 2 ^ 64 * t := by
  obtain ⟨t3, h3⟩ := add_spec a off
  obtain ⟨t4, h4⟩ := add_spec u (s - off)
  obtain ⟨t5, h5⟩ := sub_spec s off
  exact ⟨t3 + t4 + t5, by rw [h4, h5, h3]; ring⟩

lemma lockstep_up {a off u : Int64} {k : ℕ}
    (hc : Fits ((a + off).toInt + k * 1)) (hheld : a + off + Int64.ofNat k * 1 < u)
    (hlast : a ≤ u + (-1 - off) ∨ Fits (a.toInt + (u.toInt - 1 - (a + off).toInt))) :
    a ≤ a + Int64.ofNat k * 1 ∧ a + Int64.ofNat k * 1 ≤ u + (-1 - off) := by
  obtain ⟨t1, h1⟩ := toInt_steps a 1 k
  obtain ⟨t2, h2⟩ := toInt_steps (a + off) 1 k
  obtain ⟨t, ht⟩ := adjusted_spec a off u (-1)
  have hm : (-1 : Int64).toInt = -1 := rfl
  have hctrl := eq_of_fits (range _) hc h2
  rw [lt_iff_toInt_lt] at hheld
  have ra := range a
  have ru := range u
  have rl := range (u + (-1 - off))
  have rk := range (a + ofNat k * 1)
  have rc := range (a + off)
  simp only [le_iff_toInt_le, Fits] at *
  generalize (a + off).toInt = c at *
  generalize (u + (-1 - off)).toInt = w at *
  generalize a.toInt = a' at *
  generalize u.toInt = u' at *
  omega

lemma lockstep_down {a off u : Int64} {k : ℕ}
    (hc : Fits ((a + off).toInt + k * -1)) (hheld : u < a + off + Int64.ofNat k * -1)
    (hlast : u + (1 - off) ≤ a ∨ Fits (a.toInt + (u.toInt + 1 - (a + off).toInt))) :
    u + (1 - off) ≤ a + Int64.ofNat k * -1 ∧ a + Int64.ofNat k * -1 ≤ a := by
  have hstart : -1 - a + -off = -1 - (a + off) := by grind
  have hend : -1 - u + (-1 - -off) = -1 - (u + (1 - off)) := by grind
  have hup := @lockstep_up (-1 - a) (-off) (-1 - u) k
  simp only [hstart, hend, mirror_steps, mirror_lt, mirror_le, toInt_mirror] at hup
  unfold Fits at *
  exact (hup (by omega) hheld (hlast.imp_right fun _ => by omega)).symm

lemma below_length {len diff : Int64} (hlen : 0 ≤ len) (hdiff : diff ≤ 0) :
    len + diff ≤ len ∧ (diff < 0 → len + diff < len) := by
  have rl := range len
  have rd := range diff
  have hz := Int64.toInt_zero
  simp only [Int64.le_iff_toInt_le, Int64.lt_iff_toInt_lt, Fits] at *
  rw [WrapInt.toInt_add ⟨by omega, by omega⟩]
  omega

end

section
variable {g : FlowGraph} {loop : LoopInfo} {ρ : Def → Int64} {pos : Instruction} {k : ℕ}

lemma guard_mem {inner : Instruction → Invariant → Option (Invariant × Invariant)}
    {control : Record} {bound : Bound} {range : Invariant × Invariant}
    (h : guard g loop inner pos control = some (bound, range)) :
    bound ∈ loop.bounds control.addr ∧ g.isDominatedBy pos bound.branch = true ∧
    inner bound.branch bound.limit = some range := by
  obtain ⟨b, hb, hf⟩ := List.exists_of_findSome?_eq_some h
  split_ifs at hf with hd
  obtain ⟨r, hr, he⟩ := map_eq_some_iff.mp hf
  obtain ⟨rfl, rfl⟩ := he
  exact ⟨hb, hd, hr⟩

lemma safelyAdjust_eq_some {lower upper min max : Invariant} {lo uo : Int64}
    (h : safelyAdjust g lower lo upper uo = some (min, max)) :
    ∃ lval, lower.isConstant = some lval ∧ min.eval ρ = lval + lo ∧ max.eval ρ = upper.eval ρ + uo ∧
    (upper.isConstant.isSome → lval + lo ≤ upper.eval ρ + uo) := by
  unfold safelyAdjust at h
  cases hl : lower.isConstant with
  | none => simp [hl] at h
  | some lval =>
    have hlower := Invariant.eval_of_isConstant ρ hl
    simp only [hl] at h
    split_ifs at h with hs hlo huo huo
    all_goals
      obtain ⟨rfl, rfl⟩ := h
      refine ⟨lval, rfl, ?_, ?_, ?_⟩
      · simp_all
      · simp_all
      · intro hc
        obtain ⟨u, hu⟩ := isSome_iff_exists.mp hc
        have := Invariant.eval_of_isConstant ρ hu
        simp_all

section
variable {initial next min max : Invariant}
  (h : inductionBounds g loop (invariantBounds g []) pos (.linear initial next) = some (min, max))

include h

lemma inductionBounds_eq_some :
    ∃ stride off control start step bound range, next.isConstant = some stride ∧ loop.control = some control ∧
    control.var = .linear start step ∧ next.isEqual step = true ∧ initial.canComputeDifferenceWith start = some off ∧
    guard g loop (invariantBounds g []) pos control = some (bound, range) ∧
    ((stride = 1 ∧ safelyAdjust g initial 0 bound.limit (-1 - off) = some (min, max)) ∨
    (stride = -1 ∧ safelyAdjust g bound.limit (1 - off) initial 0 = some (min, max))) := by
  simp only [inductionBounds, bind_eq_some] at h
  obtain ⟨stride, hs, control, hc, h⟩ := h
  by_cases hunit : stride = 1 ∨ stride = -1
  swap
  · simp [hunit] at h
  rw [if_pos hunit] at h
  obtain ⟨off, hoff, ⟨lmin, lmax⟩, hl, ⟨bound, umin, umax⟩, hg, h⟩ := by simpa only [bind_eq_some] using h
  obtain ⟨rfl, rfl⟩ := hl
  have hlimit := (guard_mem hg).2.2
  obtain ⟨rfl, rfl⟩ := hlimit
  cases hv : control.var with
  | linear start step =>
    rw [hv] at hoff
    simp only [canComputeDifferenceWith] at hoff
    split_ifs at hoff with heq
    refine ⟨stride, off, control, start, step, bound, _, hs, hc, hv, heq, hoff, hg, ?_⟩
    rcases hunit with rfl | rfl
    · exact .inl ⟨rfl, by rwa [if_pos (by decide)] at h⟩
    · exact .inr ⟨rfl, by rwa [if_neg (by decide)] at h⟩
  | _ => simp [hv, canComputeDifferenceWith] at hoff

lemma inductionBounds_sound (hheld : ∀ c, loop.control = some c → HeldOnEntry g loop ρ pos k c)
    (hover : NoOvershoot g loop ρ pos k (.linear initial next)) :
    min.eval ρ ≤ (linear initial next).eval ρ k ∧ (linear initial next).eval ρ k ≤ max.eval ρ := by
  obtain ⟨stride, off, control, start, step, bound, range, hs, hc, hv, heq, hoff, hg, h⟩ := inductionBounds_eq_some h
  obtain ⟨hmem, hdom, -⟩ := guard_mem hg
  have hstart := Invariant.eval_difference ρ hoff
  have hnext := Invariant.eval_of_isConstant ρ hs
  have hstep : step.eval ρ = stride := (Invariant.eval_isEqual ρ heq).symm.trans hnext
  have hlin : control.var.isLinear = some stride := by
    simp only [Invariant.isEqual, Bool.and_eq_true, decide_eq_true_eq] at heq
    simp only [hv, isLinear, Invariant.isConstant] at hs ⊢
    rwa [← heq.1.1, ← heq.1.2]
  have hheld := hheld control hc bound hmem hdom
  obtain ⟨hunw, hover⟩ := hover control bound range start step hc hv hg
  rw [hlin, hv] at hheld
  rw [hv] at hunw
  simp only [eval, Unwrapped, hnext, hstep, hstart] at hheld hunw hover ⊢
  -- the range of a constant bound is checked, that of an array length relies on `NoOvershoot`
  rcases h with ⟨rfl, h⟩ | ⟨rfl, h⟩
  · obtain ⟨lval, hl, hmin, hmax, hchk⟩ := safelyAdjust_eq_some (ρ := ρ) h
    have hinit := Invariant.eval_of_isConstant ρ hl
    have hlast : initial.eval ρ ≤ bound.limit.eval ρ + (-1 - off) ∨ Fits ((initial.eval ρ).toInt +
          ((bound.limit.eval ρ).toInt - 1 - (initial.eval ρ + off).toInt)) := by
      cases hlc : bound.limit.isConstant with
      | none => exact .inr (hover (.inl hlc))
      | some u => exact .inl (by simpa [hinit] using hchk (by simp [hlc]))
    have hup := lockstep_up hunw (hheld.1 rfl) hlast
    rw [hmin, hmax]
    exact ⟨by simpa [hinit] using hup.1, hup.2⟩
  · obtain ⟨lval, hl, hmin, hmax, hchk⟩ := safelyAdjust_eq_some (ρ := ρ) h
    have hlim := Invariant.eval_of_isConstant ρ hl
    have hneg : (-1 : Int64).toInt = -1 := rfl
    have hlast : bound.limit.eval ρ + (1 - off) ≤ initial.eval ρ ∨ Fits ((initial.eval ρ).toInt +
          ((bound.limit.eval ρ).toInt + 1 - (initial.eval ρ + off).toInt)) := by
      cases hic : initial.isConstant with
      | none => exact .inr (by simpa using hover (.inr hic))
      | some u => exact .inl (by simpa [hlim] using hchk (by simp [hic]))
    have hdown := lockstep_down hunw (hheld.2 rfl) hlast
    rw [hmin, hmax]
    exact ⟨by simpa [hlim] using hdown.1, by simpa using hdown.2⟩

end

lemma canComputeBounds_sound {x : InductionVar} {min max : Invariant}
    (h : canComputeBounds g loop [] pos x = some (min, max))
    (hheld : ∀ c, loop.control = some c → HeldOnEntry g loop ρ pos k c) (hover : NoOvershoot g loop ρ pos k x) :
    min.eval ρ ≤ x.eval ρ k ∧ x.eval ρ k ≤ max.eval ρ := by
  cases x with
  | invariant x =>
    obtain ⟨rfl, rfl⟩ := h
    exact ⟨Int64.le_refl _, Int64.le_refl _⟩
  | linear initial next => exact inductionBounds_sound h hheld hover
  | periodic _ _ | wrapAround _ _ => simp [canComputeBounds, inductionBounds] at h

/-- A comparison that held in every earlier iteration keeps an induction of unit stride from wrapping around. -/
lemma unwrapped_of_held {r : Record} {bound : Bound} (hmem : bound ∈ loop.bounds r.addr)
    (hdom : g.isDominatedBy pos bound.branch = true)
    (hunit : r.var.isLinear = some 1 ∨ r.var.isLinear = some (-1))
    (hheld : ∀ j < k, HeldOnEntry g loop ρ pos j r) : Unwrapped ρ k r.var := by
  cases hv : r.var with
  | linear initial next =>
    rw [hv] at hunit
    induction k with
    | zero => simpa [Unwrapped] using range (initial.eval ρ)
    | succ k ih =>
      have hfit : Fits ((initial.eval ρ).toInt + k * (next.eval ρ).toInt) := ih fun j hj => hheld j (by omega)
      obtain ⟨t, ht⟩ := toInt_steps (initial.eval ρ) (next.eval ρ) k
      have he := eq_of_fits (range _) hfit ht
      have hlim := range (bound.limit.eval ρ)
      obtain ⟨hup, hdown⟩ := hheld k (by omega) bound hmem hdom
      rw [hv] at hup hdown
      simp only [eval, lt_iff_toInt_lt, he] at hup hdown
      unfold Unwrapped
      rcases hunit with hu | hu <;> have hn := congrArg Int64.toInt (Invariant.eval_of_isConstant ρ hu)
      · have hup := hup hu
        simp only [hn, toInt_one, Fits] at *
        push_cast
        omega
      · have hdown := hdown hu
        have hneg : (-1 : Int64).toInt = -1 := rfl
        simp only [hn, hneg, Fits] at *
        push_cast
        omega
  | _ => trivial

section
variable {induc : Record} {len : InductionVar} (h : directlyBounded g loop pos induc len = true)
include h

lemma directlyBounded_spec : ∃ initial next val bound diff, induc.var = .linear initial next ∧
    next.isConstant = some 1 ∧ initial.isConstant = some val ∧ 0 ≤ val ∧ bound ∈ loop.bounds induc.addr ∧
    g.isDominatedBy pos bound.branch = true ∧ len.canComputeDifferenceWith (.invariant bound.limit) = some diff ∧
    diff ≤ 0 := by
  unfold directlyBounded at h
  cases hv : induc.var with
  | linear initial next =>
    simp only [hv, Bool.and_eq_true, decide_eq_true_eq, List.any_eq_true] at h
    obtain ⟨⟨hnext, hinit⟩, bound, hmem, hdom, hdiff⟩ := h
    cases hc : initial.isConstant with
    | none => simp [hc] at hinit
    | some val =>
      cases hd : len.canComputeDifferenceWith (.invariant bound.limit) with
      | none => simp [hd] at hdiff
      | some diff =>
        simp only [hc, decide_eq_true_eq] at hinit
        simp only [hd, decide_eq_true_eq] at hdiff
        exact ⟨initial, next, val, bound, diff, rfl, hnext, hc, hinit, hmem, hdom, hd, hdiff⟩
  | _ => simp [hv] at h

lemma directlyBounded_sound (hheld : HeldOnEntry g loop ρ pos k induc) (hunw : Unwrapped ρ k induc.var)
    (hlen : 0 ≤ len.eval ρ k) : 0 ≤ induc.var.eval ρ k ∧ induc.var.eval ρ k < len.eval ρ k := by
  obtain ⟨initial, next, val, bound, diff, hv, hnext, hc, hinit, hmem, hdom, hd, hdiff⟩ := directlyBounded_spec h
  have hheld := (hheld bound hmem hdom).1 (by simp [hv, isLinear, hnext])
  have hn := Invariant.eval_of_isConstant ρ hnext
  have hval := Invariant.eval_of_isConstant ρ hc
  have hlimit := eval_difference ρ k hd
  simp only [eval] at hlimit
  have hbelow := (below_length hlen hdiff).1
  rw [hv] at hheld hunw ⊢
  simp only [eval, Unwrapped, hn, hval] at hheld hunw ⊢
  rw [hlimit] at hheld
  refine ⟨?_, Int64.lt_of_lt_of_le hheld hbelow⟩
  obtain ⟨t, ht⟩ := toInt_steps val 1 k
  have he := eq_of_fits (WrapInt.range _) hunw ht
  have hone := toInt_one
  rw [hone] at he
  rw [le_iff_toInt_le] at hinit ⊢
  omega

lemma directlyBounded_unwrapped (hk : k ≤ 2 ^ 63) (hidx : 0 ≤ induc.var.eval ρ k) : Unwrapped ρ k induc.var := by
  obtain ⟨initial, next, val, bound, diff, hv, hnext, hc, hinit, -⟩ := directlyBounded_spec h
  obtain ⟨t, ht⟩ := toInt_steps val 1 k
  have hr := WrapInt.range (val + Int64.ofNat k * 1)
  have hrv := WrapInt.range val
  have hone := toInt_one
  rw [hv] at hidx ⊢
  simp only [eval, Unwrapped, Invariant.eval_of_isConstant ρ hnext, Invariant.eval_of_isConstant ρ hc] at hidx ⊢
  simp only [le_iff_toInt_le, Fits, hone, Int64.toInt_zero] at *
  omega

end

theorem isInRange_sound {induc len : Record} {index length : Def}
    (hindex : loop.lookupInduction (g.original index) = some induc)
    (hlength : loop.lookupInduction (g.original length) = some len)
    (hheld : ∀ r, r = induc ∨ loop.control = some r → HeldOnEntry g loop ρ pos k r)
    (h : isInRange g loop [] pos index length = true) :
    (WithoutWrapAround g loop ρ pos k induc len.var →
      0 ≤ induc.var.eval ρ k ∧ induc.var.eval ρ k < len.var.eval ρ k) ∧
    (directlyBounded g loop pos induc len.var = true → k ≤ 2 ^ 63 →
      0 ≤ induc.var.eval ρ k ∧ induc.var.eval ρ k < len.var.eval ρ k →
      WithoutWrapAround g loop ρ pos k induc len.var) := by
  refine ⟨fun hwrap => ?_, fun hdir hk ⟨hlo, hhi⟩ => ⟨Int64.le_trans hlo (Int64.le_of_lt hhi), fun _ =>
    directlyBounded_unwrapped hdir hk hlo, fun hno => by simp [hdir] at hno⟩⟩
  simp only [isInRange, hindex, hlength, Bool.or_eq_true] at h
  by_cases hdir : directlyBounded g loop pos induc len.var = true
  · exact directlyBounded_sound hdir (hheld _ (.inl rfl)) (hwrap.direct hdir) hwrap.length_nonneg
  · have h := h.resolve_left hdir
    cases hb : canComputeBounds g loop [] pos induc.var with
    | none => simp [hb] at h
    | some range =>
      obtain ⟨min, max⟩ := range
      simp only [hb, Bool.and_eq_true] at h
      obtain ⟨hmin, hmax⟩ := h
      obtain ⟨hlo, hhi⟩ := canComputeBounds_sound hb (fun c hc => hheld c (.inr hc))
        (hwrap.lockstep (by simpa using hdir))
      cases hc : min.isConstant with
      | none => simp [hc] at hmin
      | some val =>
        cases hd : len.var.canComputeDifferenceWith (.invariant max) with
        | none => simp [hd] at hmax
        | some diff =>
          simp only [hc, decide_eq_true_eq] at hmin
          simp only [hd, decide_eq_true_eq] at hmax
          have hval := Invariant.eval_of_isConstant ρ hc
          have hdiff := eval_difference ρ k hd
          simp only [eval] at hdiff
          have hbelow := (below_length hwrap.length_nonneg (Int64.le_of_lt hmax)).2 hmax
          rw [hval] at hlo
          rw [hdiff] at hhi
          exact ⟨Int64.le_trans hmin hlo, Int64.lt_of_le_of_lt hhi hbelow⟩

end

section

def arrayGraph : FlowGraph where
  node d := if d = 0 then .loadField true else .other
  representation _ := .tagged
  block _ := 0
  isDominatedBy _ _ := true
  ordered d h v hv := by
    by_cases hd : d = 0 <;> simp [hd, Node.inputs] at hv

def upLoop (limit : Invariant) (c : Int64) : LoopInfo where
  header := 0
  contains _ := true
  predecessors := []
  induction d :=
    if d = 0 then some ⟨0, .invariant (.symbol 0)⟩
    else if d = 1 then some ⟨1, .linear (.constant 0) (.constant 1)⟩
    else some ⟨2, .linear (.constant c) (.constant 1)⟩
  bounds d := if d = 1 then [⟨10, limit⟩] else []
  control := some ⟨1, .linear (.constant 0) (.constant 1)⟩

theorem isInRange_sound_three : isInRange arrayGraph (upLoop ((Invariant.symbol 0).shift (-1)) 1) [] 20 2 0 = true ∧
    (0 : Int64) ≤ (linear (.constant 1) (.constant 1)).eval (fun _ => 3) 1 ∧
    (linear (.constant 1) (.constant 1)).eval (fun _ => 3) 1 < (invariant (.symbol 0)).eval (fun _ => 3) 1 := by
  refine ⟨by decide, @isInRange_sound arrayGraph (upLoop ((Invariant.symbol 0).shift (-1)) 1)
    (fun _ => 3) 20 1 ⟨2, .linear (.constant 1) (.constant 1)⟩ ⟨0, .invariant (.symbol 0)⟩ 2 0
    rfl rfl ?_ (by decide) |>.1 ⟨by decide, fun hdir => absurd hdir (by decide), fun _ => ?_⟩⟩
  · rintro r (rfl | hr)
    · simp [HeldOnEntry, upLoop]
    · obtain rfl := some.inj hr
      intro bound hb _
      simp only [upLoop, ↓reduceIte, List.mem_singleton] at hb
      subst hb
      decide
  · intro control bound range start step hc hv hg
    obtain rfl := some.inj hc
    obtain ⟨rfl, rfl⟩ := linear.inj hv
    obtain ⟨hb, -, -⟩ := guard_mem hg
    simp only [upLoop, ↓reduceIte, List.mem_singleton] at hb
    subst hb
    exact ⟨by simp [Unwrapped, Fits], fun _ => by decide⟩

theorem isInRange_overshoot :
    isInRange arrayGraph (upLoop ((Invariant.symbol 0).shift Int64.maxValue) 2) [] 20 2 0 = true ∧
      ArrayLengths arrayGraph (fun _ => 0) ∧
      (∀ r, r = ⟨2, .linear (.constant 2) (.constant 1)⟩ ∨
        (upLoop ((Invariant.symbol 0).shift Int64.maxValue) 2).control = some r →
        HeldOnEntry arrayGraph (upLoop ((Invariant.symbol 0).shift Int64.maxValue) 2) (fun _ => 0) 20 0 r) ∧
      ¬ ((linear (.constant 2) (.constant 1)).eval (fun _ => 0) 0 <
        (invariant (.symbol 0)).eval (fun _ => 0) 0) := by
  refine ⟨by decide, fun _ _ => by change (0 : ℤ) ≤ 0 ∧ (0 : ℤ) < 2 ^ 62; norm_num, ?_, by decide⟩
  rintro r (rfl | hr)
  · simp [HeldOnEntry, upLoop]
  · obtain rfl := some.inj hr
    intro bound hb _
    simp only [upLoop, ↓reduceIte, List.mem_singleton] at hb
    subst hb
    decide

end
end DartSdk.Loops
