import DartSdk.Loops.Classify

namespace DartSdk.Loops
open Option LoopInfo InductionVar Node

section
variable {g : FlowGraph} {loop : LoopInfo} {look look' : Def → Option Record} {r : Record} {d : ℕ}

lemma transferDef_congr
    (h : ∀ v : ℕ, v < d → look v = look' v) : transferDef g look d = transferDef g look' d := by
  have hin : (g.node d).isPhi = false → ∀ v ∈ (g.node d).inputs, look v = look' v :=
    fun hp v hv => h v (g.ordered d hp v hv)
  have horig : (if g.original d = d then none else look (g.original d)) =
      if g.original d = d then none else look' (g.original d) := by
    split_ifs with ho
    · rfl
    · exact h _ (g.original_lt ho)
  unfold transferDef
  cases hn : g.node d with
  | binaryIntegerOp op l r =>
    simp only [hn, isPhi, inputs, forall_const] at hin
    simp only [hin l (by simp), hin r (by simp)]
  | unaryIntegerOp op v =>
    simp only [hn, isPhi, inputs, forall_const] at hin
    cases op with
    | negate => simp only [hin v (by simp)]
    | other => rfl
  | _ => exact horig

lemma lookupFrom_eq {n m : ℕ} (hn : d < n) (hm : d < m) : loop.lookupFrom g n d = loop.lookupFrom g m d := by
  induction n generalizing m d with
  | zero => omega
  | succ n ih =>
    obtain ⟨m, rfl⟩ : ∃ k, m = k + 1 := ⟨m - 1, by omega⟩
    have htr : transferDef g (loop.lookupFrom g n) d = transferDef g (loop.lookupFrom g m) d :=
      transferDef_congr fun v hv => ih (by omega) (by omega)
    simp only [lookupFrom, htr]

lemma lookup_eq (d : ℕ) : loop.lookup g d = match loop.lookupInduction d, g.node d with
      | some r, _ => some r
      | none, .constant c => some ⟨d, .invariant (.constant c)⟩
      | none, _ =>
        if loop.contains (g.block d) then none
        else some ((transferDef g (loop.lookup g) d).getD ⟨d, .invariant (.symbol d)⟩) := by
  have htr : transferDef g (loop.lookupFrom g d) d = transferDef g (loop.lookup g) d :=
    transferDef_congr fun v hv => lookupFrom_eq (by omega) (by omega)
  rewrite [lookup, lookupFrom, htr]
  cases loop.lookupInduction d <;> cases g.node d <;> rfl

lemma lookup_cases (h : loop.lookup g d = some r) : loop.lookupInduction d = some r ∨
    loop.lookupInduction d = none ∧ ((∃ c, g.node d = .constant c ∧ r = ⟨d, .invariant (.constant c)⟩) ∨
    loop.contains (g.block d) = false ∧
    (transferDef g (loop.lookup g) d = some r ∨ r = ⟨d, .invariant (.symbol d)⟩)) := by
  rw [lookup_eq] at h
  cases hl : loop.lookupInduction d with
  | some r' => exact .inl (by simpa [hl] using h)
  | none =>
    refine .inr ⟨rfl, ?_⟩
    by_cases hc : ∃ c, g.node d = .constant c
    · obtain ⟨c, hc⟩ := hc
      simp only [hl, hc, Option.some.injEq] at h
      exact .inl ⟨c, hc, h.symm⟩
    · have h : (if loop.contains (g.block d) then none
          else some ((transferDef g (loop.lookup g) d).getD ⟨d, .invariant (.symbol d)⟩)) =
          some r := by
        cases hn : g.node d <;> simp_all
      split_ifs at h with hb
      refine .inr ⟨by simpa using hb, ?_⟩
      cases ht : transferDef g (loop.lookup g) d with
      | some t => exact .inl (by simpa [ht] using h)
      | none => exact .inr (by simpa [ht] using h.symm)

lemma transferDef_cases (h : transferDef g look d = some r) :
    (∃ op l rt x y v, g.node d = .binaryIntegerOp op l rt ∧ look l = some x ∧ look rt = some y ∧
    transferBinary op x.var y.var = some v ∧ r = ⟨d, v⟩) ∨
    (∃ u x v, g.node d = .unaryIntegerOp .negate u ∧ look u = some x ∧
    sub (.invariant (.constant 0)) x.var = some v ∧ r = ⟨d, v⟩) ∨
    (g.original d ≠ d ∧ look (g.original d) = some r) := by
  unfold transferDef at h
  cases hn : g.node d with
  | binaryIntegerOp op l rt =>
    simp only [hn, bind_eq_some, map_eq_some_iff] at h
    obtain ⟨x, hx, y, hy, v, hv, rfl⟩ := h
    exact .inl ⟨op, l, rt, x, y, v, rfl, hx, hy, hv, rfl⟩
  | unaryIntegerOp op u =>
    cases op with
    | negate =>
      simp only [hn, bind_eq_some, map_eq_some_iff] at h
      obtain ⟨x, hx, v, hv, rfl⟩ := h
      exact .inr (.inl ⟨u, x, v, rfl, hx, hv, rfl⟩)
    | other => simp [hn] at h
  | _ =>
    simp only [hn] at h
    split_ifs at h with ho
    exact .inr (.inr ⟨ho, h⟩)

lemma isHeaderPhi_spec (h : loop.isHeaderPhi g d = true) : (g.node d).isPhi = true ∧ g.block d = loop.header := by
  unfold isHeaderPhi at h
  split at h
  · simp at h
  · rename_i hn
    simp only [Bool.and_eq_true, decide_eq_true_eq] at h
    exact ⟨by simp [hn, isPhi], h.1⟩
  · simp at h

variable (g loop) in
lemma classify_cases (d : Def) : loop.classify g d = loop ∨ ∃ r, loop.classify g d = loop.addInduction d r ∧
    ((loop.isHeaderPhi g d = true ∧ ∃ induc start init,
    joinInputs (loop.lookup g) ((phiInputs g d).eraseIdx loop.initIndex) = some induc ∧
    loop.initInput g d = some start ∧ loop.lookup g start = some init ∧
    (init.var.isEqual induc.var = true ∧ r = induc ∨ ∃ i, r = ⟨d, .wrapAround i induc.var⟩)) ∨
    ((g.node d).isPhi = true ∧ joinInputs (loop.lookup g) (phiInputs g d) = some r) ∨
    transferDef g (loop.lookup g) d = some r) := by
  unfold classify
  dsimp only
  split
  · rename_i r hr
    refine .inr ⟨r, rfl, ?_⟩
    split_ifs at hr with hh hp
    · simp only [bind_eq_some] at hr
      obtain ⟨induc, hj, start, hstart, init, hinit, hr⟩ := hr
      refine .inl ⟨hh, induc, start, init, hj, hstart, hinit, ?_⟩
      split_ifs at hr with heq
      · exact .inl ⟨heq, (Option.some.inj hr).symm⟩
      · cases hi : init.var <;> simp only [hi, Option.some.injEq, reduceCtorEq] at hr
        exact .inr ⟨_, hr.symm⟩
    · exact .inr (.inl ⟨hp, hr⟩)
    · exact .inr (.inr hr)
  · exact .inl rfl

variable (g loop) in
lemma classifySCC_cases (scc : List Def) : loop.classifySCC g scc = loop ∨ ∃ phi rest induc,
    loop.rotate g scc = some (phi, rest) ∧ loop.solveSCC g phi rest = some induc ∧ loop.classifySCC g scc =
      rest.foldl (fun loop d => loop.classify g d) (loop.addInduction phi ⟨phi, induc⟩) := by
  unfold classifySCC
  split
  · exact .inl rfl
  · rename_i phi rest hr
    split
    · exact .inl rfl
    · rename_i induc hs
      exact .inr ⟨phi, rest, induc, hr, hs, rfl⟩

end

/-- `keep` is what remains of the result of an operation or of a converted value. -/
def Node.Computes (keep : Int64 → Int64) (val : Def → Int64) : Node → Int64 → Prop
  | .constant c, x => x = c
  | .binaryIntegerOp .add l r, x => x = keep (val l + val r)
  | .binaryIntegerOp .sub l r, x => x = keep (val l - val r)
  | .binaryIntegerOp .mul l r, x => x = keep (val l * val r)
  | .unaryIntegerOp .negate v, x => x = keep (-val v)
  | .constraint v _, x => x = val v
  | .passThrough v, x => x = keep (val v)
  | .checkBound v _, x => x = val v
  | _, _ => True

structure Execution (g : FlowGraph) (loop : LoopInfo) where
  val : Def → ℕ → Int64
  computes : ∀ d k, (g.node d).Computes (g.representation d).truncate (val · k) (val d k)
  invariant : ∀ d, loop.contains (g.block d) = false → ∀ k, val d k = val d 0
  enter : ∀ phi, (g.node phi).isPhi = true → g.block phi = loop.header →
    ∃ start, loop.initInput g phi = some start ∧ val phi 0 = val start 0
  back : ∀ phi k, (g.node phi).isPhi = true → g.block phi = loop.header →
    ∃ v ∈ (phiInputs g phi).eraseIdx loop.initIndex, val phi (k + 1) = val v k

namespace Execution
variable {g : FlowGraph} {loop : LoopInfo} (e : Execution g loop)

def entry (d : Def) : Int64 := e.val d 0

/-- No definition that `d` is computed from loses bits of its 64-bit result. -/
def Lossless (d : Def) : Prop :=
  ∀ v, Relation.ReflTransGen (fun d v => v ∈ (g.node d).inputs) d v →
    ∀ k, (g.node v).Computes id (e.val · k) (e.val v k)

def RecordsSound : Prop :=
  ∀ d r x, e.Lossless d → loop.induction d = some r → r.var = .invariant x → ∀ k, e.val d k = x.eval e.entry

variable {e} {d v : ℕ} {r : Record} {x : Invariant}

lemma Lossless.computes (h : e.Lossless d) (k : ℕ) : (g.node d).Computes id (e.val · k) (e.val d k) := h d .refl k

lemma Lossless.input (h : e.Lossless d) (hv : v ∈ (g.node d).inputs) : e.Lossless v :=
  fun w hw => h w (.head hv hw)

lemma Lossless.redefined (h : e.Lossless d) (hr : (g.node d).redefined = some v) : e.Lossless v := by
  refine h.input ?_
  cases hn : g.node d <;> simp_all [Node.redefined, inputs]

lemma Lossless.val_redefined (h : e.Lossless d) (hr : (g.node d).redefined = some v) (k : ℕ) : e.val d k = e.val v k := by
  have hc := h.computes k
  cases hn : g.node d <;> simp_all [Node.redefined, Node.Computes]

lemma Lossless.original (h : e.Lossless d) (k : ℕ) :
    e.Lossless (g.original d) ∧ e.val d k = e.val (g.original d) k := by
  induction d using Nat.strong_induction_on with
  | _ d ih =>
    cases hr : (g.node d).redefined with
    | none =>
      rw [g.original_of_none hr]
      exact ⟨h, rfl⟩
    | some v =>
      rw [g.original_of_some hr, h.val_redefined hr]
      exact ih v (g.redefined_lt hr) (h.redefined hr)

lemma Lossless.transferBinary_sound {op : BinaryOpKind} {l r : Def} {x y : InductionVar} {z : Invariant}
    (h : e.Lossless d) (hn : g.node d = .binaryIntegerOp op l r) (ht : transferBinary op x y = some (.invariant z))
    (hx : ∀ a, x = .invariant a → ∀ k, e.val l k = a.eval e.entry)
    (hy : ∀ b, y = .invariant b → ∀ k, e.val r k = b.eval e.entry) (k : ℕ) : e.val d k = z.eval e.entry := by
  have hc := h.computes k
  rw [hn] at hc
  cases op with
  | add =>
    obtain ⟨a, b, ha, hb, hz⟩ := add_eq_invariant ht
    rw [Invariant.eval_add _ hz, ← hx a ha k, ← hy b hb k]
    exact hc
  | sub =>
    obtain ⟨a, b, ha, hb, hz⟩ := sub_eq_invariant ht
    rw [Invariant.eval_sub _ hz, ← hx a ha k, ← hy b hb k]
    exact hc
  | mul =>
    obtain ⟨a, b, ha, hb, hz⟩ := mul_eq_invariant e.entry ht
    rw [hz, ← hx a ha k, ← hy b hb k]
    exact hc
  | other => simp [transferBinary] at ht

lemma Lossless.transferDef_sound {look : Def → Option Record} (h : e.Lossless d)
    (hl : ∀ v : ℕ, v < d → e.Lossless v →
      ∀ r x, look v = some r → r.var = .invariant x → ∀ k, e.val v k = x.eval e.entry)
    (ht : transferDef g look d = some r) (hx : r.var = .invariant x) (k : ℕ) : e.val d k = x.eval e.entry := by
  rcases transferDef_cases ht with ⟨op, l, rt, a, b, v, hn, ha, hb, hv, rfl⟩ | ⟨u, a, v, hn, ha, hv, rfl⟩ | ⟨ho, hor⟩
  · have hin (w : Def) (hw : w ∈ [l, rt]) : w < d ∧ e.Lossless w :=
      ⟨g.ordered d (by simp [hn, isPhi]) w (by simpa [hn, inputs] using hw), h.input (by simpa [hn, inputs] using hw)⟩
    obtain ⟨hlt, hll⟩ := hin l (by simp)
    obtain ⟨hrt, hlr⟩ := hin rt (by simp)
    subst hx
    exact h.transferBinary_sound hn hv (fun c hc k => hl l hlt hll a c ha hc k)
      (fun c hc k => hl rt hrt hlr b c hb hc k) k
  · have hlt := g.ordered d (by simp [hn, isPhi]) u (by simp [hn, inputs])
    have hlu := h.input (v := u) (by simp [hn, inputs])
    subst hx
    obtain ⟨z, b, hz, hb, hsub⟩ := sub_eq_invariant hv
    obtain rfl := invariant.inj hz
    have hc : e.val d k = -e.val u k := by simpa [hn, Node.Computes] using h.computes k
    rw [Invariant.eval_sub _ hsub, ← hl u hlt hlu a b ha hb k]
    rw [hc, Invariant.eval_constant, Int64.zero_sub]
  · obtain ⟨hlo, hval⟩ := h.original k
    rw [hval]
    exact hl _ (g.original_lt ho) hlo r x hor hx k

variable (hs : e.RecordsSound)
include hs

lemma lookup_sound (hd : e.Lossless d) (h : loop.lookup g d = some r) (hx : r.var = .invariant x) (k : ℕ) :
    e.val d k = x.eval e.entry := by
  induction d using Nat.strong_induction_on generalizing r x k with
  | _ d ih =>
    rcases lookup_cases h with hl | ⟨hl, ⟨c, hc, rfl⟩ | ⟨hb, ht | rfl⟩⟩
    · exact hs d r x hd hl hx k
    · obtain rfl := invariant.inj hx
      have := e.computes d k
      rw [hc] at this
      simpa [Node.Computes] using this
    · exact hd.transferDef_sound (fun v hv hd r x hr hx k => ih v hv hd hr hx k) ht hx k
    · obtain rfl := invariant.inj hx
      rw [e.invariant d hb k, Invariant.eval_symbol]
      rfl

lemma joinInputs_sound {vs : List Def} (hl : ∀ v ∈ vs, e.Lossless v)
    (h : joinInputs (loop.lookup g) vs = some r) (hx : r.var = .invariant x) {v : Def}
    (hv : v ∈ vs) (k : ℕ) : e.val v k = x.eval e.entry := by
  cases vs with
  | nil => simp at hv
  | cons w ws =>
    simp only [joinInputs, bind_eq_some] at h
    obtain ⟨r', hr', h⟩ := h
    split_ifs at h with hall
    obtain rfl := Option.some.inj h
    have hlv := hl v hv
    rcases List.mem_cons.1 hv with rfl | hv
    · exact lookup_sound hs hlv hr' hx k
    · have hany := List.all_eq_true.1 hall v hv
      cases hr : loop.lookup g v with
      | none => simp [hr] at hany
      | some rv =>
        cases hrv : rv.var <;> simp only [hr, hx, hrv, any_some, isEqual, Bool.false_eq_true] at hany
        rw [lookup_sound hs hlv hr hrv k, Invariant.eval_isEqual _ hany]

omit hs

variable (e) in
def addInduction (d : Def) (r : Record) : Execution g (loop.addInduction d r) where
  val := e.val
  computes := e.computes
  invariant := e.invariant
  enter := e.enter
  back := e.back

lemma recordsSound_addInduction (hs : e.RecordsSound)
    (h : e.Lossless d → ∀ x, r.var = .invariant x → ∀ k, e.val d k = x.eval e.entry) :
    (e.addInduction d r).RecordsSound := by
  intro v r' x hl hr' hx k
  by_cases hv : v = d
  · subst hv
    obtain rfl : r = r' := by simpa [LoopInfo.addInduction] using hr'
    exact h hl x hx k
  · refine hs v r' x hl ?_ hx k
    simpa [LoopInfo.addInduction, Function.update_of_ne hv] using hr'

variable (e) in
def Joins (d : Def) : Prop :=
  (g.node d).isPhi = true → g.block d ≠ loop.header → ∀ k, ∃ v ∈ phiInputs g d, e.val d k = e.val v k

lemma Lossless.phiInput (h : e.Lossless d) (hv : v ∈ phiInputs g d) : e.Lossless v := by
  refine h.input ?_
  cases hn : g.node d <;> simp_all [phiInputs, inputs]

include hs

lemma headerPhi_sound {start : Def} {init induc : Record} (hl : e.Lossless d) (hd : loop.isHeaderPhi g d = true)
    (hj : joinInputs (loop.lookup g) ((phiInputs g d).eraseIdx loop.initIndex) = some induc)
    (hstart : loop.initInput g d = some start) (hinit : loop.lookup g start = some init)
    (heq : init.var.isEqual induc.var = true) (hx : induc.var = .invariant x) (k : ℕ) : e.val d k = x.eval e.entry := by
  obtain ⟨hp, hb⟩ := isHeaderPhi_spec hd
  cases k with
  | zero =>
    obtain ⟨start', hstart', hval⟩ := e.enter d hp hb
    obtain rfl := Option.some.inj (hstart.symm.trans hstart')
    cases hi : init.var <;> simp only [hi, hx, isEqual, Bool.false_eq_true] at heq
    rw [hval, lookup_sound hs (hl.phiInput (List.mem_of_getElem? hstart)) hinit hi, Invariant.eval_isEqual _ heq]
  | succ k =>
    obtain ⟨v, hv, hval⟩ := e.back d k hp hb
    rw [hval, joinInputs_sound hs (fun v hv => hl.phiInput (List.mem_of_mem_eraseIdx hv)) hj hx hv]

lemma mergePhi_sound (hl : e.Lossless d) (hd : e.Joins d) (hp : (g.node d).isPhi = true)
    (hj : joinInputs (loop.lookup g) (phiInputs g d) = some r)
    (hx : r.var = .invariant x) (k : ℕ) : e.val d k = x.eval e.entry := by
  by_cases hb : g.block d = loop.header
  · cases k with
    | zero =>
      obtain ⟨start, hstart, hval⟩ := e.enter d hp hb
      rw [hval, joinInputs_sound hs (fun _ => hl.phiInput) hj hx (List.mem_of_getElem? hstart)]
    | succ k =>
      obtain ⟨v, hv, hval⟩ := e.back d k hp hb
      rw [hval, joinInputs_sound hs (fun _ => hl.phiInput) hj hx (List.mem_of_mem_eraseIdx hv)]
  · obtain ⟨v, hv, hval⟩ := hd hp hb k
    rw [hval, joinInputs_sound hs (fun _ => hl.phiInput) hj hx hv]

omit hs

variable (e) in
/-- `loop'` is a later state of the loop, and its records are sound in the execution. -/
def Keeps (loop' : LoopInfo) : Prop :=
  loop'.header = loop.header ∧ ∃ e' : Execution g loop', e'.val = e.val ∧ e'.RecordsSound

variable {loop' : LoopInfo}

lemma Keeps.addInduction (h : e.Keeps loop')
    (hr : ∀ e' : Execution g loop', e'.val = e.val → e'.RecordsSound → e'.Lossless d →
      ∀ x, r.var = .invariant x → ∀ k, e'.val d k = x.eval e'.entry) : e.Keeps (loop'.addInduction d r) :=
  let ⟨hh, e', hv, hs⟩ := h
  ⟨hh, e'.addInduction d r, hv, recordsSound_addInduction hs (hr e' hv hs)⟩

variable (hd : ∀ d, e.Joins d)
include hd

lemma Keeps.classify (h : e.Keeps loop') (d : Def) : e.Keeps (loop'.classify g d) := by
  rcases classify_cases g loop' d with hc | ⟨r, hc, hr⟩ <;> rw [hc]
  · exact h
  · refine h.addInduction fun e' hv hs hl x hx k => ?_
    rcases hr with ⟨hh, induc, start, init, hj, hstart, hinit, ⟨heq, rfl⟩ | ⟨i, rfl⟩⟩ | ⟨hp, hj⟩ | ht
    · exact headerPhi_sound hs hl hh hj hstart hinit heq hx k
    · cases hx
    · exact mergePhi_sound hs hl (fun hp hb k => by rw [hv]; exact hd d hp (h.1 ▸ hb) k) hp hj hx k
    · exact hl.transferDef_sound (fun v _ hl r x hr hx k => lookup_sound hs hl hr hx k) ht hx k

lemma Keeps.classifySCC (h : e.Keeps loop') (scc : List Def) : e.Keeps (loop'.classifySCC g scc) := by
  rcases classifySCC_cases g loop' scc with hc | ⟨phi, rest, induc, -, hsolve, hc⟩ <;> rw [hc]
  · exact h
  · have hind : ∀ x, induc ≠ .invariant x := by
      rintro x rfl
      simp only [solveSCC, bind_eq_some] at hsolve
      obtain ⟨start, -, init, -, cycle, -, r, -, h⟩ := hsolve
      split at h <;> simp at h
    exact rest.foldlRecOn _ (h.addInduction fun _ _ _ _ x hx => absurd hx (hind x)) fun _ h d _ => h.classify hd d

end Execution

end DartSdk.Loops
