import DartSdk.Loops.Execution

namespace DartSdk.Loops
open List Function Option Prod InductionVar Node Int64

inductive Link
  | pass
  | add (y : Def)
  | sub (y : Def)
  | subFrom (y : Def)

namespace Link

def operand : Link → Option Def
  | pass => none
  | add y => some y
  | sub y => some y
  | subFrom y => some y

def Between (g : FlowGraph) (prev d : Def) : Link → Prop
  | pass => (g.node d).redefined = some prev
  | add y => g.node d = .binaryIntegerOp .add prev y ∨ g.node d = .binaryIntegerOp .add y prev
  | sub y => g.node d = .binaryIntegerOp .sub prev y
  | subFrom y => g.node d = .binaryIntegerOp .sub y prev

end Link

open Link

def chain (phi : Def) (links : List (Def × Link)) : List Def := phi :: links.map fst

variable {d : Def} {link : Link} {links : List (Def × Link)}

lemma take_links {j : ℕ} (h : links[j]? = some (d, link)) :
    (links.take (j + 1)).map snd = (links.take j).map snd ++ [link] := by
  simp [take_add_one, h]

/-- One header phi with one initial and one back-edge input, and a chain of links from the phi to
the back-edge input. The component lists its members in any order; none of them is classified. -/
structure SimpleCycle (g : FlowGraph) (loop : LoopInfo) (scc : List Def) (phi start : Def)
    (links : List (Def × Link)) (back : Def) : Prop where
  header : loop.isHeaderPhi g phi = true
  inputs : (g.node phi = .phi [start, back] ∧ loop.initIndex = 0) ∨
    (g.node phi = .phi [back, start] ∧ loop.initIndex = 1)
  linked : ∀ (i : ℕ) prev d link, (chain phi links)[i]? = some prev →
    links[i]? = some (d, link) → link.Between g prev d
  last : (chain phi links)[links.length]? = some back
  members : scc.Perm (chain phi links)
  nodup : (chain phi links).Nodup
  operands : ∀ d link y, (d, link) ∈ links → link.operand = some y → y ∉ scc
  inside : ∀ d ∈ scc, loop.contains (g.block d) = true
  unrecorded : ∀ d ∈ scc, loop.induction d = none
  owned : ∀ d r, loop.induction d = some r → loop.lookup g r.addr = some r

section
variable (g : FlowGraph) (loop : LoopInfo) (init : Record)

def sharesRecord (y : Def) : Bool := (loop.lookup g y).any (·.addr = init.addr)

def leading : List Link → ℕ
  | [] => 0
  | .pass :: links => leading links
  | .add y :: links => if sharesRecord g loop init y then leading links + 1 else 0
  | _ => 0

def Link.isLeading : Link → Bool
  | .pass => true
  | .add y => sharesRecord g loop init y
  | _ => false

/-- How often the initial value is missing from the stride: every leading addition is dropped by
the operation after it, and a chain of nothing else keeps one of them. -/
def unaccounted (links : List Link) : Int64 :=
  ofNat (leading g loop init links) -
    if links.all (isLeading g loop init) then 1 else 0

variable {g loop init}
variable {links : List Link}

lemma leading_concat_of_all (h : links.all (isLeading g loop init) = true) :
    leading g loop init (links ++ [link]) = leading g loop init links + leading g loop init [link] := by
  induction links with
  | nil => simp [leading]
  | cons l links ih =>
    simp only [all_cons, Bool.and_eq_true] at h
    cases l with
    | pass => simpa [leading] using ih h.2
    | add y =>
      have hy : sharesRecord g loop init y = true := h.1
      simp only [cons_append, leading, hy, if_true, ih h.2]
      omega
    | sub y | subFrom y => simp [isLeading] at h

lemma leading_concat_of_not_all (h : links.all (isLeading g loop init) = false) :
    leading g loop init (links ++ [link]) = leading g loop init links := by
  induction links with
  | nil => simp at h
  | cons l links ih =>
    cases l with
    | pass => simpa [leading, isLeading] using ih (by simpa [isLeading] using h)
    | add y =>
      by_cases hy : sharesRecord g loop init y = true
      · simp only [cons_append, leading, hy, if_true]
        rw [ih (by simpa [isLeading, hy] using h)]
      · simp [leading, hy]
    | sub y | subFrom y => simp [leading]

end

variable {r : Record} {g : FlowGraph} {loop : LoopInfo} {scc : List Def} {phi start back : Def}
  {links : List (Def × Link)}

section
variable {cycle : Cycle} {init : Record}
variable {operand c : Option Record} {prev d y : Def}

lemma attempt_eq_some {first : Record → Invariant → Option Record}
    {aggregate : Invariant → Invariant → Option Record} (h : (attempt init operand c first aggregate).join = some r) :
    ∃ o c' x, operand = some o ∧ c = some c' ∧ o.var = .invariant x ∧ ((c'.addr = init.addr ∧ first o x = some r) ∨
    (c'.addr ≠ init.addr ∧ ∃ y, c'.var = .invariant y ∧ aggregate x y = some r)) := by
  unfold attempt at h
  cases operand with
  | none => simp at h
  | some o =>
    cases c with
    | none => simp at h
    | some c =>
      cases ho : o.var with
      | invariant x =>
        simp only [ho] at h
        refine ⟨o, c, x, rfl, rfl, ho, ?_⟩
        by_cases ha : c.addr = init.addr
        · exact .inl ⟨ha, by simpa [ha] using h⟩
        · refine .inr ⟨ha, ?_⟩
          cases hc : c.var with
          | invariant y => exact ⟨y, rfl, by simpa [ha, hc] using h⟩
          | _ => simp [ha, hc] at h
      | _ => simp [ho] at h

lemma attempt_none (c : Option Record) (first : Record → Invariant → Option Record)
    (aggregate : Invariant → Invariant → Option Record) : attempt init none c first aggregate = none := by
  cases c <;> rfl

lemma fresh_eq_some {x : Option Invariant} (h : fresh d x = some r) : ∃ z, x = some z ∧ r = ⟨d, .invariant z⟩ := by
  simp only [fresh, map_eq_some_iff] at h
  obtain ⟨z, hz, rfl⟩ := h
  exact ⟨z, hz, rfl⟩

lemma solve_add (hl : Link.Between g prev d (.add y))
    (hp : loop.lookup g prev = none) (h : solve g loop cycle init d = some r) :
    ∃ o c x, loop.lookup g y = some o ∧ cycle prev = some c ∧ o.var = .invariant x ∧ ((c.addr = init.addr ∧ r = o) ∨
    (c.addr ≠ init.addr ∧ ∃ w z, c.var = .invariant w ∧
    (x.add w = some z ∨ w.add x = some z) ∧ r = ⟨d, .invariant z⟩)) := by
  unfold solve at h
  rcases hl with hn | hn
  · simp only [hn, solveBinary, hp] at h
    obtain ⟨o, c, x, ho, hc, hx, ⟨ha, hr⟩ | ⟨ha, w, hw, hr⟩⟩ := attempt_eq_some h
    · exact ⟨o, c, x, ho, hc, hx, .inl ⟨ha, (some.inj hr).symm⟩⟩
    · obtain ⟨z, hz, rfl⟩ := fresh_eq_some hr
      exact ⟨o, c, x, ho, hc, hx, .inr ⟨ha, w, z, hw, .inr hz, rfl⟩⟩
  · simp only [hn, solveBinary, hp, attempt_none] at h
    have hj : (attempt init (loop.lookup g y) (cycle prev) (fun o _ => some o)
        fun x c => fresh d (x.add c)).join = some r := by
      rw [← h]
      split <;> simp_all
    obtain ⟨o, c, x, ho, hc, hx, ⟨ha, hr⟩ | ⟨ha, w, hw, hr⟩⟩ := attempt_eq_some hj
    · exact ⟨o, c, x, ho, hc, hx, .inl ⟨ha, (some.inj hr).symm⟩⟩
    · obtain ⟨z, hz, rfl⟩ := fresh_eq_some hr
      exact ⟨o, c, x, ho, hc, hx, .inr ⟨ha, w, z, hw, .inl hz, rfl⟩⟩

lemma solve_sub (hl : Link.Between g prev d (.sub y))
    (hp : loop.lookup g prev = none) (h : solve g loop cycle init d = some r) :
    ∃ o c x z, loop.lookup g y = some o ∧ cycle prev = some c ∧ o.var = .invariant x ∧ r = ⟨d, .invariant z⟩ ∧
    ((c.addr = init.addr ∧ (Invariant.constant 0).sub x = some z) ∨
    (c.addr ≠ init.addr ∧ ∃ w, c.var = .invariant w ∧ w.sub x = some z)) := by
  have hn : g.node d = .binaryIntegerOp .sub prev y := hl
  unfold solve at h
  simp only [hn, solveBinary, hp] at h
  obtain ⟨o, c, x, ho, hc, hx, ⟨ha, hr⟩ | ⟨ha, w, hw, hr⟩⟩ := attempt_eq_some h
  · obtain ⟨z, hz, rfl⟩ := fresh_eq_some hr
    exact ⟨o, c, x, z, ho, hc, hx, rfl, .inl ⟨ha, hz⟩⟩
  · obtain ⟨z, hz, rfl⟩ := fresh_eq_some hr
    exact ⟨o, c, x, z, ho, hc, hx, rfl, .inr ⟨ha, w, hw, hz⟩⟩

lemma solvePeriodic_eq_some (h : solvePeriodic init d operand c = some r) : ∃ i n, r = ⟨d, .periodic i n⟩ := by
  unfold solvePeriodic at h
  split at h
  · split_ifs at h
    simp only [map_eq_some_iff] at h
    obtain ⟨n, -, rfl⟩ := h
    exact ⟨_, n, rfl⟩
  · simp at h

lemma solve_subFrom (hl : Link.Between g prev d (.subFrom y))
    (hp : loop.lookup g prev = none) (h : solve g loop cycle init d = some r) : ∃ i n, r = ⟨d, .periodic i n⟩ := by
  have hn : g.node d = .binaryIntegerOp .sub y prev := hl
  unfold solve at h
  simp only [hn, solveBinary, hp, attempt_none] at h
  split at h
  · rename_i hs
    exact solvePeriodic_eq_some (hs.trans h)
  · simp at h

lemma solve_pass (hl : Link.Between g prev d .pass) (h : solve g loop cycle init d = some r) :
    cycle prev = some r ∨ cycle (g.original d) = some r := by
  have hr : (g.node d).redefined = some prev := hl
  unfold solve at h
  cases hn : g.node d <;> simp_all [redefined]

end

namespace SimpleCycle
variable (hc : SimpleCycle g loop scc phi start links back)
include hc

lemma phi_mem : phi ∈ scc := hc.members.mem_iff.2 (by simp [chain])

lemma initInput_eq : loop.initInput g phi = some start := by
  rcases hc.inputs with ⟨hn, hi⟩ | ⟨hn, hi⟩ <;>
    simp [LoopInfo.initInput, LoopInfo.phiInputs, hn, hi]

lemma backInputs_eq : (LoopInfo.phiInputs g phi).eraseIdx loop.initIndex = [back] := by
  rcases hc.inputs with ⟨hn, hi⟩ | ⟨hn, hi⟩ <;> simp [LoopInfo.phiInputs, hn, hi]

lemma index_unique {j l : ℕ} (hj : (chain phi links)[j]? = some d) (hl : (chain phi links)[l]? = some d) : j = l :=
  (List.getElem?_inj (List.getElem?_eq_some_iff.1 hj).1 hc.nodup).1 (hj.trans hl.symm)

lemma isPhi_phi : (g.node phi).isPhi = true := (isHeaderPhi_spec hc.header).1

lemma block_phi : g.block phi = loop.header := (isHeaderPhi_spec hc.header).2

lemma exists_link (hd : d ∈ links.map fst) : ∃ (i : ℕ) (prev : Def) (link : Link), links[i]? = some (d, link) ∧
    (chain phi links)[i]? = some prev ∧ link.Between g prev d := by
  obtain ⟨⟨_, link⟩, hm, rfl⟩ := mem_map.1 hd
  obtain ⟨i, hi⟩ := mem_iff_getElem?.1 hm
  have hlt : i < (chain phi links).length := by
    have := (List.getElem?_eq_some_iff.1 hi).1
    simp only [chain, length_cons, length_map]
    omega
  have hp := List.getElem?_eq_getElem hlt
  exact ⟨i, _, link, hi, hp, hc.linked i _ _ _ hp hi⟩

lemma isPhi_link (hd : d ∈ links.map fst) : (g.node d).isPhi = false := by
  obtain ⟨i, prev, link, -, -, hb⟩ := hc.exists_link hd
  cases link with
  | pass =>
    have hr : (g.node d).redefined = some prev := hb
    cases hn : g.node d <;> simp_all [redefined, isPhi]
  | add y => rcases hb with hn | hn <;> simp [hn, isPhi]
  | sub y | subFrom y => simp [show g.node d = _ from hb, isPhi]

lemma lookup_member (hd : d ∈ scc) : loop.lookup g d = none := by
  cases hl : loop.lookup g d with
  | none => rfl
  | some r =>
    exfalso
    rcases lookup_cases hl with h | ⟨-, ⟨c, hn, -⟩ | ⟨hb, -⟩⟩
    · simp [LoopInfo.lookupInduction, hc.unrecorded d hd] at h
    · rcases mem_cons.1 (hc.members.mem_iff.1 hd) with rfl | hm
      · simpa [hn, isPhi] using hc.isPhi_phi
      · obtain ⟨i, prev, link, -, -, hb⟩ := hc.exists_link hm
        cases link <;> simp_all [Link.Between, redefined]
    · simp [hc.inside d hd] at hb

lemma lookup_addr {d : ℕ} (h : loop.lookup g d = some r) : loop.lookup g r.addr = some r := by
  induction d using Nat.strong_induction_on with
  | _ d ih =>
    rcases lookup_cases h with hl | ⟨-, ⟨c, -, rfl⟩ | ⟨-, ht | rfl⟩⟩
    · exact hc.owned d r hl
    · exact h
    · rcases transferDef_cases ht with ⟨op, l, rt, x, y, v, -, -, -, -, rfl⟩ | ⟨u, x, v, -, -, -, rfl⟩ | ⟨ho, hr⟩
      · exact h
      · exact h
      · exact ih _ (g.original_lt ho) hr
    · exact h

lemma addr_not_mem (h : loop.lookup g d = some r) : r.addr ∉ scc := by
  intro hm
  simpa [hc.lookup_member hm] using hc.lookup_addr h

lemma eq_of_addr_eq {d d' : Def} {r r' : Record} (h : loop.lookup g d = some r)
    (h' : loop.lookup g d' = some r') (ha : r.addr = r'.addr) : r = r' := by
  have hr := hc.lookup_addr h
  rw [ha, hc.lookup_addr h'] at hr
  exact (some.inj hr).symm

end SimpleCycle

variable {rest : List Def}

namespace Execution
variable (e : Execution g loop)

def effect : Link → Int64
  | .add y => e.entry y
  | .sub y => -e.entry y
  | _ => 0

def total : List Link → Int64
  | [] => 0
  | link :: links => e.effect link + total links

lemma total_concat (links : List Link) (link : Link) : e.total (links ++ [link]) = e.total links + e.effect link := by
  induction links with
  | nil => simp [total]
  | cons l links ih =>
    simp only [cons_append, total]
    grind

/-- What the temporary meaning `r` of a member says about the links from the phi to it: as long as
nothing but the initial value has been added, `r` is still the marker. -/
def Meaning (init : Record) (i : Invariant) (phi : Def) (links : List Link) (d : Def) (r : Record) : Prop :=
  (r.addr ≠ init.addr ∧ ∃ x y, r.var = .periodic x y) ∨ ((∀ k, e.val d k = e.val phi k + e.total links) ∧
      if links.all (isLeading g loop init) then r = init
      else r.addr ≠ init.addr ∧ ∃ x, r.var = .invariant x ∧ x.eval e.entry =
          e.total links - ofNat (leading g loop init links) * i.eval e.entry)

lemma operand_lossless (hc : SimpleCycle g loop scc phi start links back) (hw : ∀ d ∈ scc, e.Lossless d) {y : Def}
    (h : Link.add y ∈ links.map snd) : e.Lossless y := by
  obtain ⟨⟨d, link⟩, hm, rfl⟩ := mem_map.1 h
  obtain ⟨i, hi⟩ := mem_iff_getElem?.1 hm
  have hlt : i < (chain phi links).length := by
    have := (List.getElem?_eq_some_iff.1 hi).1
    simp only [chain, length_cons, length_map]
    omega
  have hd : d ∈ scc := hc.members.mem_iff.2 (mem_cons_of_mem _ (mem_map_of_mem hm))
  refine (hw d hd).input ?_
  rcases hc.linked i _ d _ (List.getElem?_eq_getElem hlt) hi with hn | hn <;> simp [hn, Node.inputs]

section Solve
variable (hc : SimpleCycle g loop scc phi start links back) (hs : e.RecordsSound) (hw : ∀ d ∈ scc, e.Lossless d)
  {init : Record} (hi : loop.lookup g start = some init) {i : Invariant}
  (hv : init.var = .invariant i)

include hc hs hi hv

variable {y prev d : Def} {cycle : Cycle}

lemma entry_of_sharesRecord (hy : e.Lossless y) (h : sharesRecord g loop init y = true) :
    e.entry y = i.eval e.entry := by
  unfold sharesRecord at h
  cases hr : loop.lookup g y with
  | none => simp [hr] at h
  | some r =>
    have ha : r.addr = init.addr := by simpa [hr] using h
    obtain rfl := hc.eq_of_addr_eq hr hi ha
    exact lookup_sound hs hy hr hv 0

variable {pre : List Link} (hpre : ∀ y, Link.add y ∈ pre → e.Lossless y)
include hpre

lemma total_of_all (h : pre.all (isLeading g loop init) = true) :
    e.total pre = ofNat (leading g loop init pre) * i.eval e.entry := by
  induction pre with
  | nil => simp [total, leading]
  | cons l pre ih =>
    simp only [all_cons, Bool.and_eq_true] at h
    cases l with
    | pass => simpa [total, effect, leading] using ih (fun y hy => hpre y (mem_cons_of_mem _ hy)) h.2
    | add y =>
      have hy : sharesRecord g loop init y = true := h.1
      simp only [total, effect, leading, hy, if_true, ih (fun y hy => hpre y (mem_cons_of_mem _ hy)) h.2, ofNat_add,
        e.entry_of_sharesRecord hc hs hi hv (hpre y mem_cons_self) hy]
      grind
    | sub y | subFrom y => simp [isLeading] at h

omit hs hv hpre in
lemma meaning_aggregate {prev d : Def} {c : Record}
    {w z : Invariant} (hm : e.Meaning init i phi pre prev c) (ha : c.addr ≠ init.addr)
    (hw : c.var = .invariant w) (hd : d ∈ scc) (hval : ∀ k, e.val d k = e.val prev k + e.effect link)
    (hz : z.eval e.entry = w.eval e.entry + e.effect link) :
    e.Meaning init i phi (pre ++ [link]) d ⟨d, .invariant z⟩ := by
  have hda : d ≠ init.addr := fun h => hc.addr_not_mem hi (h ▸ hd)
  rcases hm with ⟨-, x, y, hp⟩ | ⟨hp, hm⟩
  · simp [hw] at hp
  · by_cases hall : pre.all (isLeading g loop init) = true
    · rw [if_pos hall] at hm
      exact absurd (congrArg Record.addr hm) ha
    · rw [if_neg hall] at hm
      obtain ⟨-, x, hx, he⟩ := hm
      obtain rfl : w = x := invariant.inj (hw.symm.trans hx)
      refine .inr ⟨fun k => ?_, ?_⟩
      · rw [hval, hp, total_concat]
        grind
      · rw [if_neg (by simp_all)]
        refine ⟨hda, z, rfl, ?_⟩
        rw [hz, he, total_concat, leading_concat_of_not_all (by simpa using hall)]
        grind

lemma meaning_first {c r : Record} {z : Invariant} (hm : e.Meaning init i phi pre prev c) (ha : c.addr = init.addr)
    (hval : ∀ k, e.val d k = e.val prev k + e.effect link)
    (hl : link.isLeading g loop init = false) (hzero : leading g loop init [link] = 0)
    (hr : r.addr ≠ init.addr) (hrv : r.var = .invariant z) (hz : z.eval e.entry = e.effect link) :
    e.Meaning init i phi (pre ++ [link]) d r := by
  rcases hm with ⟨hna, -⟩ | ⟨hp, hm⟩
  · exact absurd ha hna
  · by_cases hall : pre.all (isLeading g loop init) = true
    · refine .inr ⟨fun k => ?_, ?_⟩
      · rw [hval, total_concat]
        grind
      · rw [if_neg (by simp [hl])]
        refine ⟨hr, z, hrv, ?_⟩
        rw [total_concat, leading_concat_of_all hall, hzero, e.total_of_all hc hs hi hv hpre hall, Nat.add_zero]
        grind
    · rw [if_neg hall] at hm
      exact absurd ha hm.1

include hw

lemma meaning_add (hl : Link.Between g prev d (.add y)) (hp : prev ∈ scc) (hd : d ∈ scc)
    (hm : ∀ c, cycle prev = some c → e.Meaning init i phi pre prev c) (h : solve g loop cycle init d = some r) :
    e.Meaning init i phi (pre ++ [.add y]) d r := by
  obtain ⟨o, c, x, ho, hcp, hx, hr⟩ := solve_add hl (hc.lookup_member hp) h
  have hly : e.Lossless y := (hw d hd).input (by rcases hl with hn | hn <;> simp [hn, Node.inputs])
  have hy : ∀ k, e.val y k = x.eval e.entry := lookup_sound hs hly ho hx
  have hval : ∀ k, e.val d k = e.val prev k + e.effect (.add y) := by
    intro k
    have hy' : e.effect (.add y) = e.val y k := by rw [hy k, ← hy 0]; rfl
    have hcomp := (hw d hd).computes k
    rcases hl with hn | hn
    · rw [hn] at hcomp
      rw [hy']
      exact hcomp
    · rw [hn] at hcomp
      rw [hy', Int64.add_comm]
      exact hcomp
  have heff : e.effect (.add y) = x.eval e.entry := hy 0
  have hm := hm c hcp
  rcases hr with ⟨ha, rfl⟩ | ⟨ha, w, z, hw, hz, rfl⟩
  · by_cases hsh : sharesRecord g loop init y = true
    · have hoi : r.addr = init.addr := by simpa [sharesRecord, ho] using hsh
      rcases hm with ⟨hna, -⟩ | ⟨hpv, hm⟩
      · exact absurd ha hna
      · by_cases hall : pre.all (isLeading g loop init) = true
        · refine .inr ⟨fun k => ?_, ?_⟩
          · rw [hval, hpv, total_concat]
            grind
          · rw [if_pos (by simpa [isLeading, hsh] using hall)]
            exact hc.eq_of_addr_eq ho hi hoi
        · rw [if_neg hall] at hm
          exact absurd ha hm.1
    · refine e.meaning_first hc hs hi hv hpre hm ha hval (by simpa [isLeading] using hsh)
        (by simp [leading, hsh]) ?_ hx heff.symm
      simpa [sharesRecord, ho] using hsh
  · refine e.meaning_aggregate hc hi hm ha hw hd hval ?_
    rcases hz with hz | hz
    · rw [Invariant.eval_add _ hz]
      grind
    · rw [Invariant.eval_add _ hz, heff]

lemma meaning_sub (hl : Link.Between g prev d (.sub y)) (hp : prev ∈ scc) (hd : d ∈ scc)
    (hm : ∀ c, cycle prev = some c → e.Meaning init i phi pre prev c) (h : solve g loop cycle init d = some r) :
    e.Meaning init i phi (pre ++ [.sub y]) d r := by
  obtain ⟨o, c, x, z, ho, hcp, hx, rfl, hr⟩ := solve_sub hl (hc.lookup_member hp) h
  have hn : g.node d = .binaryIntegerOp .sub prev y := hl
  have hy : ∀ k, e.val y k = x.eval e.entry := lookup_sound hs ((hw d hd).input (by simp [hn, Node.inputs])) ho hx
  have heff : e.effect (.sub y) = -x.eval e.entry := congrArg (-·) (hy 0)
  have hval : ∀ k, e.val d k = e.val prev k + e.effect (.sub y) := by
    intro k
    have hcomp := (hw d hd).computes k
    simp only [Node.Computes, id] at hcomp
    grind
  have hm := hm c hcp
  rcases hr with ⟨ha, hz⟩ | ⟨ha, w, hw, hz⟩
  · refine e.meaning_first hc hs hi hv hpre hm ha hval rfl rfl (fun h => hc.addr_not_mem hi (h ▸ hd)) rfl ?_
    rw [Invariant.eval_sub _ hz, Invariant.eval_constant]
    grind
  · refine e.meaning_aggregate hc hi hm ha hw hd hval ?_
    rw [Invariant.eval_sub _ hz]
    grind

omit hc hs hi hv hpre hw in
lemma meaning_pass {prev d : Def} (hd : e.Lossless d) (hl : Link.Between g prev d .pass)
    (hm : e.Meaning init i phi pre prev r) :
    e.Meaning init i phi (pre ++ [.pass]) d r := by
  have htot : e.total (pre ++ [.pass]) = e.total pre := by
    rw [total_concat]
    exact Int64.add_zero _
  have hlead : leading g loop init (pre ++ [.pass]) = leading g loop init pre := by
    by_cases hall : pre.all (isLeading g loop init) = true
    · rw [leading_concat_of_all hall]
      rfl
    · exact leading_concat_of_not_all (by simpa using hall)
  have hall : (pre ++ [pass]).all (isLeading g loop init) = pre.all (isLeading g loop init) := by simp [isLeading]
  have hval : ∀ k, e.val d k = e.val prev k := fun k => hd.val_redefined hl k
  unfold Meaning at hm ⊢
  simpa only [htot, hlead, hall, hval] using hm

def Solved (init : Record) (i : Invariant) (phi : Def) (links : List (Def × Link)) (cycle : Cycle) : Prop :=
  ∀ (j : ℕ) d r, (chain phi links)[j]? = some d → cycle d = some r → e.Meaning init i phi ((links.take j).map snd) d r

omit hpre

omit hs hi hv in
lemma meaning_original (init : Record) (i : Invariant) (j : ℕ) (hd : (chain phi links)[j]? = some d) :
    ∃ l : ℕ, (chain phi links)[l]? = some (g.original d) ∧
    ∀ r, e.Meaning init i phi ((links.take l).map snd) (g.original d) r →
    e.Meaning init i phi ((links.take j).map snd) d r := by
  induction j generalizing d with
  | zero =>
    obtain rfl : phi = d := by simpa [chain] using hd
    have hr : (g.node phi).redefined = none := by
      have := hc.isPhi_phi
      cases hn : g.node phi <;> simp_all [isPhi, redefined]
    rw [g.original_of_none hr]
    exact ⟨0, hd, fun r h => h⟩
  | succ j ih =>
    have hlink : ∃ link, links[j]? = some (d, link) := by simpa [chain, List.getElem?_map, map_eq_some_iff] using hd
    obtain ⟨link, hlink⟩ := hlink
    have hlt : j < (chain phi links).length := by
      have := (List.getElem?_eq_some_iff.1 hlink).1
      simp only [chain, length_cons, length_map]
      omega
    have hprev := List.getElem?_eq_getElem hlt
    have hb := hc.linked j _ d link hprev hlink
    cases hr : (g.node d).redefined with
    | none =>
      rw [g.original_of_none hr]
      exact ⟨j + 1, hd, fun r h => h⟩
    | some v =>
      have hpass : link = .pass := by
        cases link <;> simp_all [Link.Between, redefined]
        rcases hb with hn | hn <;> simp [hn] at hr
      subst hpass
      have hv : (g.node d).redefined = some _ := hb
      rw [g.original_of_some hv]
      obtain ⟨l, hl, hm⟩ := ih hprev
      refine ⟨l, hl, fun r h => ?_⟩
      rw [take_links hlink]
      exact e.meaning_pass (hw d (hc.members.mem_iff.2 (mem_of_getElem? hd))) hb (hm r h)

lemma solved_solve (h : e.Solved init i phi links cycle)
    (hd : d ∈ links.map fst) (hr : solve g loop cycle init d = some r) :
    e.Solved init i phi links (update cycle d (some r)) := by
  obtain ⟨j, prev, link, hlink, hprev, hb⟩ := hc.exists_link hd
  have hmem : d ∈ scc := hc.members.mem_iff.2 (mem_cons_of_mem _ hd)
  have hpmem : prev ∈ scc := hc.members.mem_iff.2 (mem_of_getElem? hprev)
  have hdj : (chain phi links)[j + 1]? = some d := by simp [chain, hlink]
  have hpre : ∀ y, Link.add y ∈ (links.take j).map snd → e.Lossless y := fun y hy =>
    e.operand_lossless hc hw (map_subset snd (take_subset j links) hy)
  have hm : e.Meaning init i phi ((links.take (j + 1)).map snd) d r := by
    rw [take_links hlink]
    cases link with
    | pass =>
      rcases solve_pass hb hr with hr | hr
      · exact e.meaning_pass (hw d hmem) hb (h j prev r hprev hr)
      · obtain ⟨l, hl, hm⟩ := e.meaning_original hc hw init i (j + 1) hdj
        rw [← take_links hlink]
        exact hm r (h l _ r hl hr)
    | add y => exact e.meaning_add hc hs hw hi hv hpre hb hpmem hmem (fun c => h j prev c hprev) hr
    | sub y => exact e.meaning_sub hc hs hw hi hv hpre hb hpmem hmem (fun c => h j prev c hprev) hr
    | subFrom y =>
      obtain ⟨x, y, rfl⟩ := solve_subFrom hb (hc.lookup_member hpmem) hr
      exact .inl ⟨fun h => hc.addr_not_mem hi (h ▸ hmem), x, y, rfl⟩
  intro l d' r' hd' hr'
  by_cases hdd : d' = d
  · subst hdd
    obtain rfl : l = j + 1 := hc.index_unique hd' hdj
    rw [update_self] at hr'
    exact some.inj hr' ▸ hm
  · rw [update_of_ne hdd] at hr'
    exact h l d' r' hd' hr'

lemma solved_solveCycle {cycle' : Cycle} (hrest : ∀ d ∈ rest, d ∈ links.map fst) (h : e.Solved init i phi links cycle)
    (hcyc : solveCycle g loop init cycle rest = some cycle') : e.Solved init i phi links cycle' := by
  induction rest generalizing cycle with
  | nil => exact some.inj hcyc ▸ h
  | cons d rest ih =>
    simp only [solveCycle, bind_eq_some] at hcyc
    obtain ⟨r, hr, hcyc⟩ := hcyc
    exact ih (fun d hd => hrest d (mem_cons_of_mem _ hd)) (e.solved_solve hc hs hw hi hv h (hrest d mem_cons_self) hr) hcyc

omit hs hw hi hv in
lemma solved_seed : e.Solved init i phi links (update (fun _ => none) phi (some init)) := by
  intro j d r hd hr
  by_cases hp : d = phi
  · subst hp
    obtain rfl : j = 0 := hc.index_unique hd (by simp [chain])
    rw [update_self] at hr
    refine .inr ⟨fun k => by simp [total], ?_⟩
    simpa using (some.inj hr).symm
  · simp [update_of_ne hp] at hr

end Solve
end Execution

section
variable {v : Def}

lemma rotate_eq_some {rest : List Def} {p : Def} (h : loop.rotate g scc = some (p, rest)) :
    loop.isHeaderPhi g p = true ∧ scc.Perm (p :: rest) := by
  unfold LoopInfo.rotate at h
  set j := scc.reverse.findIdx (loop.isHeaderPhi g)
  cases hp : scc.reverse[j]? with
  | none => simp [hp] at h
  | some q =>
    simp only [hp, some.injEq, mk.injEq] at h
    obtain ⟨rfl, rfl⟩ := h
    obtain ⟨hlt, hq⟩ := List.getElem?_eq_some_iff.1 hp
    refine ⟨hq ▸ findIdx_getElem, ?_⟩
    have hsplit : scc.reverse = scc.reverse.take j ++ q :: scc.reverse.drop (j + 1) := by
      rw [← hq, getElem_cons_drop, take_append_drop]
    have hperm : scc.Perm (q :: (scc.reverse.take j ++ scc.reverse.drop (j + 1))) :=
      (reverse_perm scc).symm.trans ((List.Perm.of_eq hsplit).trans perm_middle)
    exact hperm.trans (((reverse_perm _).append (reverse_perm _)).symm.cons q)

lemma classify_induction_of_ne {d : Def} (h : v ≠ d) : (loop.classify g d).induction v = loop.induction v := by
  rcases classify_cases g loop d with hd | ⟨r, hd, -⟩ <;> rw [hd]
  exact update_of_ne h _ _

lemma foldl_classify_induction (h : v ∉ rest) :
    (rest.foldl (fun loop d => loop.classify g d) loop).induction v = loop.induction v := by
  induction rest generalizing loop with
  | nil => rfl
  | cons d rest ih =>
    simp only [mem_cons, not_or] at h
    rw [foldl_cons, ih h.2, classify_induction_of_ne h.1]

lemma solveSCC_eq_linear {i n : Invariant} (h : loop.solveSCC g phi rest = some (.linear i n)) :
    ∃ start init cycle induc, loop.initInput g phi = some start ∧
      loop.lookup g start = some init ∧ init.var = .invariant i ∧ induc.var = .invariant n ∧
      solveCycle g loop init (update (fun _ => none) phi (some init)) rest = some cycle ∧
      joinInputs cycle ((LoopInfo.phiInputs g phi).eraseIdx loop.initIndex) = some induc := by
  simp only [LoopInfo.solveSCC, bind_eq_some] at h
  obtain ⟨start, hs, init, hi, cycle, hc, induc, hj, h⟩ := h
  refine ⟨start, init, cycle, induc, hs, hi, ?_, ?_, hc, hj⟩ <;>
    cases hv : init.var <;> cases hw : induc.var <;> simp_all

lemma SimpleCycle.classifySCC_phi {start back : Def} (hc : SimpleCycle g loop scc phi start links back)
    (h : (loop.classifySCC g scc).induction phi = some r) : ∃ rest induc, (∀ d ∈ rest, d ∈ links.map fst) ∧
    loop.solveSCC g phi rest = some induc ∧ r = ⟨phi, induc⟩ := by
  have hnone := hc.unrecorded phi hc.phi_mem
  rcases classifySCC_cases g loop scc with heq | ⟨p, rest, induc, hrot, hsolve, heq⟩
  · simp [heq, hnone] at h
  · obtain ⟨hhead, hperm⟩ := rotate_eq_some hrot
    have hp : p = phi := by
      rcases mem_cons.1 (hc.members.mem_iff.1 (hperm.mem_iff.2 mem_cons_self)) with
        rfl | hm
      · rfl
      · simpa [hc.isPhi_link hm] using (isHeaderPhi_spec hhead).1
    subst hp
    have hrest : rest.Perm (links.map fst) := (hperm.symm.trans hc.members).cons_inv
    have hnot : p ∉ rest := fun hm => (nodup_cons.1 hc.nodup).1 (hrest.mem_iff.1 hm)
    rw [heq, foldl_classify_induction hnot] at h
    simp only [LoopInfo.addInduction, update_self, some.injEq] at h
    exact ⟨rest, induc, fun d hd => hrest.mem_iff.1 hd, hsolve, h.symm⟩

end

namespace Execution
variable (e : Execution g loop)

section
variable (hc : SimpleCycle g loop scc phi start links back)
include hc

lemma val_phi {t : Int64}
    (h : ∀ k, e.val back k = e.val phi k + t) (k : ℕ) : e.val phi k = e.entry start + ofNat k * t := by
  induction k with
  | zero =>
    obtain ⟨start', hstart, hval⟩ := e.enter phi hc.isPhi_phi hc.block_phi
    obtain rfl := some.inj (hc.initInput_eq.symm.trans hstart)
    simp [hval, entry]
  | succ k ih =>
    obtain ⟨v, hv, hval⟩ := e.back phi k hc.isPhi_phi hc.block_phi
    rw [hc.backInputs_eq, mem_singleton] at hv
    rw [hval, hv, h, ofNat_add]
    grind

lemma stride_unaccounted
    (hs : e.RecordsSound) (hw : ∀ d ∈ scc, e.Lossless d) {initial next : Invariant} {init : Record}
    (hi : loop.lookup g start = some init)
    (h : (loop.classifySCC g scc).induction phi = some ⟨phi, .linear initial next⟩) :
    initial.eval e.entry = e.entry start ∧ (∀ k, e.val back k = e.val phi k + e.total (links.map snd)) ∧
    e.total (links.map snd) = next.eval e.entry + unaccounted g loop init (links.map snd) * e.entry start := by
  obtain ⟨rest, induc, hrest, hsolve, hr⟩ := hc.classifySCC_phi h
  obtain rfl : .linear initial next = induc := congrArg Record.var hr
  obtain ⟨start', init', cycle, r, hstart, hinit, hv, hrv, hcyc, hjoin⟩ := solveSCC_eq_linear hsolve
  obtain rfl : start = start' := some.inj (hc.initInput_eq.symm.trans hstart)
  obtain rfl : init = init' := some.inj (hi.symm.trans hinit)
  have hls : e.Lossless start := (hw phi hc.phi_mem).phiInput (mem_of_getElem? hc.initInput_eq)
  have hback : cycle back = some r := by
    rw [hc.backInputs_eq] at hjoin
    simpa [joinInputs] using hjoin
  have hstart : initial.eval e.entry = e.entry start := (lookup_sound hs hls hi hv 0).symm
  have hm := e.solved_solveCycle hc hs hw hi hv hrest (e.solved_seed hc) hcyc links.length back r hc.last hback
  rw [take_length] at hm
  rcases hm with ⟨-, x, y, hp⟩ | ⟨hval, hm⟩
  · simp [hrv] at hp
  · refine ⟨hstart, hval, ?_⟩
    by_cases hall : (links.map snd).all (isLeading g loop init) = true
    · rw [unaccounted, e.total_of_all hc hs hi hv (fun y => e.operand_lossless hc hw) hall]
      grind
    · rw [if_neg hall] at hm
      obtain ⟨-, x, hx, he⟩ := hm
      obtain rfl : next = x := invariant.inj (hrv.symm.trans hx)
      rw [unaccounted]
      grind

end
end Execution

section

def stepConstant : Def → Int64
  | 0 => 2
  | 1 => 1
  | _ => 3

def stepGraph (y : Def) (hy : y < 3) : FlowGraph where
  node d := match d with
    | 0 => .constant 2
    | 1 => .constant 1
    | 2 => .constant 3
    | 3 => .phi [0, 5]
    | 4 => .binaryIntegerOp .add 3 y
    | 5 => .binaryIntegerOp .sub 4 1
    | _ => .other
  representation _ := .tagged
  block d := if d < 3 then 0 else 1
  isDominatedBy _ _ := false
  ordered := by
    intro d hp v hv
    match d with
    | 0 | 1 | 2 | _ + 6 => simp [inputs] at hv
    | 3 => simp [isPhi] at hp
    | 4 =>
      simp only [inputs, mem_cons, not_mem_nil, or_false] at hv
      rcases hv with rfl | rfl
      · decide
      · exact lt_trans hy (by decide)
    | 5 =>
      simp only [inputs, mem_cons, not_mem_nil, or_false] at hv
      rcases hv with rfl | rfl <;> decide

def stepLoop : LoopInfo where
  header := 1
  contains b := b = 1
  predecessors := [0, 1]
  induction _ := none
  bounds _ := []
  control := none

def stepExecution (y : Def) (hy : y < 3) : Execution (stepGraph y hy) stepLoop where
  val d k := match d with
    | 0 | 1 | 2 => stepConstant d
    | 3 => 2 + ofNat k * (stepConstant y - 1)
    | 4 => 2 + ofNat k * (stepConstant y - 1) + stepConstant y
    | 5 => 2 + ofNat k * (stepConstant y - 1) + stepConstant y - 1
    | _ => 0
  computes d k := by
    match d with
    | 0 | 1 | 2 | 3 | 5 | _ + 6 => simp [stepGraph, Node.Computes, stepConstant, Representation.truncate]
    | 4 =>
      match y with
      | 0 | 1 | 2 => simp [stepGraph, Node.Computes, stepConstant, Representation.truncate]
  invariant d hd k := by
    match d with
    | 0 | 1 | 2 | _ + 6 => rfl
    | 3 | 4 | 5 => simp [stepGraph, stepLoop] at hd
  enter phi hp hb := by
    match phi with
    | 3 => exact ⟨0, rfl, by simp [stepConstant]⟩
    | 0 | 1 | 2 | 4 | 5 | _ + 6 => simp [stepGraph, isPhi] at hp
  back phi k hp hb := by
    match phi with
    | 3 =>
      refine ⟨5, mem_singleton.2 rfl, ?_⟩
      simp only [ofNat_add]
      grind
    | 0 | 1 | 2 | 4 | 5 | _ + 6 => simp [stepGraph, isPhi] at hp

lemma stepCycle (y : Def) (hy : y < 3) :
    SimpleCycle (stepGraph y hy) stepLoop [3, 4, 5] 3 0 [(4, .add y), (5, .sub 1)] 5 where
  header := by rfl
  inputs := .inl ⟨rfl, rfl⟩
  linked i prev d link hp hl := by
    match i with
    | 0 =>
      simp only [chain, List.getElem?_cons_zero, some.injEq, mk.injEq] at hp hl
      obtain ⟨rfl, rfl⟩ := hl
      exact .inl (hp ▸ rfl)
    | 1 =>
      simp only [chain, map_cons, List.getElem?_cons_succ, List.getElem?_cons_zero, some.injEq, mk.injEq] at hp hl
      obtain ⟨rfl, rfl⟩ := hl
      exact hp ▸ rfl
    | _ + 2 => simp at hl
  last := rfl
  members := by simp [chain]
  nodup := by simp [chain]
  operands d link x hm hx hs := by
    simp only [mem_cons, mk.injEq, not_mem_nil, or_false] at hm hs
    rcases hm with ⟨rfl, rfl⟩ | ⟨rfl, rfl⟩ <;> obtain rfl := some.inj hx
    · rcases hs with rfl | rfl | rfl <;> revert hy <;> decide
    · revert hs
      decide
  inside d hd := by
    simp only [mem_cons, not_mem_nil, or_false] at hd
    rcases hd with rfl | rfl | rfl <;> rfl
  unrecorded _ _ := rfl
  owned _ _ h := by simp [stepLoop] at h

lemma stepLoop_recordsSound (y : Def) (hy : y < 3) : (stepExecution y hy).RecordsSound := by
  intro d r x _ h
  simp [stepLoop] at h

lemma stepLoop_lossless (y : Def) (hy : y < 3) (d : Def) : (stepExecution y hy).Lossless d :=
  fun v _ k => (stepExecution y hy).computes v k

end
end DartSdk.Loops
