import DartSdk.CompactHash.Refinement

namespace DartSdk.CompactHash
open Simulation List LinkedHashMap
variable {K V : Type} {H : EqualsAndHashCode K} {has63BitSmis : Bool}

def Covers (view s : LinkedHashMap K V) : Prop :=
  s.dataId = view.dataId ∧ ∀ d : ℕ, view.usedData ≤ d → d < s.usedData → s.data[d]? = some .deleted

section
variable {m₀ m : ℕ → LinkedHashMap K V}

lemma mapStep_evolves {m' : ℕ → LinkedHashMap K V} {op : MapOp K V} {out : MapOut V}
    (h : ∀ i, ∃ a, Represents H has63BitSmis layout (m i) a)
    (hstep : mapStep H has63BitSmis m op = some (m', out)) :
    (∀ i, ∃ a, Represents H has63BitSmis layout (m' i) a) ∧ ∀ i, Evolves (m i) (m' i) := by
  choose a ha using h
  obtain ⟨m1, out1, a1, hs1, -, h1, hev1⟩ := mapStep_refines ha (mapFits_of_mapStep ha hstep)
  rw [hs1, Option.some.injEq] at hstep
  obtain ⟨rfl, -⟩ := hstep
  exact ⟨fun i => ⟨a1 i, h1 i⟩, hev1⟩

lemma run_represents (ops : List (MapOp K V)) {outs : List (MapOut V)}
    (hrun : run (mapStep H has63BitSmis) noMaps ops = some (m, outs)) (i : ℕ) :
    ∃ a, Represents H has63BitSmis layout (m i) a :=
  run_invariant (P := fun m => ∀ i, ∃ a, Represents H has63BitSmis layout (m i) a)
    (fun h hstep => (mapStep_evolves h hstep).1) ops
    (fun _ => ⟨[], represents_empty H has63BitSmis layout⟩) hrun i

lemma run_evolves (ops : List (MapOp K V)) {outs : List (MapOut V)}
    (h0 : ∀ i, ∃ a, Represents H has63BitSmis layout (m₀ i) a)
    (hrun : run (mapStep H has63BitSmis) m₀ ops = some (m, outs)) (i : ℕ) :
    (∃ a, Represents H has63BitSmis layout (m i) a) ∧ Evolves (m₀ i) (m i) := by
  have hinv := run_invariant (P := fun m => (∀ i, ∃ a, Represents H has63BitSmis layout (m i) a) ∧
      ∀ i, Evolves (m₀ i) (m i))
    (fun h hstep => by
      obtain ⟨hr, hev⟩ := mapStep_evolves h.1 hstep
      refine ⟨hr, fun i => ?_⟩
      obtain ⟨a, ha⟩ := h0 i
      exact ha.evolves_trans (h.2 i) (hev i)) ops ⟨h0, fun i => .refl _⟩ hrun
  exact ⟨hinv.1 i, hinv.2 i⟩

end

section
variable {view s : LinkedHashMap K V} {log : List (Option (K × V))} {b n : ℕ}
  (h : Table H has63BitSmis layout s log b)

include h

lemma drop_eq_nil_iff : (log.drop n).reduceOption = [] ↔
    ∀ d : ℕ, 2 * n ≤ d → d < s.usedData → s.data[d]? = some .deleted := by
  have hused : s.usedData = 2 * log.length := h.used
  have hmem : (log.drop n).reduceOption = [] ↔ ∀ e : ℕ, n ≤ e → e < log.length → log[e]? = some none := by
    constructor
    · intro hnil e hle hlt
      obtain ⟨x, hx⟩ : ∃ x, log[e]? = some x := ⟨_, List.getElem?_eq_getElem hlt⟩
      cases x with
      | none => exact hx
      | some x =>
        have hx' : (log.drop n)[e - n]? = some (some x) := by rw [List.getElem?_drop, Nat.add_sub_cancel' hle, hx]
        have := InsertionOrder.mem_reduceOption_iff_getElem?.2 ⟨_, hx'⟩
        rw [hnil] at this
        simp at this
    · intro hall
      rw [eq_nil_iff_forall_not_mem]
      intro x hx
      obtain ⟨e, he⟩ := InsertionOrder.mem_reduceOption_iff_getElem?.1 hx
      rw [List.getElem?_drop] at he
      have hlt := (List.getElem?_eq_some_iff.1 he).1
      simp [hall (n + e) (by omega) hlt] at he
  rw [hmem]
  constructor
  · intro hall d hle hlt
    have he := data_entry h (hall (d / 2) (by omega) (by omega))
    rcases Nat.mod_two_eq_zero_or_one d with hd | hd
    · rw [show d = 2 * (d / 2) by omega]
      exact he.1
    · rw [show d = 2 * (d / 2) + 1 by omega]
      exact he.2
  · intro hall e hle hlt
    obtain ⟨x, hx⟩ : ∃ x, log[e]? = some x := ⟨_, List.getElem?_eq_getElem hlt⟩
    have he := (data_entry h hx).1
    rw [hall (2 * e) (by omega) (by omega)] at he
    cases x with
    | none => exact hx
    | some x => simp [mapSlot] at he

lemma iterate_view {j : ℕ} (hj : j < 2) (hview : view.usedData = 2 * n) (hn : s.dataId = view.dataId → n ≤ log.length) :
    CompactIterable.iterate ⟨view.dataId, view.usedData, (j : ℤ) - 2, 2⟩ s =
      .ok (log.reduceOption.map fun x => mapSlot (some x) j) ↔ Covers view s := by
  by_cases hid : s.dataId = view.dataId
  · have hslot : ∀ x : Option (K × V), (layout.slot x j).isDeleted = x.isNone := by
      rintro (_ | x)
      · rfl
      · cases j <;> rfl
    have hsplit : log.reduceOption = (log.take n).reduceOption ++ (log.drop n).reduceOption := by
      rw [← reduceOption_append, take_append_drop]
    rw [Covers, hview, ← drop_eq_nil_iff h, iterate_eq h hj (hn hid) hslot hid.symm rfl rfl rfl, Except.ok.injEq]
    constructor
    · intro heq
      refine ⟨hid, eq_nil_of_length_eq_zero ?_⟩
      have hlen := congrArg List.length heq
      rw [length_map, length_map, hsplit, length_append] at hlen
      omega
    · rintro ⟨-, hnil⟩
      rw [hsplit, hnil, append_nil]
      rfl
  · rw [iterate_other_data (Ne.symm hid)]
    constructor
    · intro heq
      simp at heq
    · intro hc
      exact absurd hc.1 hid

end

theorem views_current_iff (H : EqualsAndHashCode K) (has63BitSmis : Bool)
    (before after : List (MapOp K V)) {m₀ m : ℕ → LinkedHashMap K V} {outs₀ outs : List (MapOut V)}
    (h₀ : run (mapStep H has63BitSmis) noMaps before = some (m₀, outs₀))
    (h : run (mapStep H has63BitSmis) m₀ after = some (m, outs)) (i : ℕ) :
    ∃ a, forEach (m i) = some a ∧ length (m i) = a.length ∧
      ((keys (m₀ i)).iterate (m i) = .ok (a.map fun x => .key x.1) ↔ Covers (m₀ i) (m i)) ∧
      ((values (m₀ i)).iterate (m i) = .ok (a.map fun x => .value x.2) ↔ Covers (m₀ i) (m i)) := by
  have hr₀ := run_represents before h₀
  obtain ⟨⟨a, hr⟩, hev⟩ := run_evolves after hr₀ h i
  refine ⟨a, forEach_eq hr, length_eq hr, ?_⟩
  obtain ⟨a₀, log₀, b₀, ht₀, -⟩ := hr₀ i
  obtain ⟨log, b, ht, rfl⟩ := hr
  have hused₀ : (m₀ i).usedData = 2 * log₀.length := ht₀.used
  have hused : (m i).usedData = 2 * log.length := ht.used
  have hn : (m i).dataId = (m₀ i).dataId → log₀.length ≤ log.length := by
    intro hid
    have := hev.used hid
    omega
  constructor
  · apply iterate_view ht Nat.two_pos hused₀ hn
  · apply iterate_view ht Nat.one_lt_two hused₀ hn

theorem views_current_iff_removed : ∃ m₀ m outs₀ outs, run (mapStep natEquals true) noMaps [.set 0 1 5, .set 0 2 6] =
      some (m₀, outs₀) ∧ run (mapStep natEquals true) m₀ [.remove 0 1] = some (m, outs) ∧
    ∃ a, forEach (V := ℕ) (m 0) = some a ∧ length (m 0) = a.length ∧
        ((keys (m₀ 0)).iterate (m 0) = .ok (a.map fun x => .key x.1) ↔ Covers (m₀ 0) (m 0)) ∧
        ((values (m₀ 0)).iterate (m 0) = .ok (a.map fun x => .value x.2) ↔ Covers (m₀ 0) (m 0)) :=
  ⟨_, _, _, _, rfl, rfl, views_current_iff natEquals true [.set 0 1 5, .set 0 2 6] [.remove 0 1] rfl rfl 0⟩

theorem view_misses_insertion : ((run (mapStep natEquals true) noMaps [.set 0 1 5]).bind fun r₀ =>
    (run (mapStep natEquals true) r₀.1 [.set 0 2 6]).map fun r =>
      ((LinkedHashMap.keys (V := ℕ) (r₀.1 0)).iterate (r.1 0), LinkedHashMap.length (r.1 0))) =
      some (.ok [.key 1], 2) := by
  rfl

end DartSdk.CompactHash
