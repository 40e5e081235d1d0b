import DartSdk.Splay.Operations

namespace DartSdk.Splay
open Option Shape Prod List SplayTree Simulation
variable {K V : Type}

section
variable (C : Comparator K) (key : K) (l : List (K × V))

def below : List (K × V) := l.filter fun e => C.compare e.1 key < 0

def above : List (K × V) := l.filter fun e => 0 < C.compare e.1 key

def entryOf : Option (K × V) := l.find? fun e => C.compare e.1 key = 0

def assign (value : V) : List (K × V) :=
  below C key l ++ (((entryOf C key l).map fst).getD key, value) :: above C key l

def erase : List (K × V) := below C key l ++ above C key l

end

inductive Op (K V : Type)
  | get (key : K)
  | set (key : K) (value : V)
  | remove (key : K)
  | putIfAbsent (key : K) (value : V)
  | update (key : K) (update : V → V) (ifAbsent : Option V)
  | containsKey (key : K)
  | firstKey
  | lastKey
  | firstKeyAfter (key : K)
  | lastKeyBefore (key : K)
  | clear
  | contains (element : K)
  | lookup (object : K)
  | first
  | last

inductive Out (K V : Type)
  | done
  | value (v : Option V)
  | found (b : Bool)
  | key (k : Option K)
  | argumentError
  | noElement
deriving DecidableEq

def Out.ofUpdate : Option V → Out K V
  | none => argumentError
  | some v => value (some v)

def Out.ofEnd : Option K → Out K V
  | none => noElement
  | some k => key (some k)

/-- `key == null`, and the predicate `isValidKey`. -/
structure KeyTests (K : Type) where
  isNull : K → Bool
  validKey : K → Bool

/-- The answer to a key that is turned away before the tree is touched. -/
def Op.rejected (tests : KeyTests K) : Op K V → Option (Out K V)
  | .get key | .remove key => if tests.validKey key then none else some (.value none)
  | .containsKey key | .contains key => if tests.validKey key then none else some (.found false)
  | .lookup key => if tests.validKey key then none else some (.key none)
  | .firstKeyAfter key | .lastKeyBefore key => if tests.isNull key then some .argumentError else none
  | _ => none

def treeStep (compare : K → K → ℤ) (s : SplayTree K V) : Op K V → Option (SplayTree K V × Out K V)
  | .get key => (s.get compare key).map fun r => (r.1, .value r.2)
  | .set key value => (s.set compare key value).map fun r => (r, .done)
  | .remove key => (s.remove compare key).map fun r => (r.1, .value r.2)
  | .putIfAbsent key value => (s.putIfAbsent compare key value).map fun r => (r.1, .value (some r.2))
  | .update key update ifAbsent =>
    (s.update compare key update ifAbsent).map fun r => (r.1, .ofUpdate r.2)
  | .containsKey key => (s.containsKey compare key).map fun r => (r.1, .found r.2)
  | .firstKey => (s.endKey .left).map fun r => (r.1, .key r.2)
  | .lastKey => (s.endKey .right).map fun r => (r.1, .key r.2)
  | .firstKeyAfter key => (s.neighbour compare .right key).map fun r => (r.1, .key r.2)
  | .lastKeyBefore key => (s.neighbour compare .left key).map fun r => (r.1, .key r.2)
  | .clear => some (s.clear, .done)
  | .contains element => (s.contains compare element).map fun r => (r.1, .found r.2)
  | .lookup object => (s.lookup compare object).map fun r => (r.1, .key r.2)
  | .first => (s.endElement .left).map fun r => (r.1, .ofEnd r.2)
  | .last => (s.endElement .right).map fun r => (r.1, .ofEnd r.2)

def mapStep (tests : KeyTests K) (compare : K → K → ℤ) (s : SplayTree K V) (op : Op K V) :
    Option (SplayTree K V × Out K V) :=
  match op.rejected tests with
  | some out => some (s, out)
  | none => treeStep compare s op

def sortedStep (C : Comparator K) (l : List (K × V)) : Op K V → List (K × V) × Out K V
  | .get key => (l, .value ((entryOf C key l).map snd))
  | .set key value => (assign C key l value, .done)
  | .remove key => (erase C key l, .value ((entryOf C key l).map snd))
  | .putIfAbsent key value =>
    match entryOf C key l with
    | some e => (l, .value (some e.2))
    | none => (assign C key l value, .value (some value))
  | .update key update ifAbsent =>
    match entryOf C key l, ifAbsent with
    | some e, _ => (assign C key l (update e.2), .value (some (update e.2)))
    | none, some value => (assign C key l value, .value (some value))
    | none, none => (l, .argumentError)
  | .containsKey key => (l, .found (entryOf C key l).isSome)
  | .firstKey => (l, .key (l.head?.map fst))
  | .lastKey => (l, .key (l.getLast?.map fst))
  | .firstKeyAfter key => (l, .key ((above C key l).head?.map fst))
  | .lastKeyBefore key => (l, .key ((below C key l).getLast?.map fst))
  | .clear => ([], .done)
  | .contains element => (l, .found (entryOf C element l).isSome)
  | .lookup object => (l, .key ((entryOf C object l).map fst))
  | .first => (l, .ofEnd (l.head?.map fst))
  | .last => (l, .ofEnd (l.getLast?.map fst))

namespace Shape

def entries (t : Shape K V) : List (K × V) := (t.nodes .left).map fun x => (x.key, x.value)

def Ordered (C : Comparator K) : Shape K V → Prop
  | nil => True
  | node x sub => (∀ y ∈ (sub .left).nodes .left, C.compare y.key x.key < 0) ∧
      (∀ y ∈ (sub .right).nodes .left, 0 < C.compare y.key x.key) ∧ ∀ σ, (sub σ).Ordered C

lemma ordered_of_sorted {C : Comparator K} {t : Shape K V} (h : Sorted C .left (t.nodes .left)) : t.Ordered C := by
  induction t with
  | nil => trivial
  | node x sub ih =>
    rw [Sorted, nodes, pairwise_append, pairwise_cons] at h
    obtain ⟨hl, ⟨hx, hr⟩, hlr⟩ := h
    refine ⟨fun y hy => hlr y hy x mem_cons_self, fun y hy => ?_, fun σ => ?_⟩
    · exact (C.flip x.key y.key).1 (hx y hy)
    · cases σ with
      | left => exact ih .left hl
      | right => exact ih .right hr

lemma entries_join (a : Shape K V) (x : Node K V) (b : Shape K V) :
    (join .left a x b).entries = a.entries ++ (x.key, x.value) :: b.entries := by
  rw [entries, nodes_join, map_append]
  rfl

end Shape

section
variable {C : Comparator K} {key : K} {l l' : List (K × V)} {e : K × V}

structure Splits (C : Comparator K) (key : K) (l l' : List (K × V)) : Prop where
  before : ∀ e ∈ l, C.compare e.1 key < 0
  after : ∀ e ∈ l', 0 < C.compare e.1 key

lemma Splits.below (h : Splits C key l l') : below C key (l ++ e :: l') =
    l ++ if C.compare e.1 key < 0 then [e] else [] := by
  have hl : l.filter (fun e => C.compare e.1 key < 0) = l := by
    rw [filter_eq_self]
    exact fun x hx => decide_eq_true (h.before x hx)
  have hl' : l'.filter (fun e => C.compare e.1 key < 0) = [] := by
    rw [filter_eq_nil_iff]
    intro x hx
    have := h.after x hx
    simp only [decide_eq_true_eq]
    omega
  rw [Splay.below, filter_append, hl, filter_cons, hl']
  simp only [decide_eq_true_eq]

lemma Splits.above (h : Splits C key l l') : above C key (l ++ e :: l') =
    (if 0 < C.compare e.1 key then [e] else []) ++ l' := by
  have hl : l.filter (fun e => 0 < C.compare e.1 key) = [] := by
    rw [filter_eq_nil_iff]
    intro x hx
    have := h.before x hx
    simp only [decide_eq_true_eq]
    omega
  have hl' : l'.filter (fun e => 0 < C.compare e.1 key) = l' := by
    rw [filter_eq_self]
    exact fun x hx => decide_eq_true (h.after x hx)
  rw [Splay.above, filter_append, hl, filter_cons, hl']
  split <;> simp_all

lemma Splits.entryOf (h : Splits C key l l') : entryOf C key (l ++ e :: l') =
    if C.compare e.1 key = 0 then some e else none := by
  have hl : l.find? (fun e => C.compare e.1 key = 0) = none := by
    rw [find?_eq_none]
    intro x hx
    have := h.before x hx
    simp only [decide_eq_true_eq]
    omega
  have hl' : l'.find? (fun e => C.compare e.1 key = 0) = none := by
    rw [find?_eq_none]
    intro x hx
    have := h.after x hx
    simp only [decide_eq_true_eq]
    omega
  rw [Splay.entryOf, find?_append, hl]
  by_cases he : C.compare e.1 key = 0
  · simp [he]
  · simp [he, hl']

end

section Steps
variable {C : Comparator K} {key : K} {s s' : SplayTree K V} {t a b : Shape K V} {x : Node K V}

lemma Splayed.splits (h : Splayed C key s s' t a x b) : Splits C key a.entries b.entries := by
  constructor
  · intro e he
    obtain ⟨y, hy, rfl⟩ := mem_map.1 he
    exact h.before y hy
  · intro e he
    obtain ⟨y, hy, rfl⟩ := mem_map.1 he
    exact h.after y hy

lemma Splayed.entries (h : Splayed C key s s' t a x b) : t.entries = a.entries ++ (x.key, x.value) :: b.entries := by
  rw [← entries_join, Shape.entries, Shape.entries, h.nodes]

lemma Valid.splay_cases (h : Valid C s t) (key : K) :
    (s.root = none ∧ t = .nil ∧ s.splay C.compare key = some (s, -1)) ∨
    ∃ s' a x b, s.root ≠ none ∧ s.splay C.compare key = some (s', C.compare x.key key) ∧
    Splayed C key s s' t a x b := by
  cases hroot : s.root with
  | none => exact .inl ⟨rfl, h.splay_nil hroot key⟩
  | some root =>
    obtain ⟨s', a, x, b, hs, hx⟩ := h.splay hroot key
    exact .inr ⟨s', a, x, b, by simp, hs, hx⟩

section
variable (h : Splayed C key s s' t a x b)
include h

lemma Splayed.addNewRoot (hne : C.compare x.key key ≠ 0)
    (value : V) : ∃ u, Valid C (s'.addNewRoot key value (C.compare x.key key)) u ∧
    u.entries = assign C key t.entries value := by
  have hass : assign C key t.entries value = below C key t.entries ++ (key, value) :: above C key t.entries := by
    rw [assign, h.entries, h.splits.entryOf, if_neg hne]
    rfl
  rw [hass, h.entries, h.splits.below, h.splits.above]
  by_cases hlt : C.compare x.key key < 0
  · refine ⟨_, h.valid.addNewRoot value (if_pos hlt) (fun y hy => ?_) fun y hy => ?_, ?_⟩
    · rcases (mem_join _ _).1 hy with hy | rfl | hy
      · exact h.before y hy
      · exact hlt
      · exact absurd hy not_mem_nil
    · exact (C.flip key y.key).2 (h.after y hy)
    · rw [entries_join, entries_join, if_pos hlt, if_neg (by dsimp only; omega)]
      rfl
  · have hgt : 0 < C.compare x.key key := by omega
    have hv := h.valid
    rw [← join_opp] at hv
    refine ⟨_, hv.addNewRoot value (if_neg hlt) (fun y hy => ?_) fun y hy => ?_, ?_⟩
    · rcases (mem_join _ _).1 hy with hy | rfl | hy
      · exact h.after y ((mem_nodes _ _).1 hy)
      · exact hgt
      · exact absurd hy not_mem_nil
    · exact (C.flip y.key key).1 (h.before y ((mem_nodes _ _).1 hy))
    · rw [join_opp, join_opp, entries_join, entries_join, if_neg hlt, if_pos hgt]
      simp [Shape.entries, Shape.nodes]

lemma Splayed.replaceValue (heq : C.compare x.key key = 0)
    (value : V) : ∃ r u, s'.replaceValue value = some r ∧ Valid C r u ∧ u.entries = assign C key t.entries value := by
  obtain ⟨r, hr, hv, -, -⟩ := h.valid.replaceValue value
  refine ⟨r, _, hr, hv, ?_⟩
  rw [assign, h.entries, h.splits.entryOf, h.splits.below, h.splits.above, if_pos heq,
    if_neg (by dsimp only; omega), if_neg (by dsimp only; omega), entries_join]
  simp

lemma Splayed.remove (hs : s.splay C.compare key = some (s', C.compare x.key key)) (hroot : s.root ≠ none)
    (heq : C.compare x.key key = 0) : ∃ r u, s.remove C.compare key = some (r, some x.value) ∧
    Valid C r u ∧ u.entries = erase C key t.entries := by
  rw [heq] at hs
  obtain ⟨r, u, hr, hv, hnod⟩ := Valid.remove hs hroot h.valid
  refine ⟨r, u, hr, hv, ?_⟩
  rw [erase, h.entries, h.splits.below, h.splits.above, if_neg (by dsimp only; omega),
    if_neg (by dsimp only; omega), Shape.entries, hnod]
  simp [Shape.entries]

end

lemma erase_of_absent (h : entryOf C key t.entries = none) (hv : Valid C s t) : erase C key t.entries = t.entries := by
  rcases hv.splay_cases key with ⟨-, rfl, -⟩ | ⟨s', a, x, b, -, -, hx⟩
  · rfl
  · rw [hx.entries, hx.splits.entryOf] at h
    rw [hx.entries, erase, hx.splits.below, hx.splits.above]
    have hne : C.compare x.key key ≠ 0 := by
      intro heq
      rw [if_pos heq] at h
      cases h
    by_cases hlt : C.compare x.key key < 0
    · rw [if_pos hlt, if_neg (by dsimp only; omega)]
      simp
    · rw [if_neg hlt, if_pos (by dsimp only; omega)]
      simp

structure Found (C : Comparator K) (key : K) (s s' : SplayTree K V) (t : Shape K V) (x : Node K V) : Prop where
  nonempty : s.root ≠ none
  root : s'.root = some x
  entry : entryOf C key t.entries = some (x.key, x.value)
  replaceValue : ∀ value, ∃ r u, s'.replaceValue value = some r ∧ Valid C r u ∧
    u.entries = assign C key t.entries value
  remove : ∃ r u, s.remove C.compare key = some (r, some x.value) ∧ Valid C r u ∧ u.entries = erase C key t.entries

structure Absent (C : Comparator K) (key : K) (s s' : SplayTree K V) (t : Shape K V) (comp : ℤ) : Prop where
  empty : s.root = none → s' = s
  entry : entryOf C key t.entries = none
  addNewRoot : ∀ value, ∃ u, Valid C (s'.addNewRoot key value comp) u ∧ u.entries = assign C key t.entries value

section
variable (h : Valid C s t)
include h

lemma Valid.splay_entries (key : K) :
    ∃ s' comp u, s.splay C.compare key = some (s', comp) ∧ Valid C s' u ∧ u.entries = t.entries ∧
    ((comp = 0 ∧ ∃ x, Found C key s s' t x) ∨ (comp ≠ 0 ∧ Absent C key s s' t comp)) := by
  rcases h.splay_cases key with ⟨hroot, rfl, hs⟩ | ⟨s', a, x, b, hroot, hs, hx⟩
  · refine ⟨s, -1, .nil, hs, h, rfl, .inr ⟨by decide, fun _ => rfl, rfl, fun value => ?_⟩⟩
    refine ⟨_, h.addNewRoot_nil key value (-1), ?_⟩
    rfl
  · refine ⟨s', _, _, hs, hx.valid, by rw [entries_join, hx.entries], ?_⟩
    by_cases hc : C.compare x.key key = 0
    · refine .inl ⟨hc, x, hroot, hx.root, ?_, hx.replaceValue hc, hx.remove hs hroot hc⟩
      rw [hx.entries, hx.splits.entryOf, if_pos hc]
    · refine .inr ⟨hc, fun hn => absurd hn hroot, ?_, hx.addNewRoot hc⟩
      rw [hx.entries, hx.splits.entryOf, if_neg hc]

lemma Valid.neighbour_cases (σ : Side) (key : K) : ∃ s' u, s.neighbour C.compare σ key = some (s', match σ with
        | .left => (below C key t.entries).getLast?.map fst
        | .right => (above C key t.entries).head?.map fst) ∧
      Valid C s' u ∧ u.entries = t.entries := by
  rcases h.splay_cases key with ⟨hroot, rfl, -⟩ | ⟨s', a, x, b, hroot, hs, hx⟩
  · refine ⟨s, .nil, ?_, h, rfl⟩
    rw [SplayTree.neighbour, if_pos hroot]
    cases σ <;> rfl
  · refine ⟨s', _, ?_, hx.valid, by rw [entries_join, hx.entries]⟩
    rw [hx.entries, hx.splits.below, hx.splits.above]
    cases σ with
    | left =>
      rw [Valid.neighbour .left hs hroot hx.valid]
      change some (s', if C.compare x.key key < 0 then _ else _) = _
      by_cases hlt : C.compare x.key key < 0
      · rw [if_pos hlt, if_pos hlt, getLast?_concat]
        rfl
      · rw [if_neg hlt, if_neg hlt, append_nil, entries, getLast?_map, Option.map_map]
        rfl
    | right =>
      have hv := hx.valid
      rw [← join_opp] at hv
      rw [Valid.neighbour .right hs hroot hv]
      change some (s', if 0 < C.compare x.key key then _ else _) = _
      dsimp only
      by_cases hgt : 0 < C.compare x.key key
      · rw [if_pos hgt, if_pos hgt]
        rfl
      · rw [if_neg hgt, if_neg hgt, nil_append, entries, head?_map,
          Option.map_map, show Side.right = Side.left.opp from rfl, nodes_opp,
          getLast?_reverse]
        rfl

lemma Valid.endKey_cases (σ : Side) : ∃ s' u, s.endKey σ = some (s', match σ with
        | .left => t.entries.head?.map fst
        | .right => t.entries.getLast?.map fst) ∧
      Valid C s' u ∧ u.entries = t.entries := by
  obtain ⟨s', u, hs, hv, hnod, -⟩ := h.endNode σ
  refine ⟨s', u, ?_, hv, by rw [entries, hnod, entries]⟩
  rw [endKey, hs]
  cases σ with
  | left =>
    rw [entries, head?_map, Option.map_map]
    rfl
  | right =>
    rw [entries, getLast?_map, Option.map_map, show Side.right = Side.left.opp from rfl, nodes_opp, head?_reverse]
    rfl

lemma Valid.endElement_eq (σ : Side) : s.endElement σ = s.endKey σ := by
  rw [endElement]
  split_ifs with hc
  · have hnil : t.nodes .left = [] := length_eq_zero_iff.1 (by have := h.count; omega)
    have hroot : s.root = none := by
      cases t with
      | nil => exact h.rep
      | node x sub => simp [nodes] at hnil
    rw [endKey, SplayTree.endNode, hroot]
    rfl
  · rfl

lemma treeStep_refines (op : Op K V) :
    ∃ s' u, treeStep C.compare s op = some (s', (sortedStep C t.entries op).2) ∧ Valid C s' u ∧
    u.entries = (sortedStep C t.entries op).1 := by
  cases op with
  | get key =>
    obtain ⟨s', comp, u, hs, hu, hsame, ⟨rfl, x, hx⟩ | ⟨hc, hx⟩⟩ := h.splay_entries key
    · refine ⟨s', u, ?_, hu, hsame⟩
      simp [treeStep, SplayTree.get, hx.nonempty, hs, hx.root, sortedStep, hx.entry]
    · refine ⟨s', u, ?_, hu, hsame⟩
      by_cases hroot : s.root = none
      · simp [treeStep, SplayTree.get, hroot, hx.empty hroot, sortedStep, hx.entry]
      · simp [treeStep, SplayTree.get, hroot, hs, hc, sortedStep, hx.entry]
  | set key value =>
    obtain ⟨s', comp, -, hs, -, -, ⟨rfl, x, hx⟩ | ⟨hc, hx⟩⟩ := h.splay_entries key
    · obtain ⟨r, u, hr, hu, hent⟩ := hx.replaceValue value
      refine ⟨r, u, ?_, hu, hent⟩
      simp [treeStep, SplayTree.set, hs, hr, sortedStep]
    · obtain ⟨u, hu, hent⟩ := hx.addNewRoot value
      refine ⟨_, u, ?_, hu, hent⟩
      simp [treeStep, SplayTree.set, hs, hc, sortedStep]
  | remove key =>
    obtain ⟨s', comp, u, hs, hu, hsame, ⟨rfl, x, hx⟩ | ⟨hc, hx⟩⟩ := h.splay_entries key
    · obtain ⟨r, u, hr, hu, hent⟩ := hx.remove
      refine ⟨r, u, ?_, hu, hent⟩
      simp [treeStep, hr, sortedStep, hx.entry]
    · refine ⟨s', u, ?_, hu, hsame.trans (erase_of_absent hx.entry h).symm⟩
      by_cases hroot : s.root = none
      · simp [treeStep, SplayTree.remove, hroot, hx.empty hroot, sortedStep, hx.entry]
      · simp [treeStep, SplayTree.remove, hroot, hs, hc, sortedStep, hx.entry]
  | putIfAbsent key value =>
    obtain ⟨s', comp, u, hs, hu, hsame, ⟨rfl, x, hx⟩ | ⟨hc, hx⟩⟩ := h.splay_entries key
    · simp only [sortedStep, hx.entry]
      refine ⟨s', u, ?_, hu, hsame⟩
      simp [treeStep, SplayTree.putIfAbsent, hs, hx.root]
    · obtain ⟨u, hu, hent⟩ := hx.addNewRoot value
      simp only [sortedStep, hx.entry]
      refine ⟨_, u, ?_, hu, hent⟩
      simp [treeStep, SplayTree.putIfAbsent, hs, hc]
  | update key update ifAbsent =>
    obtain ⟨s', comp, u, hs, hu, hsame, ⟨rfl, x, hx⟩ | ⟨hc, hx⟩⟩ := h.splay_entries key
    · obtain ⟨r, u, hr, hu, hent⟩ := hx.replaceValue (update x.value)
      simp only [sortedStep, hx.entry]
      refine ⟨r, u, ?_, hu, hent⟩
      simp [treeStep, SplayTree.update, hs, hx.root, hr, Out.ofUpdate]
    · cases ifAbsent with
      | none =>
        simp only [sortedStep, hx.entry]
        refine ⟨s', u, ?_, hu, hsame⟩
        simp [treeStep, SplayTree.update, hs, hc, Out.ofUpdate]
      | some value =>
        obtain ⟨u, hu, hent⟩ := hx.addNewRoot value
        simp only [sortedStep, hx.entry]
        refine ⟨_, u, ?_, hu, hent⟩
        simp [treeStep, SplayTree.update, hs, hc, Out.ofUpdate]
  | containsKey key =>
    obtain ⟨s', comp, u, hs, hu, hsame, ⟨rfl, x, hx⟩ | ⟨hc, hx⟩⟩ := h.splay_entries key
    · refine ⟨s', u, ?_, hu, hsame⟩
      simp [treeStep, SplayTree.containsKey, hs, sortedStep, hx.entry]
    · refine ⟨s', u, ?_, hu, hsame⟩
      simp [treeStep, SplayTree.containsKey, hs, hc, sortedStep, hx.entry]
  | firstKey =>
    obtain ⟨s', u, hs, hu, hsame⟩ := h.endKey_cases .left
    exact ⟨s', u, by rw [treeStep, hs]; rfl, hu, hsame⟩
  | lastKey =>
    obtain ⟨s', u, hs, hu, hsame⟩ := h.endKey_cases .right
    exact ⟨s', u, by rw [treeStep, hs]; rfl, hu, hsame⟩
  | firstKeyAfter key =>
    obtain ⟨s', u, hs, hu, hsame⟩ := h.neighbour_cases .right key
    exact ⟨s', u, by rw [treeStep, hs]; rfl, hu, hsame⟩
  | lastKeyBefore key =>
    obtain ⟨s', u, hs, hu, hsame⟩ := h.neighbour_cases .left key
    exact ⟨s', u, by rw [treeStep, hs]; rfl, hu, hsame⟩
  | clear =>
    refine ⟨s.clear, .nil, rfl, ⟨rfl, nodup_nil, ?_, List.Pairwise.nil, rfl⟩, rfl⟩
    exact nofun
  | contains element =>
    obtain ⟨s', comp, u, hs, hu, hsame, ⟨rfl, x, hx⟩ | ⟨hc, hx⟩⟩ := h.splay_entries element
    · refine ⟨s', u, ?_, hu, hsame⟩
      simp [treeStep, SplayTree.contains, hs, sortedStep, hx.entry]
    · refine ⟨s', u, ?_, hu, hsame⟩
      simp [treeStep, SplayTree.contains, hs, hc, sortedStep, hx.entry]
  | lookup object =>
    obtain ⟨s', comp, u, hs, hu, hsame, ⟨rfl, x, hx⟩ | ⟨hc, hx⟩⟩ := h.splay_entries object
    · refine ⟨s', u, ?_, hu, hsame⟩
      simp [treeStep, SplayTree.lookup, hs, hx.root, sortedStep, hx.entry]
    · refine ⟨s', u, ?_, hu, hsame⟩
      simp [treeStep, SplayTree.lookup, hs, hc, sortedStep, hx.entry]
  | first =>
    obtain ⟨s', u, hs, hu, hsame⟩ := h.endKey_cases .left
    exact ⟨s', u, by rw [treeStep, h.endElement_eq, hs]; rfl, hu, hsame⟩
  | last =>
    obtain ⟨s', u, hs, hu, hsame⟩ := h.endKey_cases .right
    exact ⟨s', u, by rw [treeStep, h.endElement_eq, hs]; rfl, hu, hsame⟩

end
end Steps

structure Refines (C : Comparator K) (s : SplayTree K V) (l : List (K × V)) : Prop where
  tree : ∃ t, Rep s.links s.root t ∧ Distinct (t.nodes .left) ∧ t.Ordered C ∧
    s.count = (t.nodes .left).length ∧ t.entries = l
  sorted : l.Pairwise fun e e' => C.compare e.1 e'.1 < 0
  splay : ∀ key, ∃ s' comp, s.splay C.compare key = some (s', comp) ∧
    ∀ root, s'.root = some root → comp = C.compare root.key key

variable {s : SplayTree K V} {C : Comparator K}

lemma Valid.refines {t : Shape K V} (h : Valid C s t) : Refines C s t.entries := by
  refine ⟨⟨t, h.rep, h.distinct, ordered_of_sorted h.sorted, h.count, rfl⟩, ?_, fun key => ?_⟩
  · rw [entries, pairwise_map]
    exact h.sorted
  · rcases h.splay_cases key with ⟨hroot, -, hs⟩ | ⟨s', a, x, b, -, hs, hx⟩
    · refine ⟨s, -1, hs, fun root hr => ?_⟩
      rw [hroot] at hr
      cases hr
    · refine ⟨s', _, hs, fun root hr => ?_⟩
      rw [hx.root, Option.some.injEq] at hr
      rw [hr]

/-- What the sorted list gives; a rejected key is answered for without it. -/
def sortedSpec (tests : KeyTests K) (C : Comparator K) (l : List (K × V)) (op : Op K V) (out : Out K V)
    (l' : List (K × V)) : Prop :=
  match op.rejected tests with
  | some answer => out = answer ∧ l' = l
  | none => sortedStep C l op = (l', out)

def Holds (C : Comparator K) (s : SplayTree K V) (l : List (K × V)) : Prop :=
  ∃ t, Valid C s t ∧ t.entries = l

variable {tests : KeyTests K}

lemma mapStep_simulates {l : List (K × V)} {op : Op K V}
    (h : Holds C s l) : ∃ s' out l', mapStep tests C.compare s op = some (s', out) ∧
    sortedSpec tests C l op out l' ∧ Holds C s' l' := by
  unfold mapStep sortedSpec
  cases op.rejected tests with
  | some answer => exact ⟨s, answer, l, rfl, ⟨rfl, rfl⟩, h⟩
  | none =>
    obtain ⟨t, ht, rfl⟩ := h
    obtain ⟨s', u, hs, hu, hent⟩ := treeStep_refines ht op
    exact ⟨s', _, _, hs, rfl, u, hu, hent⟩

/-- Null before every number, in a map whose keys are nullable integers. -/
def nullFirst : Comparator (Option ℕ) where
  compare a b := a.elim (-1 : ℤ) (↑) - b.elim (-1 : ℤ) (↑)
  flip a b := by omega
  trans := by
    intro a b c
    omega

end DartSdk.Splay
