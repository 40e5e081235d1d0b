import DartSdk.Splay.Refinement

namespace DartSdk.Splay
open Option Node SplayTree
open Simulation List
open Shape hiding node
variable {K V : Type}
variable {x : Node K V} {rest l : List (Node K V)}

structure Iterator (K V : Type) where
  path : List (Node K V)
  modificationCount : Option ℕ
  splayCount : ℕ

inductive Moved
  | returned (b : Bool)
  | concurrentModificationError

def findLeftMostDescendent (links : Links K V) : ℕ → Option (Node K V) → List (Node K V) → Option (List (Node K V))
  | _, none, path => some path
  | 0, some _, _ => none
  | fuel + 1, some node, path =>
    findLeftMostDescendent links fuel (links .left node.id) (node :: path)

def leaveRight (links : Links K V) (node : Node K V) : List (Node K V) → List (Node K V)
  | [] => []
  | last :: path =>
    if (links .right last.id).map Node.id = some node.id then leaveRight links last path
    else last :: path

namespace Iterator
variable (compare : K → K → ℤ)

def new (tree : SplayTree K V) : Iterator K V := ⟨[], none, tree.splayCount⟩

def rebuildPath (tree : SplayTree K V) (it : Iterator K V) (key : K) : Option (SplayTree K V × Iterator K V) := do
  let (tree, _) ← tree.splay compare key
  let root ← tree.root
  some (tree, { it with path := [root], splayCount := tree.splayCount })

def advance (tree : SplayTree K V) (it : Iterator K V) : Option (SplayTree K V × Iterator K V × Moved) :=
  match it.path with
  | [] => none
  | node :: rest =>
    match tree.links .right node.id with
    | some next => do
      let path ← findLeftMostDescendent tree.links (tree.allocated + 1) (some next) it.path
      some (tree, { it with path := path }, .returned true)
    | none =>
      let path := leaveRight tree.links node rest
      some (tree, { it with path := path }, .returned !path.isEmpty)

def moveNext (tree : SplayTree K V) (it : Iterator K V) : Option (SplayTree K V × Iterator K V × Moved) :=
  if it.modificationCount ≠ some tree.modificationCount then
    if it.modificationCount = none then do
      let path ← findLeftMostDescendent tree.links (tree.allocated + 1) tree.root it.path
      some (tree, { it with path := path, modificationCount := some tree.modificationCount }, .returned !path.isEmpty)
    else some (tree, it, .concurrentModificationError)
  else
    match it.path with
    | [] => some (tree, it, .returned false)
    | last :: _ => do
      let (tree, it) ←
        if it.splayCount ≠ tree.splayCount then rebuildPath compare tree it last.key
        else some (tree, it)
      advance tree it

def current (it : Iterator K V) : Option K := it.path.head?.map key

end Iterator

open Iterator

/-- A tree with one iterator; `reordered` remembers that `_first` or `_last` has put another node at
the root since the iterator last moved. -/
structure Traversal (K V : Type) where
  tree : SplayTree K V
  it : Iterator K V
  reordered : Bool

def Traversal.start (tree : SplayTree K V) : Traversal K V := ⟨tree, .new tree, false⟩

inductive Action (K V : Type)
  | moveNext
  | call (op : Op K V)

inductive Event (K : Type)
  | moved (current : Option K)
  | concurrentModificationError
  | called
deriving DecidableEq

def Op.isEnd : Op K V → Bool
  | .firstKey | .lastKey | .first | .last => true
  | _ => false

def traverse (tests : KeyTests K) (compare : K → K → ℤ) (w : Traversal K V) : Action K V → Option (Traversal K V × Event K)
  | .moveNext => (w.it.moveNext compare w.tree).map fun r =>
    (⟨r.1, r.2.1, false⟩, match r.2.2 with
      | .returned b => .moved (if b then r.2.1.current else none)
      | .concurrentModificationError => .concurrentModificationError)
  | .call op => (mapStep tests compare w.tree op).map fun r =>
    (⟨r.1, w.it, w.reordered || (op.isEnd && (r.1.root.map Node.id != w.tree.root.map Node.id))⟩, .called)

def listSpec (remaining : List K) : Action K V → Event K → List K → Prop
  | .moveNext, event, remaining' => event = .moved remaining.head? ∧ remaining' = remaining.tail
  | .call _, event, remaining' => event = .called ∧ remaining' = remaining

def Op.Keeps (C : Comparator K) (keys : List K) : Op K V → Prop
  | .get _ | .containsKey _ | .firstKey | .lastKey | .firstKeyAfter _ | .lastKeyBefore _ => True
  | .contains _ | .lookup _ | .first | .last => True
  | .set key _ | .update key _ _ => ∃ k ∈ keys, C.compare k key = 0
  | _ => False

def PathKept (w : Traversal K V) : Prop :=
  w.it.modificationCount ≠ none → w.it.path ≠ [] → w.it.splayCount = w.tree.splayCount → w.reordered = false

def Undisturbed (C : Comparator K) (keys : List K) (w : Traversal K V) : Action K V → Prop
  | .moveNext => PathKept w
  | .call op => op.Keeps C keys

def intComparator : Comparator ℤ where
  compare a b := a - b
  flip a b := by omega
  trans := by
    intro a b c
    omega

section
variable {links : Links K V} {n : ℕ}

def Subtree (links : Links K V) (n : ℕ) (p : Option (Node K V)) (t : Shape K V) : Prop :=
  Rep links p t ∧ Distinct (t.nodes .left) ∧ (t.nodes .left).length ≤ n

def Beyond (links : Links K V) (n : ℕ) (x : Node K V) : List (Node K V) → List (Node K V) → Prop
  | [], l => l = []
  | p :: path, l =>
    (links .right p.id = some x ∧ Beyond links n p path l) ∨
      ∃ r l', (links .right p.id).map Node.id ≠ some x.id ∧ Subtree links n (links .right p.id) r ∧
        Beyond links n p path l' ∧ l = p :: (r.nodes .left ++ l')

def After (links : Links K V) (n : ℕ) (x : Node K V) (path l : List (Node K V)) : Prop :=
  ∃ r l', Subtree links n (links .right x.id) r ∧ Beyond links n x path l' ∧ l = r.nodes .left ++ l'

def Leads (links : Links K V) (n : ℕ) (path l : List (Node K V)) : Prop :=
  (path = [] ∧ l = []) ∨ ∃ x rest l', path = x :: rest ∧ l = x :: l' ∧ After links n x rest l'

lemma Subtree.children {t : Shape K V} (h : Subtree links n (some x) t) :
    ∃ a b, t = join .left a x b ∧ Subtree links n (links .left x.id) a ∧
    Subtree links n (links .right x.id) b ∧ (∀ y ∈ a.nodes .left, ∀ z ∈ b.nodes .left, y.id ≠ z.id) ∧
    (a.nodes .left).length < (t.nodes .left).length := by
  obtain ⟨hrep, hd, hlen⟩ := h
  obtain ⟨a, b, rfl, ha, hb⟩ := hrep.eq_join .left
  obtain ⟨-, -, hab⟩ := hd.join
  rw [nodes_join] at hd hlen
  have hb' : Distinct ([x] ++ b.nodes .left) := hd.right
  rw [length_append, length_cons] at hlen
  refine ⟨a, b, rfl, ⟨ha, hd.left, by omega⟩, ⟨hb, hb'.right, by omega⟩, hab, ?_⟩
  rw [nodes_join, length_append, length_cons]
  omega

lemma findLeftMostDescendent_leads (fuel : ℕ) :
    ∀ {x : Node K V} {t : Shape K V} {path l : List (Node K V)}, Subtree links n (some x) t →
    Beyond links n x path l → (t.nodes .left).length ≤ fuel →
    ∃ path', findLeftMostDescendent links fuel (some x) path = some path' ∧
    Leads links n path' (t.nodes .left ++ l) := by
  induction fuel with
  | zero =>
    intro x t path l ht hl hfuel
    obtain ⟨a, b, rfl, -⟩ := ht.children
    rw [nodes_join, length_append, length_cons] at hfuel
    omega
  | succ fuel ih =>
    intro x t path l ht hl hfuel
    obtain ⟨a, b, rfl, ha, hb, hab, hlen⟩ := ht.children
    rw [findLeftMostDescendent]
    cases hx : links .left x.id with
    | none =>
      rw [hx] at ha
      obtain rfl := ha.1.eq_nil
      refine ⟨x :: path, by cases fuel <;> rfl, .inr ⟨x, path, b.nodes .left ++ l, rfl, ?_, ?_⟩⟩
      · rfl
      · exact ⟨b, l, hb, hl, rfl⟩
    | some y =>
      rw [hx] at ha
      have hbey : Beyond links n y (x :: path) (x :: (b.nodes .left ++ l)) := by
        refine .inr ⟨b, l, fun heq => ?_, hb, hl, rfl⟩
        obtain ⟨z, hz, hid⟩ := map_eq_some_iff.1 heq
        obtain ⟨a1, a2, rfl, -⟩ := ha.children
        rw [hz] at hb
        obtain ⟨b₁, b₂, rfl, -⟩ := hb.children
        refine hab y ?_ z ?_ hid.symm
        · exact (mem_join _ _).2 (.inr (.inl rfl))
        · exact (mem_join _ _).2 (.inr (.inl rfl))
      obtain ⟨path', hpath, hlea⟩ := ih ha hbey (by omega)
      refine ⟨path', hpath, ?_⟩
      rw [nodes_join]
      simpa using hlea

lemma leaveRight_leads {path l : List (Node K V)} (h : Beyond links n x path l) :
    Leads links n (leaveRight links x path) l := by
  induction path generalizing x with
  | nil => exact .inl ⟨rfl, h⟩
  | cons p path ih =>
    rw [leaveRight]
    rcases h with ⟨hp, h⟩ | ⟨r, l', hne, hr, h, rfl⟩
    · rw [if_pos (by rw [hp]; rfl)]
      exact ih h
    · rw [if_neg hne]
      exact .inr ⟨p, path, _, rfl, rfl, r, l', hr, h, rfl⟩

end

def Shape.keys (t : Shape K V) : List K := (t.nodes .left).map key

section
variable {C : Comparator K} {s s' : SplayTree K V} {t a b : Shape K V} {x : Node K V} {key : K}

lemma Splayed.keys (h : Splayed C key s s' t a x b) : (join .left a x b).keys = t.keys := by
  rw [Shape.keys, h.nodes, Shape.keys]

lemma Splayed.found (h : Splayed C key s s' t a x b) {k : K} (hk : k ∈ t.keys)
    (heq : C.compare k key = 0) : C.compare x.key key = 0 ∧ x.key = k := by
  obtain ⟨y, hy, rfl⟩ := mem_map.1 hk
  rw [← h.nodes] at hy
  rcases (mem_join _ _).1 hy with hy | rfl | hy
  · have := h.before y hy
    omega
  · exact ⟨heq, rfl⟩
  · have := h.after y hy
    omega

structure Kept (C : Comparator K) (s s' : SplayTree K V) (t : Shape K V) (isEnd : Bool) : Prop where
  valid : ∃ u, Valid C s' u ∧ u.keys = t.keys
  modificationCount : s'.modificationCount = s.modificationCount
  change : s' = s ∨ s.splayCount < s'.splayCount ∨
    (isEnd = true ∧ s'.splayCount = s.splayCount ∧ s'.root.map Node.id ≠ s.root.map Node.id)

lemma Kept.refl (h : Valid C s t) (isEnd : Bool) : Kept C s s t isEnd := ⟨⟨t, h, rfl⟩, rfl, .inl rfl⟩

lemma Splayed.kept (h : Splayed C key s s' t a x b) (isEnd : Bool) : Kept C s s' t isEnd := by
  refine ⟨⟨_, h.valid, h.keys⟩, h.modificationCount, ?_⟩
  rcases h.changed with heq | hlt
  · exact .inl heq
  · exact .inr (.inl (by omega))

lemma Splayed.replaceValue_kept (h : Splayed C key s s' t a x b) (value : V) (isEnd : Bool) :
    ∃ r, s'.replaceValue value = some r ∧ Kept C s r t isEnd := by
  obtain ⟨r, hr, hv, hmod, hcou⟩ := h.valid.replaceValue value
  refine ⟨r, hr, ⟨_, hv, ?_⟩, hmod.trans h.modificationCount, .inr (.inl ?_)⟩
  · rw [← h.keys, Shape.keys, Shape.keys, nodes_join, nodes_join]
    simp
  · rcases h.changed with rfl | hlt
    · omega
    · omega

lemma neighbour_kept (h : Valid C s t) (σ : Side) (key : K) :
    ∃ s' k, s.neighbour C.compare σ key = some (s', k) ∧ Kept C s s' t false := by
  rcases h.splay_cases key with ⟨hroot, -, -⟩ | ⟨s', a, x, b, hroot, hs, hx⟩
  · exact ⟨s, none, by rw [neighbour, if_pos hroot], .refl h false⟩
  · cases σ with
    | left => exact ⟨s', _, Valid.neighbour .left hs hroot hx.valid, hx.kept false⟩
    | right =>
      have hv := hx.valid
      rw [← join_opp] at hv
      exact ⟨s', _, Valid.neighbour .right hs hroot hv, hx.kept false⟩

lemma endKey_kept (h : Valid C s t) (σ : Side) : ∃ s' k, s.endKey σ = some (s', k) ∧ Kept C s s' t true := by
  obtain ⟨s', u, hs, hv, hnod, hmod, hcou, hcha⟩ := h.endNode σ
  refine ⟨s', _, by rw [endKey, hs]; rfl, ⟨u, hv, ?_⟩, hmod, ?_⟩
  · rw [Shape.keys, hnod, Shape.keys]
  · rcases hcha with heq | hne
    · exact .inl heq
    · exact .inr (.inr ⟨rfl, hcou, hne⟩)

lemma treeStep_kept (h : Valid C s t) {op : Op K V} (hop : op.Keeps C t.keys) :
    ∃ s' out, treeStep C.compare s op = some (s', out) ∧ Kept C s s' t op.isEnd := by
  -- an operation on a key that is there
  have hfou : ∀ key, (∃ k ∈ t.keys, C.compare k key = 0) → ∃ s' a x b,
      s.splay C.compare key = some (s', 0) ∧ Splayed C key s s' t a x b := by
    rintro key ⟨k, hk, heq⟩
    rcases h.splay_cases key with ⟨-, rfl, -⟩ | ⟨s', a, x, b, -, hs, hx⟩
    · exact absurd hk not_mem_nil
    · rw [(hx.found hk heq).1] at hs
      exact ⟨s', a, x, b, hs, hx⟩
  cases op with
  | get key =>
    rcases h.splay_cases key with ⟨hroot, -, -⟩ | ⟨s', a, x, b, hroot, hs, hx⟩
    · exact ⟨s, .value none, by simp [treeStep, SplayTree.get, hroot], .refl h false⟩
    · by_cases hc : C.compare x.key key = 0
      · refine ⟨s', .value (some x.value), ?_, hx.kept false⟩
        simp [treeStep, SplayTree.get, hroot, hs, hc, hx.root]
      · refine ⟨s', .value none, ?_, hx.kept false⟩
        simp [treeStep, SplayTree.get, hroot, hs, hc]
  | containsKey key =>
    rcases h.splay_cases key with ⟨-, -, hs⟩ | ⟨s', a, x, b, -, hs, hx⟩
    · exact ⟨s, _, by rw [treeStep, SplayTree.containsKey, hs]; rfl, .refl h false⟩
    · exact ⟨s', _, by rw [treeStep, SplayTree.containsKey, hs]; rfl, hx.kept false⟩
  | firstKey =>
    obtain ⟨s', k, hs, hkept⟩ := endKey_kept h .left
    exact ⟨s', _, by rw [treeStep, hs]; rfl, hkept⟩
  | lastKey =>
    obtain ⟨s', k, hs, hkept⟩ := endKey_kept h .right
    exact ⟨s', _, by rw [treeStep, hs]; rfl, hkept⟩
  | firstKeyAfter key =>
    obtain ⟨s', k, hs, hkept⟩ := neighbour_kept h .right key
    exact ⟨s', _, by rw [treeStep, hs]; rfl, hkept⟩
  | lastKeyBefore key =>
    obtain ⟨s', k, hs, hkept⟩ := neighbour_kept h .left key
    exact ⟨s', _, by rw [treeStep, hs]; rfl, hkept⟩
  | set key value =>
    obtain ⟨s', a, x, b, hs, hx⟩ := hfou key hop
    obtain ⟨r, hr, hkept⟩ := hx.replaceValue_kept value false
    refine ⟨r, .done, ?_, hkept⟩
    simp [treeStep, SplayTree.set, hs, hr]
  | update key update ifAbsent =>
    obtain ⟨s', a, x, b, hs, hx⟩ := hfou key hop
    obtain ⟨r, hr, hkept⟩ := hx.replaceValue_kept (update x.value) false
    refine ⟨r, .value (some (update x.value)), ?_, hkept⟩
    simp [treeStep, SplayTree.update, hs, hx.root, hr, Out.ofUpdate]
  | contains element =>
    rcases h.splay_cases element with ⟨-, -, hs⟩ | ⟨s', a, x, b, -, hs, hx⟩
    · exact ⟨s, _, by rw [treeStep, SplayTree.contains, hs]; rfl, .refl h false⟩
    · exact ⟨s', _, by rw [treeStep, SplayTree.contains, hs]; rfl, hx.kept false⟩
  | lookup object =>
    rcases h.splay_cases object with ⟨-, -, hs⟩ | ⟨s', a, x, b, -, hs, hx⟩
    · exact ⟨s, .key none, by simp [treeStep, SplayTree.lookup, hs], .refl h false⟩
    · by_cases hc : C.compare x.key object = 0
      · exact ⟨s', .key (some x.key), by simp [treeStep, SplayTree.lookup, hs, hc, hx.root], hx.kept false⟩
      · exact ⟨s', .key none, by simp [treeStep, SplayTree.lookup, hs, hc], hx.kept false⟩
  | first =>
    obtain ⟨s', k, hs, hkept⟩ := endKey_kept h .left
    exact ⟨s', _, by rw [treeStep, h.endElement_eq, hs]; rfl, hkept⟩
  | last =>
    obtain ⟨s', k, hs, hkept⟩ := endKey_kept h .right
    exact ⟨s', _, by rw [treeStep, h.endElement_eq, hs]; rfl, hkept⟩
  | remove key | putIfAbsent key value | clear => exact hop.elim

lemma mapStep_kept (tests : KeyTests K) (h : Valid C s t) {op : Op K V} (hop : op.Keeps C t.keys) :
    ∃ s' out, mapStep tests C.compare s op = some (s', out) ∧ Kept C s s' t op.isEnd := by
  unfold mapStep
  cases op.rejected tests with
  | some answer => exact ⟨s, answer, rfl, .refl h _⟩
  | none => exact treeStep_kept h hop

end

section Moves
variable {C : Comparator K} {s : SplayTree K V} {t : Shape K V} {tests : KeyTests K}

lemma Valid.subtree (h : Valid C s t) : Subtree s.links s.allocated s.root t := ⟨h.rep, h.distinct, h.length_le⟩

lemma After.step {links : Links K V} {n : ℕ} (h : After links n x rest l) :
    (∃ next path, links .right x.id = some next ∧
    findLeftMostDescendent links (n + 1) (some next) (x :: rest) = some path ∧ Leads links n path l ∧ path ≠ []) ∨
    (links .right x.id = none ∧ Leads links n (leaveRight links x rest) l) := by
  obtain ⟨r, l', hr, hbey, rfl⟩ := h
  cases hx : links .right x.id with
  | none =>
    rw [hx] at hr
    obtain rfl := hr.1.eq_nil
    exact .inr ⟨rfl, leaveRight_leads hbey⟩
  | some next =>
    rw [hx] at hr
    have hbey' : Beyond links n next (x :: rest) l' := .inl ⟨hx, hbey⟩
    obtain ⟨path, hpath, hlea⟩ := findLeftMostDescendent_leads (n + 1) hr hbey' (by
      have := hr.2.2
      omega)
    refine .inl ⟨next, path, rfl, hpath, hlea, fun hnil => ?_⟩
    subst hnil
    obtain ⟨a, b, rfl, -⟩ := hr.children
    rcases hlea with ⟨-, hl⟩ | ⟨_, _, _, hc, -⟩
    · rw [nodes_join] at hl
      simp at hl
    · cases hc

structure Located (C : Comparator K) (keys : List K) (w : Traversal K V) (remaining : List K) : Prop where
  valid : ∃ t, Valid C w.tree t ∧ t.keys = keys
  splayCount : w.it.splayCount ≤ w.tree.splayCount
  path : (w.it.modificationCount = none ∧ w.it.path = [] ∧ remaining = keys) ∨
    (w.it.modificationCount = some w.tree.modificationCount ∧ ((w.it.path = [] ∧ remaining = []) ∨
        ∃ x rest before, w.it.path = x :: rest ∧ keys = before ++ x.key :: remaining ∧
          (w.it.splayCount = w.tree.splayCount → w.reordered = false →
            ∃ l, After w.tree.links w.tree.allocated x rest l ∧ remaining = l.map key)))

variable (it : Iterator K V)

lemma Leads.located {l path : List (Node K V)} (before : List K)
    (hv : Valid C s t) (hkeys : t.keys = before ++ l.map key) (h : Leads s.links s.allocated path l)
    (hcou : it.splayCount ≤ s.splayCount) :
    Located C t.keys ⟨s, { it with path := path, modificationCount := some s.modificationCount },
      false⟩ (l.map key).tail ∧
    (if !path.isEmpty then path.head?.map key else none) = (l.map key).head? := by
  rcases h with ⟨rfl, rfl⟩ | ⟨x, rest, l', rfl, rfl, haft⟩
  · exact ⟨⟨⟨t, hv, rfl⟩, hcou, .inr ⟨rfl, .inl ⟨rfl, rfl⟩⟩⟩, rfl⟩
  · refine ⟨⟨⟨t, hv, rfl⟩, hcou, .inr ⟨rfl, .inr ⟨x, rest, before, rfl, hkeys, ?_⟩⟩⟩, rfl⟩
    exact fun _ _ => ⟨l', haft, rfl⟩

lemma Iterator.advance_located (before : List K) (hv : Valid C s t) (hkeys : t.keys = before ++ l.map key)
    (haft : After s.links s.allocated x rest l) (hpath : it.path = x :: rest)
    (hmod : it.modificationCount = some s.modificationCount) (hcou : it.splayCount ≤ s.splayCount) :
    ∃ path, it.advance s = some (s, { it with path := path }, .returned !path.isEmpty) ∧
      Located C t.keys ⟨s, { it with path := path }, false⟩ (l.map key).tail ∧
      (if !path.isEmpty then path.head?.map key else none) = (l.map key).head? := by
  rcases haft.step with ⟨next, path, hnext, hfind, hlea, hne⟩ | ⟨hnext, hlea⟩
  · refine ⟨path, ?_, ?_⟩
    · simp only [advance, hpath, hnext, hfind]
      cases path with
      | nil => exact absurd rfl hne
      | cons y path => rfl
    · have h := hlea.located it before hv hkeys hcou
      rwa [← hmod] at h
  · refine ⟨leaveRight s.links x rest, ?_, ?_⟩
    · simp only [advance, hpath, hnext]
    · have h := hlea.located it before hv hkeys hcou
      rwa [← hmod] at h

lemma Iterator.rebuildPath_after {before remaining : List K} (hv : Valid C s t)
    (hkeys : t.keys = before ++ x.key :: remaining) :
    ∃ s' u y l, it.rebuildPath C.compare s x.key = some (s', { it with path := [y], splayCount := s'.splayCount }) ∧
      Valid C s' u ∧ u.keys = t.keys ∧ s'.modificationCount = s.modificationCount ∧
      After s'.links s'.allocated y [] l ∧ t.keys = (before ++ [x.key]) ++ l.map key ∧
      remaining = l.map key := by
  have hmem : x.key ∈ t.keys := by
    rw [hkeys]
    simp
  rcases hv.splay_cases x.key with ⟨-, rfl, -⟩ | ⟨s', a, y, b, -, hs, hx⟩
  · exact absurd hmem not_mem_nil
  · have hspl : a.keys ++ y.key :: b.keys = before ++ x.key :: remaining := by
      rw [← hkeys, ← hx.keys, Shape.keys, Shape.keys, Shape.keys, nodes_join]
      simp
    have hna : x.key ∉ a.keys := by
      intro hm
      obtain ⟨z, hz, heq⟩ := mem_map.1 hm
      have hlt := hx.before z hz
      rw [heq, C.self] at hlt
      omega
    have hnb : x.key ∉ b.keys := by
      intro hm
      obtain ⟨z, hz, heq⟩ := mem_map.1 hm
      have hlt := hx.after z hz
      rw [heq, C.self] at hlt
      omega
    obtain ⟨-, -, hrem⟩ := (append_cons_inj_of_notMem hna hnb).1 hspl
    have hsub := hx.valid.subtree
    rw [hx.root] at hsub
    obtain ⟨a', b', hjoin, -, hb, -⟩ := hsub.children
    obtain rfl : b = b' := by
      rw [← join_opp, ← join_opp .left] at hjoin
      exact (join_inj hjoin).1
    refine ⟨s', _, y, b.nodes .left, ?_, hx.valid, hx.keys, hx.modificationCount,
      ⟨b, [], hb, rfl, by simp⟩, ?_, hrem.symm⟩
    · rw [rebuildPath, hs]
      simp [hx.root]
    · rw [hkeys, ← hrem]
      simp [Shape.keys]

lemma moveNext_located {keys remaining : List K} {w : Traversal K V}
    (h : Located C keys w remaining) (hok : PathKept w) :
    ∃ w', traverse tests C.compare w .moveNext = some (w', .moved remaining.head?) ∧ Located C keys w' remaining.tail := by
  obtain ⟨tree, it, reordered⟩ := w
  obtain ⟨⟨t, hv, rfl⟩, hcou, hcase⟩ := h
  dsimp only at hv hcou hcase
  rcases hcase with ⟨hmod, hpath, rfl⟩ | ⟨hmod, ⟨hpath, rfl⟩ | ⟨x, rest, before, hpath, hkeys, hcur⟩⟩
  · -- the first call
    obtain ⟨path, hfind, hlea⟩ : ∃ path,
        findLeftMostDescendent tree.links (tree.allocated + 1) tree.root [] = some path ∧
          Leads tree.links tree.allocated path (t.nodes .left) := by
      cases hroot : tree.root with
      | none =>
        have hrep := hv.rep
        rw [hroot] at hrep
        obtain rfl := hrep.eq_nil
        exact ⟨[], rfl, .inl ⟨rfl, rfl⟩⟩
      | some x =>
        have hsub := hv.subtree
        rw [hroot] at hsub
        obtain ⟨path, hfind, hlea⟩ := findLeftMostDescendent_leads (tree.allocated + 1) hsub
          (show Beyond tree.links tree.allocated x [] [] from rfl) (Nat.le_succ_of_le hsub.2.2)
        rw [append_nil] at hlea
        exact ⟨path, hfind, hlea⟩
    obtain ⟨hloc, hcurr⟩ := hlea.located it [] hv rfl hcou
    refine ⟨_, ?_, hloc⟩
    rw [traverse, moveNext, if_pos (by rw [hmod]; simp), if_pos hmod, hpath, hfind]
    change some (_, Event.moved (if !path.isEmpty then path.head?.map key else none)) = _
    rw [hcurr]
    rfl
  · -- after the last key
    refine ⟨⟨tree, it, false⟩, ?_, ⟨⟨t, hv, rfl⟩, hcou, .inr ⟨hmod, .inl ⟨hpath, rfl⟩⟩⟩⟩
    simp [traverse, moveNext, hmod, hpath]
  · by_cases heq : it.splayCount = tree.splayCount
    · have hre : reordered = false := hok (by rw [hmod]; simp) (by rw [hpath]; simp) heq
      obtain ⟨l, haft, rfl⟩ := hcur heq hre
      obtain ⟨path, hadv, hloc, hcurr⟩ := it.advance_located (before ++ [x.key]) hv
        (by rw [hkeys]; simp) haft hpath hmod hcou
      refine ⟨_, ?_, hloc⟩
      rw [traverse, moveNext, if_neg (by rw [hmod]; simp)]
      simp only [hpath, if_neg (not_not.2 heq), some_bind]
      rw [hadv]
      change some (_, Event.moved (if !path.isEmpty then path.head?.map key else none)) = _
      rw [hcurr]
    · obtain ⟨s', u, y, l, hreb, hu, huke, hmod', haft, hkeys', rfl⟩ := rebuildPath_after it hv hkeys
      obtain ⟨path, hadv, hloc, hcurr⟩ := advance_located
        ⟨[y], it.modificationCount, s'.splayCount⟩ (before ++ [x.key]) hu (huke.trans hkeys')
        haft rfl (hmod.trans (by rw [hmod'])) (Nat.le_refl s'.splayCount)
      rw [huke] at hloc
      refine ⟨_, ?_, hloc⟩
      rw [traverse, moveNext, if_neg (by rw [hmod]; simp)]
      simp only [hpath, if_pos heq, hreb, some_bind]
      rw [hadv]
      change some (_, Event.moved (if !path.isEmpty then path.head?.map key else none)) = _
      rw [hcurr]

lemma call_located {keys remaining : List K} {w : Traversal K V} {op : Op K V}
    (h : Located C keys w remaining) (hop : op.Keeps C keys) :
    ∃ w', traverse tests C.compare w (.call op) = some (w', .called) ∧ Located C keys w' remaining := by
  obtain ⟨⟨t, hv, rfl⟩, hcou, hcase⟩ := h
  obtain ⟨s', out, hs, ⟨u, hu, huke⟩, hmod, hcha⟩ := mapStep_kept tests hv hop
  refine ⟨_, by rw [traverse, hs]; rfl, ⟨u, hu, huke⟩, ?_, ?_⟩
  · dsimp only
    rcases hcha with rfl | hlt | ⟨-, heq, -⟩
    · exact hcou
    · omega
    · omega
  · dsimp only
    rw [hmod]
    rcases hcase with hnew | ⟨hm, hend | ⟨x, rest, before, hpath, hkeys, hcur⟩⟩
    · exact .inl hnew
    · exact .inr ⟨hm, .inl hend⟩
    · refine .inr ⟨hm, .inr ⟨x, rest, before, hpath, hkeys, fun heq hre => ?_⟩⟩
      rw [Bool.or_eq_false_iff] at hre
      rcases hcha with rfl | hlt | ⟨hend, -, hne⟩
      · exact hcur heq hre.1
      · omega
      · rw [hend, Bool.true_and, bne_eq_false_iff_eq] at hre
        exact absurd hre.2 hne

lemma traverse_located {keys : List K} {w : Traversal K V} {remaining : List K} {act : Action K V}
    (h : Located C keys w remaining) (hok : Undisturbed C keys w act) :
    ∃ w' event remaining', traverse tests C.compare w act = some (w', event) ∧
    listSpec remaining act event remaining' ∧ Located C keys w' remaining' := by
  cases act with
  | moveNext =>
    obtain ⟨w', hw, hloc⟩ := moveNext_located h hok
    exact ⟨w', _, _, hw, ⟨rfl, rfl⟩, hloc⟩
  | call op =>
    obtain ⟨w', hw, hloc⟩ := call_located h hok
    exact ⟨w', _, _, hw, ⟨rfl, rfl⟩, hloc⟩

end Moves

theorem iteration_stable (tests : KeyTests K) {C : Comparator K} {s : SplayTree K V} {t : Shape K V} (h : Valid C s t)
    (acts : List (Action K V)) (hok : Along (traverse tests C.compare) (Undisturbed C t.keys) (.start s) acts) :
    t.keys.Pairwise (fun k k' => C.compare k k' < 0) ∧
      ∃ w events remaining, run (traverse tests C.compare) (.start s) acts = some (w, events) ∧
        Specified listSpec t.keys acts events remaining := by
  constructor
  · rw [Shape.keys, pairwise_map]
    exact h.sorted
  · have hstart : Located C t.keys (.start s) t.keys :=
      ⟨⟨t, h, rfl⟩, Nat.le_refl _, .inl ⟨rfl, rfl, rfl⟩⟩
    obtain ⟨w, events, remaining, hrun, hspec, -⟩ :=
      run_simulates (@traverse_located K V C tests t.keys) acts hstart hok
    exact ⟨w, events, remaining, hrun, hspec⟩

def noTests : KeyTests ℤ := ⟨fun _ => false, fun _ => true⟩

/-- The keys 1, 2 and 3, with the last one at the root. -/
def threeKeys : SplayTree ℤ ℤ :=
  (((empty.addNewRoot 1 1 (-1)).addNewRoot 2 2 (-1)).addNewRoot 3 3 (-1))

lemma threeKeys_valid : ∃ t, Valid intComparator threeKeys t ∧ t.keys = [1, 2, 3] := by
  have hone := valid_empty.addNewRoot_nil (C := intComparator) (1 : ℤ) (1 : ℤ) (-1)
  have htwo : Valid intComparator (((empty : SplayTree ℤ ℤ).addNewRoot 1 1 (-1)).addNewRoot 2 2 (-1)) _ :=
    hone.addNewRoot 2 rfl (by decide) (by decide)
  have hthree : Valid intComparator threeKeys _ := htwo.addNewRoot 3 rfl (by decide) (by decide)
  exact ⟨_, hthree, by decide⟩

/-- A lookup moves the key 1 to the root, `last` the key 3, and an assignment the key 1 again. -/
theorem iteration_stable_three : ∃ w events remaining, run (traverse noTests intComparator.compare) (.start threeKeys)
      [.moveNext, .call (.get 1), .moveNext, .call .last, .call (.set 1 8), .moveNext, .moveNext] = some (w, events) ∧
    Specified listSpec [1, 2, 3]
      [.moveNext, .call (.get 1), .moveNext, .call .last, .call (.set 1 8), .moveNext, .moveNext] events remaining := by
  obtain ⟨t, hvalid, hkeys⟩ := threeKeys_valid
  rw [← hkeys]
  refine (iteration_stable noTests hvalid _ ?_).2
  rw [hkeys]
  refine ⟨fun h => absurd rfl h, fun w₁ e₁ h₁ => ?_⟩
  cases h₁
  refine ⟨trivial, fun w₂ e₂ h₂ => ?_⟩
  cases h₂
  refine ⟨fun _ _ _ => rfl, fun w₃ e₃ h₃ => ?_⟩
  cases h₃
  refine ⟨trivial, fun w₄ e₄ h₄ => ?_⟩
  cases h₄
  refine ⟨⟨1, by simp, rfl⟩, fun w₅ e₅ h₅ => ?_⟩
  cases h₅
  refine ⟨fun _ _ h => absurd h (by decide), fun w₆ e₆ h₆ => ?_⟩
  cases h₆
  exact ⟨fun _ _ _ => rfl, fun _ _ _ => trivial⟩

theorem iteration_disturbed : ((run (mapStep noTests intComparator.compare) empty [.set 1 1, .set 2 2]).bind fun r =>
    (run (traverse noTests intComparator.compare) (.start r.1)
      [.moveNext, .call .firstKey, .moveNext, .moveNext, .moveNext]).map Prod.snd) =
    some [.moved (some 1), .called, .moved (some 2), .moved (some 2), .moved none] := by
  decide

end DartSdk.Splay
