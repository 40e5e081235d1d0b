import DartSdk.Library.Simulation
import DartSdk.Splay.Splaying
import Mathlib.Data.List.Perm.Subperm

namespace DartSdk.Splay
open Option Shape Links Side SplayTree Splaying
open Shape List
variable {K V : Type} {C : Comparator K}
variable {a b : Shape K V} {σ : Side}

section
variable {key : K} {all : List (Node K V)} {s : Splaying K V}

lemma assemble_current (σ : Side) (s : Splaying K V) : (s.assemble σ).current = s.current := by
  rw [assemble]
  split <;> rfl

lemma assemble_spine (σ : Side) (s : Splaying K V) : (s.assemble σ).spine = s.spine := by
  rw [assemble]
  split <;> rfl

lemma assemble_newTree (σ : Side) (s : Splaying K V) : (s.assemble σ).newTree = s.newTree := by
  rw [assemble]
  split <;> rfl

lemma assemble_comp (σ : Side) (s : Splaying K V) : (s.assemble σ).comp = s.comp := by
  rw [assemble]
  split <;> rfl

lemma assemble_links (σ : Side) (s : Splaying K V) : (s.assemble σ).links = match s.spine σ with
    | none => s.links
    | some last =>
      (s.links.set σ.opp last (s.links σ s.current.id)).set σ s.current (s.newTree σ) := by
  rw [assemble]
  cases s.spine σ <;> rfl

lemma join_inj {a b a' b' : Shape K V} {x y : Node K V}
    (h : Shape.join σ a x b = .join σ a' y b') : a = a' ∧ x = y ∧ b = b' := by
  injection h with hx hsub
  refine ⟨?_, hx, ?_⟩
  · have := congrFun hsub σ
    rwa [if_pos rfl, if_pos rfl] at this
  · have := congrFun hsub σ.opp
    rwa [if_neg σ.opp_ne, if_neg σ.opp_ne] at this

variable {near far : List (Node K V)}

lemma Inv.keys (h : Inv C key σ all s (.join σ a s.current b) near far)
    (hend : σ.follows (C.compare s.current.key key) → a = .nil) :
    ∀ y ∈ near ++ a.nodes σ, σ.opp.follows (C.compare y.key key) := by
  intro y hy
  rcases mem_append.1 hy with hy | hy
  · exact h.nearKeys y hy
  · have hs := h.sorted_current
    rw [nodes_join] at hs
    have hyc := (pairwise_append.1 hs).2.2 y hy s.current mem_cons_self
    have hnf : ¬ σ.follows (C.compare s.current.key key) := by
      intro hf
      rw [hend hf] at hy
      simp [nodes] at hy
    cases σ with
    | left => exact C.lt_of_lt_of_le hyc (Int.not_lt.1 hnf)
    | right =>
      have h2 := C.flip s.current.key y.key
      have hle : C.compare key s.current.key ≤ 0 := by
        have := C.flip s.current.key key
        change ¬ _ < 0 at hnf
        omega
      exact (C.flip key y.key).1 (C.lt_of_le_of_lt hle (h2.2 hyc))

lemma Inv.assembled (h : Inv C key σ all s (.join σ a s.current b) near far) :
    ∃ w w', w.nodes σ = near ++ a.nodes σ ∧ w'.nodes σ.opp = far ++ b.nodes σ.opp ∧
    Rep ((s.assemble σ).assemble σ.opp).links (some s.current) (.join σ w s.current w') := by
  obtain ⟨w, hw, hrep, hspi⟩ := h.assemble
  have h' : Inv C key σ all { s with
        links := (s.assemble σ).links
        spine := fun τ => if τ = σ then none else s.spine τ
        newTree := fun τ => if τ = σ then none else s.newTree τ }
      (.join σ w s.current b) [] far := {
    distinct := h.distinct
    sorted := h.sorted
    current := hrep
    nearSpine := by
      simp only [if_pos]
      exact ⟨rfl, rfl⟩
    farSpine := by
      simp only [if_neg σ.opp_ne]
      exact hspi
    order := by
      rw [← h.order, nodes_join, nodes_join, hw]
      simp
    nearKeys := by simp
    farKeys := h.farKeys }
  have hflip := h'.flip
  rw [← join_opp] at hflip
  obtain ⟨w', hw', hrep', -⟩ := hflip.assemble
  refine ⟨w, w', hw, hw', ?_⟩
  rw [← join_opp]
  have hlin : ((s.assemble σ).assemble σ.opp).links = (Splaying.assemble σ.opp { s with
        links := (s.assemble σ).links
        spine := fun τ => if τ = σ then none else s.spine τ
        newTree := fun τ => if τ = σ then none else s.newTree τ }).links := by
    rw [assemble_links σ.opp, assemble_links σ.opp, assemble_current, assemble_spine, assemble_newTree]
    simp only [if_neg σ.opp_ne]
  rw [hlin]
  exact hrep'

end

section

structure Valid (C : Comparator K) (s : SplayTree K V) (t : Shape K V) : Prop where
  rep : Rep s.links s.root t
  distinct : Distinct (t.nodes .left)
  allocated : ∀ x ∈ t.nodes .left, x.id < s.allocated
  sorted : Sorted C .left (t.nodes .left)
  count : s.count = (t.nodes .left).length

variable {s : SplayTree K V} {t : Shape K V}

lemma valid_empty : Valid C (empty : SplayTree K V) .nil where
  rep := rfl
  distinct := nodup_nil
  allocated := by simp [nodes]
  sorted := List.Pairwise.nil
  count := rfl

lemma Valid.length_le (h : Valid C s t) : (t.nodes .left).length ≤ s.allocated := by
  have hsub : (t.nodes .left).map Node.id ⊆ List.range s.allocated := by
    intro i hi
    obtain ⟨x, hx, rfl⟩ := mem_map.1 hi
    exact mem_range.2 (h.allocated x hx)
  have hle := (subperm_of_subset h.distinct hsub).length_le
  rwa [length_map, length_range] at hle

structure Splayed (C : Comparator K) (key : K) (s s' : SplayTree K V) (t : Shape K V)
    (a : Shape K V) (x : Node K V) (b : Shape K V) : Prop where
  valid : Valid C s' (.join .left a x b)
  nodes : (join .left a x b).nodes .left = t.nodes .left
  root : s'.root = some x
  before : ∀ y ∈ a.nodes .left, C.compare y.key key < 0
  after : ∀ y ∈ b.nodes .left, 0 < C.compare y.key key
  modificationCount : s'.modificationCount = s.modificationCount
  allocated : s'.allocated = s.allocated
  changed : s' = s ∨ s'.splayCount = s.splayCount + 1

lemma Valid.splay_nil (h : Valid C s t) (hroot : s.root = none) (key : K) :
    t = .nil ∧ s.splay C.compare key = some (s, -1) := by
  have hrep := h.rep
  rw [hroot] at hrep
  refine ⟨hrep.eq_nil, ?_⟩
  rw [splay, hroot]

lemma Valid.splay {root : Node K V} (h : Valid C s t) (hroot : s.root = some root) (key : K) :
    ∃ s' a x b, s.splay C.compare key = some (s', C.compare x.key key) ∧ Splayed C key s s' t a x b := by
  have hrep := h.rep
  rw [hroot] at hrep
  have hsta : Between C key (t.nodes .left)
      { links := s.links, current := root, spine := fun _ => none, newTree := fun _ => none,
        comp := 0 } t :=
    ⟨[], [], h.distinct, h.sorted, hrep, ⟨rfl, rfl⟩, ⟨rfl, rfl⟩, by simp, by simp, by simp⟩
  obtain ⟨r, t', hloop, ⟨near, far, hr⟩, hcomp, hfin, hend⟩ := hsta.loop (s.allocated + 1)
    (Nat.lt_succ_of_le h.length_le)
  obtain ⟨a, b, rfl, -, -⟩ := hr.current.eq_join .left
  obtain ⟨w, w', hw, hw', hlin⟩ := hr.assembled
  have hnod : (join .left w r.current w').nodes .left = t.nodes .left := by
    have hw'' : w'.nodes .left = b.nodes .left ++ far.reverse := by
      rw [show left = left.opp.opp from rfl, nodes_opp, hw', nodes_opp]
      simp
    rw [nodes_join, hw, hw'', ← hr.order, nodes_join]
    simp
  have hbef : ∀ y ∈ w.nodes .left, C.compare y.key key < 0 := by
    rw [hw]
    apply hr.keys
    intro hf
    obtain ⟨b', hb'⟩ := hfin .left (hcomp ▸ hf)
    exact (join_inj hb').1
  have haft : ∀ y ∈ w'.nodes .left, 0 < C.compare y.key key := by
    have hflip := hr.flip
    rw [← join_opp] at hflip
    intro y hy
    rw [mem_nodes .left left.opp, hw'] at hy
    refine hflip.keys (fun hf => ?_) y hy
    obtain ⟨a', ha'⟩ := hfin .right (hcomp ▸ hf)
    rw [← join_opp] at ha'
    exact (join_inj ha').1
  have hbou : ∀ x ∈ (join .left w r.current w').nodes .left, x.id < s.allocated := by
    rw [hnod]
    exact h.allocated
  have hcou : s.count = ((join .left w r.current w').nodes .left).length := by
    rw [hnod]
    exact h.count
  have hrco : ((r.assemble .left).assemble .right).comp = C.compare r.current.key key := by
    rw [assemble_comp, assemble_comp, hcomp]
  have hrcur : ((r.assemble .left).assemble .right).current = r.current := by rw [assemble_current, assemble_current]
  rw [SplayTree.splay, hroot]
  simp only [hloop, some_bind, hrco, hrcur]
  rcases hend with hsame | ⟨-, hne⟩
  · have hcur : r.current = root := by rw [hsame]
    have hsame' : ((r.assemble .left).assemble .right).links = s.links := by
      rw [hsame]
      rfl
    rw [if_neg (by rw [hcur]; simp), hsame']
    rw [show left.opp = right from rfl, hsame', hcur] at hlin
    refine ⟨s, w, r.current, w', by rw [← hroot], ⟨?_, ?_, hbou, ?_, hcou⟩, hnod, ?_, hbef, haft, rfl, rfl, .inl rfl⟩
    · rw [hroot, hcur]
      exact hlin
    · rw [hnod]
      exact h.distinct
    · rw [hnod]
      exact h.sorted
    · rw [hroot, hcur]
  · rw [if_pos (Ne.symm hne)]
    refine ⟨_, w, r.current, w', rfl, ⟨hlin, ?_, hbou, ?_, hcou⟩, hnod, rfl, hbef, haft, rfl, rfl, .inr rfl⟩
    · rw [hnod]
      exact h.distinct
    · rw [hnod]
      exact h.sorted

end

section Roots
variable {s : SplayTree K V} {t : Shape K V}

lemma Valid.side (h : Valid C s t) (σ : Side) :
    Distinct (t.nodes σ) ∧ Sorted C σ (t.nodes σ) ∧ (∀ x ∈ t.nodes σ, x.id < s.allocated) ∧
    s.count = (t.nodes σ).length := by
  cases σ with
  | left => exact ⟨h.distinct, h.sorted, h.allocated, h.count⟩
  | right =>
    rw [show right = left.opp from rfl, nodes_opp]
    refine ⟨distinct_reverse.2 h.distinct, sorted_reverse.2 h.sorted, ?_, ?_⟩
    · exact fun x hx => h.allocated x (mem_reverse.1 hx)
    · rw [length_reverse, h.count]

lemma valid_of_side (σ : Side) (hrep : Rep s.links s.root t) (hd : Distinct (t.nodes σ))
    (hs : Sorted C σ (t.nodes σ)) (hal : ∀ x ∈ t.nodes σ, x.id < s.allocated)
    (hcou : s.count = (t.nodes σ).length) : Valid C s t := by
  cases σ with
  | left => exact ⟨hrep, hd, hal, hs, hcou⟩
  | right =>
    have hl : t.nodes .left = (t.nodes .right).reverse := nodes_opp .right t
    refine ⟨hrep, ?_, ?_, ?_, ?_⟩
    · rw [hl]
      exact distinct_reverse.2 hd
    · rw [hl]
      exact fun x hx => hal x (mem_reverse.1 hx)
    · rw [hl]
      exact sorted_reverse.2 hs
    · rw [hl, length_reverse, hcou]

variable {links : Links K V}
variable {n x : Node K V} {l l' : List (Node K V)} {comp : ℤ} {key : K} {s1 : SplayTree K V}

lemma fresh_frame {c c' : Option (Node K V)} (hx : x.id ≠ n.id) (τ : Side) :
    ((links.set .left n c).set .right n c') τ x.id = links τ x.id := by
  rw [set_of_ne hx, set_of_ne hx]

lemma rep_replaced (h : Rep links (some x) (.join .left a x b))
    (hfre : ∀ y ∈ (join .left a x b).nodes .left, y.id ≠ n.id) :
    Rep ((links.set .left n (links .left x.id)).set .right n (links .right x.id)) (some n) (.join .left a n b) := by
  obtain ⟨-, ha, hb⟩ := (rep_join .left).1 h
  rw [rep_join]
  refine ⟨rfl, ?_, ?_⟩
  · rw [set_of_side (by decide), set_self]
    apply ha.congr .left
    exact fun y hy => fresh_frame (hfre y ((mem_join .left .left).2 (.inl hy)))
  · rw [show left.opp = right from rfl, set_self]
    apply hb.congr .left
    exact fun y hy => fresh_frame (hfre y ((mem_join .left .left).2 (.inr (.inr hy))))

lemma rep_newRoot (h : Rep links (some x) (.join σ a x b)) (hd : Distinct ((join σ a x b).nodes σ))
    (hfre : ∀ y ∈ (join σ a x b).nodes σ, y.id ≠ n.id) :
    Rep (((links.set σ n (some x)).set σ.opp n (links σ.opp x.id)).set σ.opp x none) (some n)
    (.join σ (.join σ a x .nil) n b) := by
  obtain ⟨-, ha, hb⟩ := (rep_join σ).1 h
  obtain ⟨hxa, hxb, -⟩ := hd.join
  have hxn : x.id ≠ n.id := hfre x ((mem_join σ σ).2 (.inr (.inl rfl)))
  have hfra : ∀ y : Node K V, y.id ≠ x.id → y.id ≠ n.id → ∀ τ,
      (((links.set σ n (some x)).set σ.opp n (links σ.opp x.id)).set σ.opp x none) τ y.id = links τ y.id := by
    intro y hyx hyn τ
    rw [set_of_ne hyx, set_of_ne hyn, set_of_ne hyn]
  rw [rep_join]
  refine ⟨rfl, ?_, ?_⟩
  · rw [set_of_ne hxn.symm, set_of_side σ.opp_ne.symm, set_self, rep_join]
    refine ⟨rfl, ?_, ?_⟩
    · rw [set_of_side σ.opp_ne.symm, set_of_ne hxn, set_of_ne hxn]
      apply ha.congr σ
      exact fun y hy => hfra y (hxa y hy) (hfre y ((mem_join σ σ).2 (.inl hy)))
    · rw [set_self]
      rfl
  · rw [set_of_ne hxn.symm, set_self]
    apply hb.congr σ
    exact fun y hy => hfra y (hxb y hy) (hfre y ((mem_join σ σ).2 (.inr (.inr hy))))

lemma distinct_middle (h : Distinct (l ++ l')) (hfre : ∀ y ∈ l ++ l', y.id ≠ n.id) : Distinct (l ++ n :: l') := by
  rw [Distinct, map_append, map_cons, nodup_middle, nodup_cons, ← map_append]
  refine ⟨fun hmem => ?_, h⟩
  obtain ⟨y, hy, hid⟩ := mem_map.1 hmem
  exact hfre y hy hid

lemma sorted_middle (h : Sorted C σ (l ++ l')) (hl : ∀ y ∈ l, σ.opp.follows (C.compare y.key n.key))
    (hl' : ∀ y ∈ l', σ.opp.follows (C.compare n.key y.key)) : Sorted C σ (l ++ n :: l') := by
  rw [Sorted, pairwise_append] at h ⊢
  refine ⟨h.1, pairwise_cons.2 ⟨hl', h.2.1⟩, fun y hy z hz => ?_⟩
  rcases mem_cons.1 hz with rfl | hz
  · exact hl y hy
  · exact h.2.2 y hy z hz

variable {x : Node K V}

lemma Valid.replaceValue (h : Valid C s (.join .left a x b)) (value : V) : ∃ s', s.replaceValue value = some s' ∧
    Valid C s' (.join .left a ⟨s.allocated, x.key, value⟩ b) ∧
    s'.modificationCount = s.modificationCount ∧ s'.splayCount = s.splayCount + 1 := by
  obtain ⟨hroot, -, -⟩ := (rep_join .left).1 h.rep
  have hrep := h.rep
  rw [hroot] at hrep
  have hfre : ∀ y ∈ (join .left a x b).nodes .left, y.id ≠ s.allocated := fun y hy => Nat.ne_of_lt (h.allocated y hy)
  have hd := h.distinct
  have hs := h.sorted
  have hal := h.allocated
  have hc := h.count
  rw [nodes_join] at hd hs hal hc hfre
  have hsub : ∀ y ∈ a.nodes .left ++ b.nodes .left, y ∈ a.nodes .left ++ x :: b.nodes .left := by
    intro y hy
    simp only [mem_append] at hy ⊢
    tauto
  have hsub' := (sublist_cons_self x (b.nodes .left)).append_left (a.nodes .left)
  have heq := replaceValue.eq_1 s value
  rw [hroot] at heq
  refine ⟨_, heq, ⟨rep_replaced hrep ?_, ?_, ?_, ?_, ?_⟩, rfl, rfl⟩
  · rwa [nodes_join]
  · exact distinct_middle (hd.sublist (hsub'.map _)) fun y hy => hfre y (hsub y hy)
  · rw [nodes_join]
    intro y hy
    simp only [mem_append, mem_cons] at hy
    rcases hy with hy | rfl | hy
    · exact Nat.lt_succ_of_lt (hal y (by simp [hy]))
    · exact Nat.lt_succ_self _
    · exact Nat.lt_succ_of_lt (hal y (by simp [hy]))
  · have hs' := pairwise_append.1 hs
    exact sorted_middle (hs.sublist hsub') (fun y hy => hs'.2.2 y hy x mem_cons_self) (pairwise_cons.1 hs'.2.1).1
  · rw [nodes_join, length_append]
    rw [length_append] at hc
    exact hc

lemma Valid.addNewRoot (h : Valid C s (.join σ a x b)) (value : V) (hσ : (if comp < 0 then left else right) = σ)
    (hl : ∀ y ∈ (join σ a x .nil).nodes σ, σ.opp.follows (C.compare y.key key))
    (hr : ∀ y ∈ b.nodes σ, σ.opp.follows (C.compare key y.key)) : Valid C (s.addNewRoot key value comp)
      (.join σ (.join σ a x .nil) ⟨s.allocated, key, value⟩ b) := by
  obtain ⟨hroot, -, -⟩ := (rep_join σ).1 h.rep
  obtain ⟨hd, hs, hal, hc⟩ := h.side σ
  have heq := addNewRoot.eq_1 s key value comp
  simp only [hroot, hσ] at heq
  have hfre : ∀ y ∈ (join σ a x b).nodes σ, y.id ≠ s.allocated := fun y hy => Nat.ne_of_lt (hal y hy)
  have hrep : Rep ((s.links.set .left ⟨s.allocated, key, value⟩ none).set .right
      ⟨s.allocated, key, value⟩ none) (some x) (.join σ a x b) := by
    rw [← hroot]
    exact h.rep.congr σ fun y hy => fresh_frame (hfre y hy)
  have hnod : (join σ a x b).nodes σ = (join σ a x .nil).nodes σ ++ b.nodes σ := by
    rw [nodes_join, nodes_join, append_assoc]
    rfl
  rw [heq]
  apply valid_of_side σ
  · exact rep_newRoot hrep hd hfre
  · rw [nodes_join]
    rw [hnod] at hd hfre
    exact distinct_middle hd hfre
  · rw [nodes_join]
    rw [hnod] at hs
    exact sorted_middle hs hl hr
  · rw [nodes_join]
    rw [hnod] at hal
    intro y hy
    simp only [mem_append, mem_cons] at hy hal
    rcases hy with hy | rfl | hy
    · exact Nat.lt_succ_of_lt (hal y (.inl hy))
    · exact Nat.lt_succ_self _
    · exact Nat.lt_succ_of_lt (hal y (.inr hy))
  · rw [nodes_join, length_append, length_cons]
    rw [hnod, length_append] at hc
    dsimp only
    omega

lemma rep_single (links : Links K V) (n : Node K V) :
    Rep ((links.set .left n none).set .right n none) (some n) (.join .left .nil n .nil) := by
  rw [rep_join, set_of_side (by decide), set_self,
    show left.opp = right from rfl, set_self]
  exact ⟨rfl, rfl, rfl⟩

lemma Valid.addNewRoot_nil (h : Valid C s .nil) (key : K) (value : V) (comp : ℤ) :
    Valid C (s.addNewRoot key value comp) (.join .left .nil ⟨s.allocated, key, value⟩ .nil) := by
  have hroot : s.root = none := h.rep
  have heq := addNewRoot.eq_1 s key value comp
  simp only [hroot] at heq
  rw [heq]
  have hc : s.count = 0 := h.count
  refine ⟨?_, ?_, ?_, ?_, ?_⟩
  · exact rep_single s.links ⟨s.allocated, key, value⟩
  · exact nodup_singleton _
  · intro y hy
    obtain rfl := mem_singleton.1 hy
    exact Nat.lt_succ_self _
  · exact pairwise_singleton _ _
  · change s.count + 1 = 1
    omega

lemma Valid.remove (hs : s.splay C.compare key = some (s1, 0)) (hroot : s.root ≠ none)
    (h : Valid C s1 (.join .left a x b)) : ∃ s' u, s.remove C.compare key = some (s', some x.value) ∧ Valid C s' u ∧
    u.nodes .left = a.nodes .left ++ b.nodes .left := by
  obtain ⟨hx, ha, hb⟩ := (rep_join .left).1 h.rep
  have hd := h.distinct
  have hsort := h.sorted
  have hal := h.allocated
  have hc := h.count
  rw [nodes_join] at hd hsort hal hc
  have hsub := (sublist_cons_self x (b.nodes .left)).append_left (a.nodes .left)
  have hlen : s1.count - 1 = (a.nodes .left ++ b.nodes .left).length := by
    rw [length_append, length_cons] at hc
    rw [length_append]
    omega
  have heq := remove.eq_1 C.compare s key
  simp only [if_neg hroot, hs, some_bind, hx] at heq
  cases hl : s1.links .left x.id with
  | none =>
    rw [hl] at ha heq
    obtain rfl := ha.eq_nil
    exact ⟨_, b, heq, ⟨hb, hd.sublist (hsub.map _), fun y hy => hal y (hsub.subset hy), hsort.sublist hsub, hlen⟩, rfl⟩
  | some l =>
    rw [hl] at ha heq
    obtain ⟨a2, a1, rfl, -, -⟩ := ha.eq_join .right
    have hdl : Distinct ((join .right a2 l a1).nodes .right) := by
      rw [show right = left.opp from rfl, nodes_opp]
      exact distinct_reverse.2 hd.left
    have hfuel : (a2.nodes .right).length < s1.allocated + 1 := by
      have hle := h.length_le
      rw [nodes_join, length_append, ← length_reverse, ← nodes_opp,
        show left.opp = right from rfl, nodes_join, length_append] at hle
      omega
    obtain ⟨links', y, c, hend, hrep, hnod, hfra, -⟩ := splayEnd_spec .right (s1.allocated + 1) ha hdl hfuel
    simp only [hend] at heq
    have hsame : (join .right .nil y c).nodes .left = (join .right a2 l a1).nodes .left := nodes_eq_of_side hnod .left
    rw [← hsame] at hd hsort hal hc hsub hlen ⊢
    have hdl' : Distinct (c.nodes .left ++ y :: []) := hd.left
    obtain ⟨hcy, -, -⟩ := (by rwa [nodes_join] : Distinct ((join .left c y .nil).nodes .left)).join
    obtain ⟨-, -, hrc⟩ := (rep_join .right).1 hrep
    have hny : ∀ z ∈ b.nodes .left, z.id ≠ y.id := fun z hz =>
      (hd.ne (l := c.nodes .left ++ [y]) (by simp) (mem_cons_of_mem x hz)).symm
    have hu : (join .left c y b).nodes .left = c.nodes .left ++ [y] ++ b.nodes .left := by
      rw [append_assoc]
      rfl
    refine ⟨_, .join .left c y b, heq, ⟨?_, ?_, ?_, ?_, ?_⟩, hu⟩
    · rw [rep_join]
      dsimp only
      refine ⟨rfl, ?_, ?_⟩
      · exact hrc.congr .left fun z hz τ => set_of_ne (hcy z hz)
      · rw [show left.opp = right from rfl, set_self]
        apply hb.congr .left
        intro z hz τ
        rw [set_of_ne (hny z hz), hfra]
        intro w hw
        rw [mem_nodes .right .left, ← hsame] at hw
        exact hd.ne hw (mem_cons_of_mem x hz)
    · rw [hu]
      exact hd.sublist (hsub.map _)
    · rw [hu]
      exact fun z hz => hal z (hsub.subset hz)
    · rw [hu]
      exact hsort.sublist hsub
    · rw [hu]
      exact hlen

lemma Valid.endNode (h : Valid C s t) (σ : Side) : ∃ s' u, s.endNode σ = some (s', (t.nodes σ).head?) ∧ Valid C s' u ∧
    u.nodes .left = t.nodes .left ∧ s'.modificationCount = s.modificationCount ∧ s'.splayCount = s.splayCount ∧
    (s' = s ∨ s'.root.map Node.id ≠ s.root.map Node.id) := by
  cases hroot : s.root with
  | none =>
    have hrep := h.rep
    rw [hroot] at hrep
    obtain rfl := hrep.eq_nil
    refine ⟨s, .nil, ?_, h, rfl, rfl, rfl, .inl rfl⟩
    rw [endNode, hroot]
    rfl
  | some x =>
    have hrep := h.rep
    rw [hroot] at hrep
    obtain ⟨a, b, rfl, -, -⟩ := hrep.eq_join σ
    obtain ⟨hd, hs, hal, hc⟩ := h.side σ
    have hfuel : (a.nodes σ).length < s.allocated + 1 := by
      have hle := h.length_le
      have hlen : ((join σ a x b).nodes .left).length = ((join σ a x b).nodes σ).length := by
        have := h.count
        omega
      rw [hlen, nodes_join, length_append] at hle
      omega
    obtain ⟨links', y, c, hend, hrep', hnod, -, hcase⟩ := splayEnd_spec σ (s.allocated + 1) hrep hd hfuel
    have heq := endNode.eq_1 σ s
    simp only [hroot, hend, some_bind] at heq
    have hhead : ((join σ a x b).nodes σ).head? = some y := by
      rw [← hnod, nodes_join]
      rfl
    rw [hhead]
    refine ⟨_, .join σ .nil y c, heq, valid_of_side σ hrep' ?_ ?_ ?_ ?_, ?_, rfl, rfl, ?_⟩
    · rw [hnod]
      exact hd
    · rw [hnod]
      exact hs
    · rw [hnod]
      exact hal
    · rw [hnod]
      exact hc
    · exact nodes_eq_of_side hnod .left
    · rcases hcase with ⟨rfl, rfl⟩ | hmem
      · left
        rw [← hroot]
      · right
        obtain ⟨hne, -, -⟩ := hd.join
        exact fun heq => hne y hmem (Option.some.inj heq)

lemma Valid.neighbour
    (σ : Side) (hs : s.splay C.compare key = some (s1, comp)) (hroot : s.root ≠ none) (h : Valid C s1 (.join σ a x b)) :
    s.neighbour C.compare σ key = some (s1,
      if σ.opp.follows comp then some x.key else (a.nodes σ).getLast?.map Node.key) := by
  obtain ⟨hx, ha, -⟩ := (rep_join σ).1 h.rep
  rw [SplayTree.neighbour, if_neg hroot, hs]
  simp only [some_bind, hx]
  by_cases hf : σ.opp.follows comp
  · rw [if_pos hf, if_pos hf]
  · rw [if_neg hf, if_neg hf]
    cases hl : s1.links σ x.id with
    | none =>
      rw [hl] at ha
      rw [ha.eq_nil]
      rfl
    | some l =>
      rw [hl] at ha
      have hfuel : (a.nodes σ.opp).length ≤ s1.allocated + 1 := by
        have hle := h.length_le
        have hlen := (h.side σ).2.2.2
        have := h.count
        rw [nodes_join, length_append] at hlen
        rw [nodes_opp, length_reverse]
        omega
      dsimp only
      rw [endOf_spec σ.opp _ ha hfuel, nodes_opp, List.head?_reverse]
      obtain ⟨a1, a2, rfl, -, -⟩ := ha.eq_join σ
      rw [nodes_join, List.getLast?_eq_some_getLast (by simp)]
      rfl

end Roots
end DartSdk.Splay
