import DartSdk.Splay.Shape

namespace DartSdk.Splay
open Shape List Splaying Links Side
variable {K V : Type}

structure Comparator (K : Type) where
  compare : K → K → ℤ
  flip : ∀ a b, compare a b < 0 ↔ 0 < compare b a
  trans : ∀ {a b c}, compare a b ≤ 0 → compare b c ≤ 0 → compare a c ≤ 0

namespace Comparator
variable (C : Comparator K) {a b c : K}

lemma self (a : K) : C.compare a a = 0 := by
  have := C.flip a a
  omega

lemma lt_of_lt_of_le (h : C.compare a b < 0) (h' : C.compare b c ≤ 0) : C.compare a c < 0 := by
  by_contra hn
  have hca : C.compare c a ≤ 0 := by
    have := C.flip a c
    omega
  have hba := C.trans h' hca
  have := C.flip a b
  omega

lemma lt_of_le_of_lt (h : C.compare a b ≤ 0) (h' : C.compare b c < 0) : C.compare a c < 0 := by
  by_contra hn
  have hca : C.compare c a ≤ 0 := by
    have := C.flip a c
    omega
  have hcb := C.trans hca h
  have := C.flip b c
  omega

lemma follows_trans (σ : Side) (h : σ.follows (C.compare b c)) (h' : σ.opp.follows (C.compare b a)) :
    σ.follows (C.compare a c) := by
  have h1 := C.flip a b
  have h3 := C.flip c b
  have h5 := C.flip c a
  cases σ with
  | left =>
    have hc : C.compare c a < 0 := C.lt_of_lt_of_le (h3.2 h) (Int.le_of_lt h')
    exact h5.1 hc
  | right => exact C.lt_of_lt_of_le (h1.2 h') (Int.le_of_lt h)

end Comparator

def Sorted (C : Comparator K) (σ : Side) (l : List (Node K V)) : Prop :=
  l.Pairwise fun x y => σ.opp.follows (C.compare x.key y.key)

variable {σ : Side}

lemma sorted_reverse {C : Comparator K} {l : List (Node K V)} : Sorted C σ.opp l.reverse ↔ Sorted C σ l := by
  rw [Sorted, pairwise_reverse]
  constructor <;> intro h <;> apply h.imp <;> intro x y hxy <;> cases σ
  · exact (C.flip x.key y.key).2 hxy
  · exact (C.flip y.key x.key).1 hxy
  · exact (C.flip x.key y.key).1 hxy
  · exact (C.flip y.key x.key).2 hxy

def Spine (links : Links K V) (σ : Side) (first last : Option (Node K V)) (xs : List (Node K V)) :
    Prop :=
  match last with
  | none => first = none ∧ xs = []
  | some z => z ∈ xs ∧ ∀ (links' : Links K V) u, (∀ x ∈ xs, links' σ x.id = links σ x.id) →
      (∀ x ∈ xs, x.id ≠ z.id → links' σ.opp x.id = links σ.opp x.id) →
      Rep links' (links' σ.opp z.id) u → ∃ w, Rep links' first w ∧ w.nodes σ = xs ++ u.nodes σ

lemma Spine.congr {links links' : Links K V} {first last : Option (Node K V)}
    {xs : List (Node K V)} (h : Spine links σ first last xs)
    (heq : ∀ x ∈ xs, ∀ τ, links' τ x.id = links τ x.id) : Spine links' σ first last xs := by
  cases last with
  | none => exact h
  | some z =>
    refine ⟨h.1, fun links'' u hside hopp hu => h.2 links'' u (fun x hx => ?_) (fun x hx hne => ?_) hu⟩
    · rw [hside x hx, heq x hx]
    · rw [hopp x hx hne, heq x hx]

lemma Splaying.descend_rotate {compare : K → K → ℤ} {key : K} {s : Splaying K V}
    {child : Node K V} (hl : s.links σ s.current.id = some child) (hc : σ.follows (compare child.key key)) :
    descend compare key σ s =
      match (rotate σ { s with comp := compare child.key key } child).links σ child.id with
      | none => (rotate σ { s with comp := compare child.key key } child, true)
      | some next =>
        ((rotate σ { s with comp := compare child.key key } child).link σ next, false) := by
  rw [descend, hl]
  exact if_pos hc

structure Inv (C : Comparator K) (key : K) (σ : Side) (all : List (Node K V)) (s : Splaying K V)
    (t : Shape K V) (near far : List (Node K V)) : Prop where
  distinct : Distinct all
  sorted : Sorted C σ all
  current : Rep s.links (some s.current) t
  nearSpine : Spine s.links σ (s.newTree σ) (s.spine σ) near
  farSpine : Spine s.links σ.opp (s.newTree σ.opp) (s.spine σ.opp) far
  order : near ++ (t.nodes σ ++ far.reverse) = all
  nearKeys : ∀ x ∈ near, σ.opp.follows (C.compare x.key key)
  farKeys : ∀ x ∈ far, σ.follows (C.compare x.key key)

namespace Inv
variable {C : Comparator K} {key : K} {σ : Side} {all : List (Node K V)} {s : Splaying K V}
  {t : Shape K V} {near far : List (Node K V)}

lemma flip (h : Inv C key σ all s t near far) : Inv C key σ.opp all.reverse s t far near where
  distinct := distinct_reverse.2 h.distinct
  sorted := sorted_reverse.2 h.sorted
  current := h.current
  nearSpine := h.farSpine
  farSpine := by
    rw [opp_opp]
    exact h.nearSpine
  order := by
    rw [← h.order, nodes_opp]
    simp
  nearKeys := by
    rw [opp_opp]
    exact h.farKeys
  farKeys := h.nearKeys

section
variable (h : Inv C key σ all s t near far)
include h

variable {x y : Node K V}

lemma near_ne (hx : x ∈ near) (hy : y ∈ t.nodes σ ∨ y ∈ far) : x.id ≠ y.id := by
  have hd := h.distinct
  rw [← h.order] at hd
  apply hd.ne hx
  simpa using hy

lemma far_ne (hx : x ∈ far) (hy : y ∈ t.nodes σ) : x.id ≠ y.id := by
  have hd := h.distinct
  rw [← h.order] at hd
  exact (hd.right.ne hy (mem_reverse.2 hx)).symm

lemma distinct_current : Distinct (t.nodes σ) := by
  have hd := h.distinct
  rw [← h.order] at hd
  exact hd.right.left

lemma sorted_current : Sorted C σ (t.nodes σ) := by
  have hs := h.sorted
  rw [← h.order] at hs
  exact (pairwise_append.1 (pairwise_append.1 hs).2.1).1

end

section
variable {a b : Shape K V} {next : Node K V} (h : Inv C key σ all s (.join σ a s.current b) near far)
include h

lemma follows_far (hf : σ.follows (C.compare s.current.key key)) :
    ∀ x ∈ b.nodes σ.opp ++ [s.current], σ.follows (C.compare x.key key) := by
  have hs := h.sorted_current
  rw [nodes_join] at hs
  intro x hx
  rcases mem_append.1 hx with hx | hx
  · apply C.follows_trans σ hf
    exact (pairwise_cons.1 (pairwise_append.1 hs).2.1).1 x ((mem_nodes _ _).1 hx)
  · rw [mem_singleton.1 hx]
    exact hf

omit h in
lemma mem_far (a : Shape K V) (x : Node K V) : x ∈ b.nodes σ.opp ++ [s.current] →
    x ∈ (Shape.join σ a s.current b).nodes σ := by
  intro hx
  rw [mem_join σ]
  rcases mem_append.1 hx with hx | hx
  · exact .inr (.inr ((mem_nodes _ _).1 hx))
  · exact .inr (.inl (mem_singleton.1 hx))

lemma link_farSpine : Spine (s.link σ next).links σ.opp ((s.link σ next).newTree σ.opp)
    ((s.link σ next).spine σ.opp) (far ++ (b.nodes σ.opp ++ [s.current])) := by
  obtain ⟨-, -, hb⟩ := (rep_join σ).1 h.current
  obtain ⟨-, hcur, -⟩ := h.distinct_current.join
  have hspi := h.farSpine
  have hlast : (s.link σ next).spine σ.opp = some s.current := if_pos rfl
  rw [hlast]
  refine ⟨by simp, fun links' u hside hopp hu => ?_⟩
  rw [opp_opp] at hopp hu
  -- The new last node with the tree that is put below it.
  have hb' : ∀ links1 : Links K V, (∀ x ∈ b.nodes σ.opp ++ [s.current], ∀ τ,
      links1 τ x.id = s.links τ x.id) → (s.link σ next).links = links1 →
      Rep links' (some s.current) (.join σ u s.current b) := by
    intro links1 hsame hlin
    rw [hlin] at hside hopp
    rw [rep_join]
    refine ⟨rfl, hu, ?_⟩
    rw [hside _ (by simp), hsame _ (by simp)]
    apply hb.congr σ.opp
    intro x hx τ
    have hmem : x ∈ b.nodes σ.opp ++ [s.current] := mem_append_left _ hx
    rw [← hsame x hmem τ]
    rcases eq_or σ τ with rfl | rfl
    · exact hopp x (mem_append_right _ hmem) (hcur x ((mem_nodes _ _).1 hx))
    · exact hside x (mem_append_right _ hmem)
  cases hl : s.spine σ.opp with
  | none =>
    rw [hl] at hspi
    have hlin : (s.link σ next).links = s.links := by rw [link, hl]
    have hfir : (s.link σ next).newTree σ.opp = some s.current := if_pos ⟨rfl, hl⟩
    refine ⟨.join σ u s.current b, ?_, ?_⟩
    · rw [hfir]
      exact hb' s.links (fun _ _ _ => rfl) hlin
    · rw [hspi.2, ← join_opp, nodes_join]
      simp
  | some z =>
    rw [hl] at hspi
    obtain ⟨hz, hspi⟩ := hspi
    have hlin : (s.link σ next).links = s.links.set σ z (some s.current) := by rw [link, hl]
    have hfir : (s.link σ next).newTree σ.opp = s.newTree σ.opp := if_neg fun hc => by simp [hl] at hc
    have hzne : ∀ x ∈ b.nodes σ.opp ++ [s.current], x.id ≠ z.id := fun x hx => (h.far_ne hz (mem_far a x hx)).symm
    rw [hlin] at hside hopp
    have hzcur : links' σ z.id = some s.current := by
      rw [hopp z (mem_append_left _ hz) (hzne _ (by simp)).symm, set_self]
    rw [opp_opp] at hspi
    obtain ⟨w, hw, hnod⟩ := hspi links' (.join σ u s.current b) (fun x hx => by
        rw [hside x (mem_append_left _ hx), set_of_side σ.opp_ne])
      (fun x hx hne => by
        have hxcur : x.id ≠ s.current.id := h.far_ne hx (mem_far a _ (by simp))
        rw [hopp x (mem_append_left _ hx) hxcur, set_of_ne hne])
      (by
        rw [hzcur]
        exact hb' _ (fun x hx τ => set_of_ne (hzne x hx)) hlin)
    refine ⟨w, hfir ▸ hw, ?_⟩
    rw [hnod, ← join_opp, nodes_join]
    simp

lemma link_frame {x : Node K V} (hx : ∀ y ∈ far, x.id ≠ y.id) (τ : Side) :
    (s.link σ next).links τ x.id = s.links τ x.id := by
  have hspi := h.farSpine
  rw [link]
  cases hl : s.spine σ.opp with
  | none => rfl
  | some z =>
    rw [hl] at hspi
    exact set_of_ne (hx z hspi.1)

lemma link (hnext : s.links σ s.current.id = some next) (hf : σ.follows (C.compare s.current.key key)) :
    Inv C key σ all (s.link σ next) a near (far ++ (b.nodes σ.opp ++ [s.current])) where
  distinct := h.distinct
  sorted := h.sorted
  current := by
    obtain ⟨-, ha, -⟩ := (rep_join σ).1 h.current
    rw [hnext] at ha
    apply ha.congr σ
    intro x hx τ
    apply h.link_frame
    intro y hy
    exact (h.far_ne hy ((mem_join σ σ).2 (.inl hx))).symm
  nearSpine := by
    have hfir : (s.link σ next).newTree σ = s.newTree σ := if_neg fun hc => σ.opp_ne hc.1.symm
    have hlast : (s.link σ next).spine σ = s.spine σ := if_neg σ.opp_ne.symm
    rw [hfir, hlast]
    apply h.nearSpine.congr
    intro x hx τ
    apply h.link_frame
    exact fun y hy => h.near_ne hx (.inr hy)
  farSpine := h.link_farSpine
  order := by
    rw [← h.order, nodes_join, nodes_opp]
    simp
  nearKeys := h.nearKeys
  farKeys := by
    intro x hx
    rcases mem_append.1 hx with hx | hx
    · exact h.farKeys x hx
    · exact h.follows_far hf x hx

omit h in
lemma rotate {c : Shape K V} {y : Node K V} (h : Inv C key σ all s (.join σ (.join σ a y b) s.current c) near far) :
    Inv C key σ all (s.rotate σ y) (.join σ a y (.join σ b s.current c)) near far := by
  have hfra : ∀ x : Node K V, x.id ≠ s.current.id → x.id ≠ y.id → ∀ τ, (s.rotate σ y).links τ x.id = s.links τ x.id := by
    intro x hx hy τ
    change set _ _ _ _ τ x.id = _
    rw [set_of_ne hy, set_of_ne hx]
  have hcur : s.current ∈ (Shape.join σ (.join σ a y b) s.current c).nodes σ := (mem_join σ σ).2 (.inr (.inl rfl))
  have hy : y ∈ (Shape.join σ (.join σ a y b) s.current c).nodes σ :=
    (mem_join σ σ).2 (.inl ((mem_join σ σ).2 (.inr (.inl rfl))))
  exact {
    distinct := h.distinct
    sorted := h.sorted
    current := h.current.rotate h.distinct_current
    nearSpine := by
      apply h.nearSpine.congr
      intro x hx
      exact hfra x (h.near_ne hx (.inl hcur)) (h.near_ne hx (.inl hy))
    farSpine := by
      apply h.farSpine.congr
      intro x hx
      exact hfra x (h.far_ne hx hcur) (h.far_ne hx hy)
    order := by rw [nodes_rotate, h.order]
    nearKeys := h.nearKeys
    farKeys := h.farKeys }

lemma withComp (comp : ℤ) : Inv C key σ all { s with comp := comp } (.join σ a s.current b) near far :=
  ⟨h.distinct, h.sorted, h.current, h.nearSpine, h.farSpine, h.order, h.nearKeys, h.farKeys⟩

lemma descend (hcomp : s.comp = C.compare s.current.key key) (hf : σ.follows s.comp) :
    (∃ s' b', Splaying.descend C.compare key σ s = (s', true) ∧
    Inv C key σ all s' (.join σ .nil s'.current b') near far ∧
    s'.comp = C.compare s'.current.key key ∧ σ.follows s'.comp ∧ (s' = s ∨ s'.current ∈ a.nodes σ)) ∨
    ∃ s' t' far', Splaying.descend C.compare key σ s = (s', false) ∧ Inv C key σ all s' t' near far' ∧
    (t'.nodes σ).length ≤ (a.nodes σ).length ∧ ∀ x ∈ t'.nodes σ, x ∈ a.nodes σ := by
  obtain ⟨-, ha, -⟩ := (rep_join σ).1 h.current
  rw [hcomp] at hf
  cases hl : s.links σ s.current.id with
  | none =>
    rw [hl] at ha
    obtain rfl := ha.eq_nil
    refine .inl ⟨s, b, ?_, h, hcomp, hcomp ▸ hf, .inl rfl⟩
    rw [Splaying.descend, hl]
  | some child =>
    rw [hl] at ha
    obtain ⟨a', b', rfl, -, -⟩ := ha.eq_join σ
    by_cases hc : σ.follows (C.compare child.key key)
    · have hrot := (h.withComp (C.compare child.key key)).rotate
      obtain ⟨-, ha', -⟩ := (rep_join σ).1 hrot.current
      cases hl' : (Splaying.rotate σ { s with comp := C.compare child.key key } child).links σ child.id with
      | none =>
        rw [hl'] at ha'
        obtain rfl := ha'.eq_nil
        refine .inl ⟨_, _, ?_, hrot, rfl, hc, .inr ?_⟩
        · rw [Splaying.descend_rotate hl hc, hl']
        · exact (mem_join σ σ).2 (.inr (.inl rfl))
      | some next =>
        refine .inr ⟨_, a', _, ?_, hrot.link hl' hc, ?_, ?_⟩
        · rw [Splaying.descend_rotate hl hc, hl']
        · rw [nodes_join, length_append]
          omega
        · intro x hx
          exact (mem_join σ σ).2 (.inl hx)
    · refine .inr ⟨_, _, _, ?_, (h.withComp (C.compare child.key key)).link hl hf, Nat.le_refl _, fun x hx => hx⟩
      rw [Splaying.descend, hl]
      exact if_neg hc

end
end Inv

section
variable (C : Comparator K) (key : K)

def Between (all : List (Node K V)) (s : Splaying K V) (t : Shape K V) : Prop :=
  ∃ near far, Inv C key .left all s t near far

variable {C key} {all : List (Node K V)} {s : Splaying K V} {t : Shape K V}

def along (σ : Side) (all : List (Node K V)) : List (Node K V) :=
  match σ with
  | .left => all
  | .right => all.reverse

lemma between_iff (σ : Side) : Between C key all s t ↔ ∃ near far, Inv C key σ (along σ all) s t near far := by
  cases σ with
  | left => exact Iff.rfl
  | right =>
    constructor
    · rintro ⟨near, far, h⟩
      exact ⟨far, near, h.flip⟩
    · rintro ⟨near, far, h⟩
      refine ⟨far, near, ?_⟩
      have := h.flip
      rwa [along, reverse_reverse] at this

variable {a b : Shape K V} {σ : Side}

lemma Between.ne_of_mem {x : Node K V} (h : Between C key all s (.join σ a s.current b)) (hx : x ∈ a.nodes σ) :
    x ∈ (Shape.join σ a s.current b).nodes .left ∧ x.id ≠ s.current.id := by
  obtain ⟨near, far, h⟩ := (between_iff σ).1 h
  exact ⟨(mem_join σ _).2 (.inl hx), h.distinct_current.join.1 x hx⟩

lemma Between.descend (h : Between C key all s t)
    (hcomp : s.comp = C.compare s.current.key key) (hf : σ.follows s.comp) :
    (∃ s' b', descend C.compare key σ s = (s', true) ∧ Between C key all s' (.join σ .nil s'.current b') ∧
    s'.comp = C.compare s'.current.key key ∧ σ.follows s'.comp ∧
    (s' = s ∨ s'.current ∈ t.nodes .left ∧ s'.current.id ≠ s.current.id)) ∨
    ∃ s' t', descend C.compare key σ s = (s', false) ∧ Between C key all s' t' ∧
    (t'.nodes .left).length < (t.nodes .left).length ∧
    ∀ x ∈ t'.nodes .left, x ∈ t.nodes .left ∧ x.id ≠ s.current.id := by
  obtain ⟨near, far, hσ⟩ := (between_iff σ).1 h
  obtain ⟨a, b, rfl, -, -⟩ := hσ.current.eq_join σ
  have hlen : ∀ u : Shape K V, (u.nodes .left).length = (u.nodes σ).length := by
    intro u
    cases σ
    · rfl
    · rw [show right = left.opp from rfl, nodes_opp, length_reverse]
  rcases hσ.descend hcomp hf with ⟨s', b', hs, h', hc, hf', hend⟩ | ⟨s', t', far', hs, h', hle, hsub⟩
  · refine .inl ⟨s', b', hs, (between_iff σ).2 ⟨_, _, h'⟩, hc, hf', ?_⟩
    rcases hend with rfl | hmem
    · exact .inl rfl
    · exact .inr (h.ne_of_mem hmem)
  · refine .inr ⟨s', t', hs, (between_iff σ).2 ⟨_, _, h'⟩, ?_, ?_⟩
    · rw [hlen, hlen, nodes_join, length_append, length_cons]
      omega
    · intro x hx
      exact h.ne_of_mem (hsub x ((mem_nodes _ _).1 hx))

lemma Between.loop (fuel : ℕ) : ∀ {s : Splaying K V} {t : Shape K V}, Between C key all s t →
    (t.nodes .left).length < fuel → ∃ s' t', Splaying.loop C.compare key fuel s = some s' ∧
      Between C key all s' t' ∧ s'.comp = C.compare s'.current.key key ∧
      (∀ σ : Side, σ.follows s'.comp → ∃ b, t' = .join σ .nil s'.current b) ∧
      (s' = { s with comp := C.compare s.current.key key } ∨
        s'.current ∈ t.nodes .left ∧ s'.current.id ≠ s.current.id) := by
  induction fuel with
  | zero => exact fun _ hfuel => absurd hfuel (Nat.not_lt_zero _)
  | succ fuel ih =>
    intro s t h hfuel
    have hb : Between C key all { s with comp := C.compare s.current.key key } t := by
      obtain ⟨near, far, h⟩ := h
      exact ⟨near, far, h.distinct, h.sorted, h.current, h.nearSpine, h.farSpine, h.order, h.nearKeys, h.farKeys⟩
    obtain ⟨σ, hf, hloop⟩ | ⟨hpos, hneg⟩ : (∃ σ : Side, σ.follows (C.compare s.current.key key) ∧
        ∀ r, Splaying.descend C.compare key σ { s with comp := C.compare s.current.key key } = r →
          Splaying.loop C.compare key (fuel + 1) s =
            if r.2 then some r.1 else Splaying.loop C.compare key fuel r.1) ∨
        ¬C.compare s.current.key key > 0 ∧ ¬C.compare s.current.key key < 0 := by
      by_cases hpos : C.compare s.current.key key > 0
      · refine .inl ⟨.left, hpos, ?_⟩
        rintro ⟨s', b⟩ hr
        rw [Splaying.loop, if_pos hpos, hr]
        cases b <;> rfl
      · by_cases hneg : C.compare s.current.key key < 0
        · refine .inl ⟨.right, hneg, ?_⟩
          rintro ⟨s', b⟩ hr
          rw [Splaying.loop, if_neg hpos, if_pos hneg, hr]
          cases b <;> rfl
        · exact .inr ⟨hpos, hneg⟩
    · rcases hb.descend rfl hf with ⟨s', b', hs, h', hc, hf', hend⟩ | ⟨s1, t1, hs, h1, hlt, hsub⟩
      · refine ⟨s', _, hloop _ hs, h', hc, fun τ hτ => ?_, hend⟩
        have hτσ : τ = σ := by cases σ <;> cases τ <;> simp [follows] at hf' hτ ⊢ <;> omega
        exact ⟨b', by rw [hτσ]⟩
      · obtain ⟨s', t', hl, h', hc, hfin, hend⟩ := ih h1 (by omega)
        refine ⟨s', t', (hloop _ hs).trans hl, h', hc, hfin, .inr ?_⟩
        rcases hend with rfl | ⟨hmem, -⟩
        · obtain ⟨near, far, h1⟩ := h1
          obtain ⟨a, b, rfl, -, -⟩ := h1.current.eq_join .left
          exact hsub _ ((mem_join .left _).2 (.inr (.inl rfl)))
        · exact hsub _ hmem
    · refine ⟨_, t, ?_, hb, rfl, fun σ hσ => ?_, .inl rfl⟩
      · exact (if_neg hpos).trans (if_neg hneg)
      · cases σ
        · exact absurd hσ hpos
        · exact absurd hσ hneg

lemma Inv.assemble {near far : List (Node K V)}
    (h : Inv C key σ all s (.join σ a s.current b) near far) : ∃ w, w.nodes σ = near ++ a.nodes σ ∧
    Rep (s.assemble σ).links (some s.current) (.join σ w s.current b) ∧
    Spine (s.assemble σ).links σ.opp (s.newTree σ.opp) (s.spine σ.opp) far := by
  have hspi := h.nearSpine
  cases hl : s.spine σ with
  | none =>
    rw [hl] at hspi
    rw [Splaying.assemble, hl]
    exact ⟨a, by rw [hspi.2, nil_append], h.current, h.farSpine⟩
  | some z =>
    rw [hl] at hspi
    have hlin : (s.assemble σ).links = (s.links.set σ.opp z (s.links σ s.current.id)).set σ s.current (s.newTree σ) := by
      rw [Splaying.assemble, hl]
    rw [hlin]
    obtain ⟨hz, hfill⟩ := hspi
    obtain ⟨-, ha, hb⟩ := (rep_join σ).1 h.current
    obtain ⟨hca, hcb, -⟩ := h.distinct_current.join
    have hcur : s.current ∈ (Shape.join σ a s.current b).nodes σ := (mem_join σ σ).2 (.inr (.inl rfl))
    have hzcur : z.id ≠ s.current.id := h.near_ne hz (.inl hcur)
    have hfra : ∀ x : Node K V, x.id ≠ z.id → x.id ≠ s.current.id → ∀ τ,
        ((s.links.set σ.opp z (s.links σ s.current.id)).set σ s.current (s.newTree σ)) τ x.id = s.links τ x.id := by
      intro x hxz hxc τ
      rw [set_of_ne hxc, set_of_ne hxz]
    have hza : ∀ x ∈ a.nodes σ, x.id ≠ z.id := fun x hx => (h.near_ne hz (.inl ((mem_join σ σ).2 (.inl hx)))).symm
    have hzb : ∀ x ∈ b.nodes σ, x.id ≠ z.id := fun x hx =>
      (h.near_ne hz (.inl ((mem_join σ σ).2 (.inr (.inr hx))))).symm
    have hopen : ((s.links.set σ.opp z (s.links σ s.current.id)).set σ s.current (s.newTree σ))
        σ.opp z.id = s.links σ s.current.id := by
      rw [set_of_ne hzcur, set_self]
    obtain ⟨w, hw, hnod⟩ := hfill ((s.links.set σ.opp z (s.links σ s.current.id)).set σ s.current (s.newTree σ)) a
      (fun x hx => by rw [set_of_ne (h.near_ne hx (.inl hcur)), set_of_side σ.opp_ne.symm])
      (fun x hx hne => by rw [set_of_ne (h.near_ne hx (.inl hcur)), set_of_ne hne])
      (by
        rw [hopen]
        apply ha.congr σ
        exact fun x hx => hfra x (hza x hx) (hca x hx))
    refine ⟨w, hnod, ?_, ?_⟩
    · rw [rep_join]
      refine ⟨rfl, ?_, ?_⟩
      · rw [set_self]
        exact hw
      · rw [set_of_side σ.opp_ne, set_of_ne hzcur.symm]
        apply hb.congr σ
        exact fun x hx => hfra x (hzb x hx) (hcb x hx)
    · apply h.farSpine.congr
      intro x hx
      exact hfra x (h.near_ne hz (.inr hx)).symm (h.far_ne hx hcur)

end
end DartSdk.Splay
