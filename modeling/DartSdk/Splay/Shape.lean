import DartSdk.Splay.Model
import Mathlib.Data.List.Nodup

namespace DartSdk.Splay
open Links
variable {K V : Type}

@[simp]
lemma Side.opp_opp (σ : Side) : σ.opp.opp = σ := by cases σ <;> rfl

lemma Side.opp_ne (σ : Side) : σ.opp ≠ σ := by cases σ <;> decide

lemma Side.eq_or (σ τ : Side) : τ = σ ∨ τ = σ.opp := by cases σ <;> cases τ <;> simp [Side.opp]

section
variable {links : Links K V} {σ τ : Side} {x : Node K V} {c : Option (Node K V)} {i : ℕ}

@[simp]
lemma Links.set_self : links.set σ x c σ x.id = c := if_pos ⟨rfl, rfl⟩

lemma Links.set_of_ne (h : i ≠ x.id) : links.set σ x c τ i = links τ i := if_neg fun hc => h hc.2

lemma Links.set_of_side (h : τ ≠ σ) : links.set σ x c τ i = links τ i := if_neg fun hc => h hc.1

end

inductive Shape (K V : Type)
  | nil
  | node (x : Node K V) (sub : Side → Shape K V)

namespace Shape

def nodes (σ : Side) : Shape K V → List (Node K V)
  | nil => []
  | node x sub => (sub σ).nodes σ ++ x :: (sub σ.opp).nodes σ

def join (σ : Side) (a : Shape K V) (x : Node K V) (b : Shape K V) : Shape K V :=
  node x fun τ => if τ = σ then a else b

variable (σ : Side)

lemma node_eq_join (x : Node K V) (sub : Side → Shape K V) : node x sub = join σ (sub σ) x (sub σ.opp) := by
  congr 1
  funext τ
  rcases Side.eq_or σ τ with rfl | rfl
  · rw [if_pos rfl]
  · rw [if_neg σ.opp_ne]

lemma join_opp (a : Shape K V) (x : Node K V) (b : Shape K V) : join σ.opp b x a = join σ a x b := by
  rw [join, node_eq_join σ, if_neg σ.opp_ne.symm, if_pos rfl]

lemma nodes_join (a : Shape K V) (x : Node K V) (b : Shape K V) :
    (join σ a x b).nodes σ = a.nodes σ ++ x :: b.nodes σ := by
  rw [join, nodes, if_pos rfl, if_neg σ.opp_ne]

lemma nodes_opp (t : Shape K V) : t.nodes σ.opp = (t.nodes σ).reverse := by
  induction t with
  | nil => rfl
  | node x sub ih =>
    rw [nodes, nodes, ih, ih]
    simp

lemma mem_nodes (σ τ : Side) {t : Shape K V} {x : Node K V} : x ∈ t.nodes σ ↔ x ∈ t.nodes τ := by
  rcases Side.eq_or τ σ with rfl | rfl
  · exact Iff.rfl
  · rw [nodes_opp, List.mem_reverse]

lemma nodes_eq_of_side {σ : Side} {t u : Shape K V} (h : t.nodes σ = u.nodes σ) (τ : Side) : t.nodes τ = u.nodes τ := by
  rcases Side.eq_or σ τ with rfl | rfl
  · exact h
  · rw [nodes_opp, nodes_opp, h]

lemma mem_join {a b : Shape K V} {x y : Node K V} (τ : Side) :
    y ∈ (join σ a x b).nodes τ ↔ y ∈ a.nodes σ ∨ y = x ∨ y ∈ b.nodes σ := by
  rw [mem_nodes τ σ, nodes_join]
  simp

end Shape

open Shape
open Shape List

def Rep (links : Links K V) : Option (Node K V) → Shape K V → Prop
  | p, .nil => p = none
  | p, .node x sub => p = some x ∧ ∀ σ, Rep links (links σ x.id) (sub σ)

section
variable {links links' : Links K V} {p : Option (Node K V)} {t a b c : Shape K V} {x y : Node K V}

lemma rep_join (σ : Side) : Rep links p (join σ a x b) ↔
    p = some x ∧ Rep links (links σ x.id) a ∧ Rep links (links σ.opp x.id) b := by
  unfold join
  rw [Rep]
  constructor
  · rintro ⟨hp, h⟩
    refine ⟨hp, ?_, ?_⟩
    · have := h σ
      rwa [if_pos rfl] at this
    · have := h σ.opp
      rwa [if_neg σ.opp_ne] at this
  · rintro ⟨hp, ha, hb⟩
    refine ⟨hp, fun τ => ?_⟩
    rcases Side.eq_or σ τ with rfl | rfl
    · rwa [if_pos rfl]
    · rwa [if_neg σ.opp_ne]

lemma Rep.eq_nil (h : Rep links none t) : t = .nil := by
  cases t with
  | nil => rfl
  | node x sub => simp [Rep] at h

lemma Rep.eq_join (h : Rep links (some x) t) (σ : Side) :
    ∃ a b, t = join σ a x b ∧ Rep links (links σ x.id) a ∧ Rep links (links σ.opp x.id) b := by
  cases t with
  | nil => simp [Rep] at h
  | node y sub =>
    obtain ⟨hy, hsub⟩ := h
    obtain rfl : x = y := Option.some.inj hy
    exact ⟨sub σ, sub σ.opp, node_eq_join σ x sub, hsub σ, hsub σ.opp⟩

lemma Rep.congr (σ : Side) (h : Rep links p t)
    (heq : ∀ x ∈ t.nodes σ, ∀ τ, links' τ x.id = links τ x.id) : Rep links' p t := by
  induction t generalizing p with
  | nil => exact h
  | node x sub ih =>
    obtain ⟨hp, hsub⟩ := h
    refine ⟨hp, fun τ => ?_⟩
    have hx : x ∈ (node x sub).nodes σ := by
      rw [node_eq_join σ, nodes_join]
      simp
    rw [heq x hx τ]
    apply ih τ (hsub τ)
    intro y hy
    apply heq
    rw [node_eq_join τ, mem_join τ]
    exact .inl ((mem_nodes σ τ).1 hy)

def Distinct (l : List (Node K V)) : Prop := (l.map Node.id).Nodup

variable {l l' : List (Node K V)}

section
variable (h : Distinct (l ++ l'))
include h

lemma Distinct.ne (hx : x ∈ l) (hy : y ∈ l') : x.id ≠ y.id := by
  rw [Distinct, map_append, nodup_append] at h
  exact h.2.2 _ (mem_map_of_mem hx) _ (mem_map_of_mem hy)

lemma Distinct.left : Distinct l := by
  rw [Distinct, map_append, nodup_append] at h
  exact h.1

lemma Distinct.right : Distinct l' := by
  rw [Distinct, map_append, nodup_append] at h
  exact h.2.1

end

lemma distinct_reverse {l : List (Node K V)} : Distinct l.reverse ↔ Distinct l := by
  rw [Distinct, map_reverse, nodup_reverse]
  exact Iff.rfl

lemma Distinct.join {σ : Side} (h : Distinct ((join σ a x b).nodes σ)) :
    (∀ y ∈ a.nodes σ, y.id ≠ x.id) ∧ (∀ y ∈ b.nodes σ, y.id ≠ x.id) ∧
    (∀ y ∈ a.nodes σ, ∀ z ∈ b.nodes σ, y.id ≠ z.id) := by
  rw [nodes_join] at h
  refine ⟨fun y hy => h.ne hy mem_cons_self, fun y hy => ?_, fun y hy z hz => h.ne hy (mem_cons_of_mem x hz)⟩
  have hb : Distinct ([x] ++ b.nodes σ) := h.right
  exact (hb.ne mem_cons_self hy).symm

lemma Rep.rotate {σ : Side} (h : Rep links (some x) (.join σ (.join σ a y b) x c))
    (hd : Distinct ((join σ (.join σ a y b) x c).nodes σ)) :
    Rep ((links.set σ x (links σ.opp y.id)).set σ.opp y (some x)) (some y) (.join σ a y (.join σ b x c)) := by
  obtain ⟨-, hy, hc⟩ := (rep_join σ).1 h
  obtain ⟨-, ha, hb⟩ := (rep_join σ).1 hy
  obtain ⟨hxl, hxr, -⟩ := hd.join
  have hd' : Distinct ((join σ a y b).nodes σ) := by
    rw [nodes_join] at hd
    exact hd.left
  obtain ⟨hya, hyb, -⟩ := hd'.join
  have hyx : y.id ≠ x.id := hxl y ((mem_join σ σ).2 (.inr (.inl rfl)))
  have hyc : ∀ z ∈ c.nodes σ, z.id ≠ y.id := by
    rw [nodes_join] at hd
    exact fun z hz => (hd.ne ((mem_join σ σ).2 (.inr (.inl rfl))) (mem_cons_of_mem x hz)).symm
  have hframe : ∀ u : Shape K V, ∀ p, Rep links p u → (∀ z ∈ u.nodes σ, z.id ≠ x.id) → (∀ z ∈ u.nodes σ, z.id ≠ y.id) →
      Rep ((links.set σ x (links σ.opp y.id)).set σ.opp y (some x)) p u := by
    intro u p hu hux huy
    apply hu.congr σ
    intro z hz τ
    rw [set_of_ne (huy z hz), set_of_ne (hux z hz)]
  rw [rep_join]
  refine ⟨rfl, ?_, ?_⟩
  · rw [set_of_side σ.opp_ne.symm, set_of_ne hyx]
    apply hframe a _ ha _ hya
    exact fun z hz => hxl z ((mem_join σ σ).2 (.inl hz))
  · rw [set_self, rep_join]
    refine ⟨rfl, ?_, ?_⟩
    · rw [set_of_side σ.opp_ne.symm, set_self]
      apply hframe b _ hb _ hyb
      exact fun z hz => hxl z ((mem_join σ σ).2 (.inr (.inr hz)))
    · rw [set_of_ne hyx.symm, set_of_side σ.opp_ne]
      exact hframe c _ hc hxr hyc

lemma nodes_rotate (σ : Side) (a b c : Shape K V) (x y : Node K V) :
    (join σ a y (.join σ b x c)).nodes σ = (join σ (.join σ a y b) x c).nodes σ := by
  simp only [nodes_join, append_assoc, cons_append]

end

section

lemma splayEnd_spec (σ : Side) (fuel : ℕ) :
    ∀ {links : Links K V} {x : Node K V} {a c : Shape K V}, Rep links (some x) (.join σ a x c) →
    Distinct ((join σ a x c).nodes σ) → (a.nodes σ).length < fuel →
    ∃ links' y b, splayEnd σ fuel links x = some (links', y) ∧ Rep links' (some y) (.join σ .nil y b) ∧
    (join σ .nil y b).nodes σ = (join σ a x c).nodes σ ∧
    (∀ i τ, (∀ z ∈ (join σ a x c).nodes σ, z.id ≠ i) → links' τ i = links τ i) ∧
    (links' = links ∧ y = x ∨ y ∈ a.nodes σ) := by
  induction fuel with
  | zero =>
    intro links x a c _ _ hfuel
    exact absurd hfuel (Nat.not_lt_zero _)
  | succ fuel ih =>
    intro links x a c h hd hfuel
    obtain ⟨-, ha, -⟩ := (rep_join σ).1 h
    cases hl : links σ x.id with
    | none =>
      rw [hl] at ha
      obtain rfl := ha.eq_nil
      refine ⟨links, x, c, ?_, h, rfl, fun _ _ _ => rfl, .inl ⟨rfl, rfl⟩⟩
      rw [splayEnd, hl]
    | some y =>
      rw [hl] at ha
      obtain ⟨a', b, rfl, -, -⟩ := ha.eq_join σ
      have hrot := h.rotate hd
      have hnodes := nodes_rotate σ a' b c x y
      have hlen : (a'.nodes σ).length < fuel := by
        rw [nodes_join, length_append, length_cons] at hfuel
        omega
      obtain ⟨links', z, b', hz, hrep, hsame, hframe, hend⟩ := ih hrot (hnodes.symm ▸ hd) hlen
      refine ⟨links', z, b', ?_, hrep, hsame.trans hnodes, fun i τ hi => ?_, .inr ?_⟩
      · rw [splayEnd, hl]
        exact hz
      · rw [hframe i τ (hnodes.symm ▸ hi), set_of_ne, set_of_ne]
        · exact (hi x ((mem_join σ σ).2 (.inr (.inl rfl)))).symm
        · apply Ne.symm
          apply hi y
          rw [mem_join σ, mem_join σ]
          exact .inl (.inr (.inl rfl))
      · rw [mem_join σ]
        rcases hend with ⟨-, rfl⟩ | hmem
        · exact .inr (.inl rfl)
        · exact .inl hmem

lemma endOf_spec (σ : Side) {links : Links K V} (fuel : ℕ) :
    ∀ {x : Node K V} {t : Shape K V}, Rep links (some x) t → (t.nodes σ).length ≤ fuel →
    endOf σ links fuel x = (t.nodes σ).head? := by
  induction fuel with
  | zero =>
    intro x t h hfuel
    obtain ⟨a, b, rfl, -, -⟩ := h.eq_join σ
    rw [nodes_join, length_append, length_cons] at hfuel
    omega
  | succ fuel ih =>
    intro x t h hfuel
    obtain ⟨a, b, rfl, ha, -⟩ := h.eq_join σ
    rw [nodes_join, length_append, length_cons] at hfuel
    rw [nodes_join, endOf]
    cases hl : links σ x.id with
    | none =>
      rw [hl] at ha
      rw [ha.eq_nil]
      rfl
    | some y =>
      rw [hl] at ha
      obtain ⟨a', b', rfl, -, -⟩ := ha.eq_join σ
      dsimp only
      rw [ih ha (by omega), nodes_join, append_assoc, List.head?_append, List.head?_append]
      rfl

end
end DartSdk.Splay
