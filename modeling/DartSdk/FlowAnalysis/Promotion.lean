import Mathlib.Data.List.Pairwise
import Mathlib.Data.List.Sort
import Mathlib.Order.Antisymmetrization

/-!
The promotion chains of a variable: lists of types, each a proper subtype of the one before it. The
subtype relation is any preorder, and the chain null is the empty list.
-/

namespace DartSdk.FlowAnalysis
open List

section
variable {α : Type} [LE α] [DecidableLE α]

def isSubtypeOf (type1 type2 : α) : Bool := decide (type1 ≤ type2)

def isSameType (type1 type2 : α) : Bool := isSubtypeOf type1 type2 && isSubtypeOf type2 type1

/-- What is returned: one of the two arguments itself, or a list of its own. -/
inductive Joined (α : Type)
  | chain1
  | chain2
  | result (types : List α)

def joinLoop (skipped1 skipped2 : Bool) (result : List α) : List α → List α → Joined α
  | type1 :: rest1, type2 :: rest2 =>
    if isSameType type1 type2 then joinLoop skipped1 skipped2 (result ++ [type1]) rest1 rest2
    else if isSubtypeOf type2 type1 then joinLoop true skipped2 result rest1 (type2 :: rest2)
    else if isSubtypeOf type1 type2 then joinLoop skipped1 true result (type1 :: rest1) rest2
    else .result result
  | [], rest2 => if !skipped1 then .chain1 else if rest2.isEmpty && !skipped2 then .chain2 else .result result
  | _ :: _, [] => if !skipped2 then .chain2 else .result result
termination_by rest1 rest2 => rest1.length + rest2.length

def joinPromotedTypes : List α → List α → Joined α
  | [], _ => .chain1
  | _ :: _, [] => .chain2
  | type1 :: rest1, type2 :: rest2 => joinLoop false false [] (type1 :: rest1) (type2 :: rest2)

def join (chain1 chain2 : List α) : List α :=
  match joinPromotedTypes chain1 chain2 with
  | .chain1 => chain1
  | .chain2 => chain2
  | .result types => types

end

section
variable {α : Type} {a b : α} {c c' : List α}

lemma mem_cons_iff (h : b ∉ c) {x : α} (hx : x ∈ c) : x ∈ b :: c' ↔ x ∈ c' := by
  rw [mem_cons, or_iff_right (ne_of_mem_of_not_mem hx h)]

lemma subset_cons_iff (h : b ∉ c) : c ⊆ b :: c' ↔ c ⊆ c' :=
  ⟨fun hs _ hx => (mem_cons_iff h hx).1 (hs hx), fun hs _ hx => mem_cons_of_mem _ (hs hx)⟩

open Classical in
noncomputable def common (chain1 chain2 : List α) : List α := chain1.filter (· ∈ chain2)

lemma mem_common {x : α} : x ∈ common c c' ↔ x ∈ c ∧ x ∈ c' := by simp [common]

variable [PartialOrder α]

/-- Types of the two chains above `t` can be compared. -/
def AlignedAbove (t : α) (chain1 chain2 : List α) : Prop :=
  ∀ x ∈ chain1, ∀ y ∈ chain2, t ≤ x → t ≤ y → x ≤ y ∨ y ≤ x

/-- Types of the two chains above a type of both can be compared. -/
def Aligned (chain1 chain2 : List α) : Prop := ∀ t ∈ chain1, t ∈ chain2 → AlignedAbove t chain1 chain2

lemma AlignedAbove.symm {t : α} (h : AlignedAbove t c c') : AlignedAbove t c' c :=
  fun x hx y hy hle hle' => (h y hy x hx hle' hle).symm

lemma alignedAbove_cons_left {t : α} (h : ∀ y ∈ c', y ≤ a) : AlignedAbove t (a :: c) c' ↔ AlignedAbove t c c' :=
  ⟨fun hal x hx => hal x (mem_cons_of_mem _ hx),
    fun hal => forall_mem_cons.2 ⟨fun y hy _ _ => .inr (h y hy), hal⟩⟩

lemma alignedAbove_cons_right {t : α} (h : ∀ x ∈ c, x ≤ b) : AlignedAbove t c (b :: c') ↔ AlignedAbove t c c' :=
  ⟨fun hal x hx y hy => hal x hx y (mem_cons_of_mem _ hy),
    fun hal x hx => forall_mem_cons.2 ⟨fun _ _ => .inl (h x hx), hal x hx⟩⟩

lemma le_head (h : (a :: c).Pairwise (· > ·)) : ∀ x ∈ a :: c, x ≤ a :=
  forall_mem_cons.2 ⟨le_rfl, fun x hx => ((pairwise_cons.1 h).1 x hx).le⟩

lemma alignedAbove_of_subset (h : c'.Pairwise (· > ·)) (hs : c ⊆ c') (t : α) : AlignedAbove t c c' := by
  have : Std.Symm fun x y : α => x ≤ y ∨ y ≤ x := ⟨fun _ _ => Or.symm⟩
  have hcomp := (h.imp (S := fun x y => x ≤ y ∨ y ≤ x) fun hlt => .inr hlt.le).forall_of_forall fun x _ => .inl le_rfl
  exact fun x hx y hy _ _ => hcomp (hs hx) hy

open Classical in
/-- The common types that the loop reaches before it meets types that cannot be compared. -/
noncomputable def reached (chain1 chain2 : List α) : List α :=
  chain1.filter fun t => t ∈ chain2 ∧ AlignedAbove t chain1 chain2

lemma mem_reached {t : α} : t ∈ reached c c' ↔ t ∈ c ∧ t ∈ c' ∧ AlignedAbove t c c' := by simp [reached]

lemma pairwise_reached (h : c.Pairwise (· > ·)) : (reached c c').Pairwise (· > ·) := h.filter _

lemma reached_comm (h : c.Pairwise (· > ·)) (h' : c'.Pairwise (· > ·)) : reached c c' = reached c' c := by
  refine (pairwise_reached h).eq_of_mem_iff (pairwise_reached h') fun t => ?_
  rw [mem_reached, mem_reached]
  exact ⟨fun ⟨ht, ht', hal⟩ => ⟨ht', ht, hal.symm⟩, fun ⟨ht, ht', hal⟩ => ⟨ht', ht, hal.symm⟩⟩

open Classical in
lemma reached_of_subset (h : c'.Pairwise (· > ·)) (hs : c ⊆ c') : reached c c' = c :=
  filter_eq_self.2 fun t ht => decide_eq_true ⟨hs ht, alignedAbove_of_subset h hs t⟩

lemma reached_eq_common_iff : reached c c' = common c c' ↔ Aligned c c' := by
  constructor
  · intro heq t ht ht'
    exact (mem_reached.1 (heq ▸ mem_common.2 ⟨ht, ht'⟩)).2.2
  · intro hal
    exact filter_congr fun t ht => decide_eq_decide.2 (and_iff_left_of_imp (hal t ht))

/-- Above a type that is reached every common type is reached. -/
lemma alignedAbove_reached_iff {c'' : List α} {t : α} (h : AlignedAbove t c c') :
    AlignedAbove t (reached c c') c'' ↔ AlignedAbove t (common c c') c'' := by
  have hmem (x : α) (hle : t ≤ x) : x ∈ reached c c' ↔ x ∈ common c c' := by
    rw [mem_reached, mem_common, ← and_assoc, and_iff_left]
    exact fun y hy z hz hxy hxz => h y hy z hz (hle.trans hxy) (hle.trans hxz)
  exact ⟨fun hal x hx y hy hle => hal x ((hmem x hle).2 hx) y hy hle,
    fun hal x hx y hy hle => hal x ((hmem x hle).1 hx) y hy hle⟩

end

section
variable {α : Type} [PartialOrder α] [DecidableLE α] {a b : α} {c c' : List α}

lemma isSameType_iff : isSameType a b = true ↔ a = b := by simp [isSameType, isSubtypeOf, antisymm_iff]

variable (h : c.Pairwise (· > ·)) (h' : c'.Pairwise (· > ·))
include h h'

open Classical in
lemma joinLoop_eq (s1 s2 : Bool) (result : List α) : joinLoop s1 s2 result c c' =
    if s1 = false ∧ c ⊆ c' then .chain1 else if s2 = false ∧ c' ⊆ c then .chain2
    else .result (result ++ reached c c') := by
  fun_induction joinLoop s1 s2 result c c' with
  | case1 s1 s2 result type1 c type2 c' hsame ih =>
    obtain rfl := isSameType_iff.1 hsame
    have hle := le_head h
    have hle' := le_head h'
    obtain ⟨hlt, h⟩ := pairwise_cons.1 h
    obtain ⟨hlt', h'⟩ := pairwise_cons.1 h'
    have hc : type1 ∉ c := fun hmem => (hlt type1 hmem).false
    have hc' : type1 ∉ c' := fun hmem => (hlt' type1 hmem).false
    have hhead : AlignedAbove type1 (type1 :: c) (type1 :: c') :=
      fun x hx y hy hx' hy' => .inl ((hle x hx).trans hy')
    have hreach : reached (type1 :: c) (type1 :: c') = type1 :: reached c c' := by
      rw [reached, filter_cons_of_pos (by simpa using hhead)]
      refine congrArg (type1 :: ·) (filter_congr fun t ht => decide_eq_decide.2 ?_)
      rw [mem_cons_iff hc ht, alignedAbove_cons_left hle',
        alignedAbove_cons_right fun x hx => hle x (mem_cons_of_mem _ hx)]
    rw [ih h h', hreach]
    simp [subset_cons_iff hc, subset_cons_iff hc']
  | case2 s1 s2 result type1 c type2 c' hsame hsub ih =>
    have hle : ∀ y ∈ type2 :: c', y ≤ type1 := fun y hy => (le_head h' y hy).trans (of_decide_eq_true hsub)
    have hnot : type1 ∉ type2 :: c' := fun hmem =>
      hsame (isSameType_iff.2 ((le_head h' type1 hmem).antisymm (of_decide_eq_true hsub)))
    have hreach : reached (type1 :: c) (type2 :: c') = reached c (type2 :: c') := by
      rw [reached, filter_cons_of_neg (by simp [hnot])]
      simp only [alignedAbove_cons_left hle]
      rfl
    rw [ih (pairwise_cons.1 h).2 h', hreach]
    simp [hnot, subset_cons_iff hnot]
  | case3 s1 s2 result type1 c type2 c' hsame hsub hsub' ih =>
    have hle : ∀ x ∈ type1 :: c, x ≤ type2 := fun x hx => (le_head h x hx).trans (of_decide_eq_true hsub')
    have hnot : type2 ∉ type1 :: c := fun hmem => hsub (decide_eq_true (le_head h type2 hmem))
    have hreach : reached (type1 :: c) (type2 :: c') = reached (type1 :: c) c' :=
      filter_congr fun t ht => decide_eq_decide.2 (by rw [mem_cons_iff hnot ht, alignedAbove_cons_right hle])
    rw [ih h (pairwise_cons.1 h').2, hreach]
    simp [hnot, subset_cons_iff hnot]
  | case4 s1 s2 result type1 c type2 c' hsame hsub hsub' =>
    have hnot : type1 ∉ type2 :: c' := fun hmem => hsub' (decide_eq_true (le_head h' type1 hmem))
    have hnot' : type2 ∉ type1 :: c := fun hmem => hsub (decide_eq_true (le_head h type2 hmem))
    have hreach : reached (type1 :: c) (type2 :: c') = [] := by
      refine filter_eq_nil_iff.2 fun t ht ht' => ?_
      obtain ⟨ht', hal⟩ := of_decide_eq_true ht'
      rcases hal type1 mem_cons_self type2 mem_cons_self (le_head h t ht) (le_head h' t ht') with hle | hle
      · exact hsub' (decide_eq_true hle)
      · exact hsub (decide_eq_true hle)
    simp [hreach, hnot, hnot']
  | case5 | case6 => simp_all
  | case7 s1 s2 result c' => cases c' <;> simp_all [reached]
  | case8 => simp_all
  | case9 => simp_all [reached]

open Classical in
lemma joinPromotedTypes_eq :
    joinPromotedTypes c c' = if c ⊆ c' then .chain1 else if c' ⊆ c then .chain2 else .result (reached c c') := by
  fun_cases joinPromotedTypes c c' with
  | case1 => simp
  | case2 => simp
  | case3 => simpa using joinLoop_eq h h' false false []

lemma join_eq : join c c' = reached c c' := by
  rw [join, joinPromotedTypes_eq h h']
  split_ifs with hc hc'
  · exact (reached_of_subset h' hc).symm
  · exact ((reached_comm h h').trans (reached_of_subset h hc')).symm
  · rfl

/-- The types that both ways of joining three chains keep. -/
lemma mem_join_join {c'' : List α} {t : α} (h'' : c''.Pairwise (· > ·)) : t ∈ join (join c c') c'' ↔
    t ∈ c ∧ t ∈ c' ∧ t ∈ c'' ∧ AlignedAbove t c c' ∧ AlignedAbove t (common c c') c'' := by
  rw [join_eq h h', join_eq (pairwise_reached h) h'', mem_reached, mem_reached]
  exact ⟨fun ⟨⟨ht, ht', hal⟩, ht'', hal'⟩ => ⟨ht, ht', ht'', hal, (alignedAbove_reached_iff hal).1 hal'⟩,
    fun ⟨ht, ht', ht'', hal, hal'⟩ => ⟨⟨ht, ht', hal⟩, ht'', (alignedAbove_reached_iff hal).2 hal'⟩⟩

end

section

def Joined.map {α β : Type} (f : α → β) : Joined α → Joined β
  | chain1 => chain1
  | chain2 => chain2
  | result types => result (types.map f)

lemma Joined.map_eq_iff {α β : Type} {f : α → β} {j : Joined α} :
    (j.map f = .chain1 ↔ j = .chain1) ∧ (j.map f = .chain2 ↔ j = .chain2) := by
  cases j <;> simp [Joined.map]

variable {α : Type} [Preorder α]

/-- The types of a chain up to isSameType. -/
def classes (chain : List α) : List (Antisymmetrization α (· ≤ ·)) := chain.map (toAntisymmetrization (· ≤ ·))

lemma pairwise_classes {c : List α} (h : c.Pairwise (· > ·)) : (classes c).Pairwise (· > ·) := pairwise_map.2 h

variable [DecidableLE α]

open Classical in
lemma joinLoop_classes (s1 s2 : Bool) (result c c' : List α) :
    (joinLoop s1 s2 result c c').map (toAntisymmetrization (· ≤ ·)) =
    joinLoop s1 s2 (classes result) (classes c) (classes c') := by
  fun_induction joinLoop s1 s2 result c c' <;>
    simp_all [joinLoop, isSameType, isSubtypeOf, Joined.map, classes]

open Classical in
lemma joinPromotedTypes_classes (c c' : List α) :
    (joinPromotedTypes c c').map (toAntisymmetrization (· ≤ ·)) = joinPromotedTypes (classes c) (classes c') := by
  cases c with
  | nil => rfl
  | cons a c =>
    cases c' with
    | nil => rfl
    | cons b c' => exact joinLoop_classes false false [] (a :: c) (b :: c')

open Classical in
lemma join_classes (c c' : List α) : classes (join c c') = join (classes c) (classes c') := by
  rw [join, join, ← joinPromotedTypes_classes]
  cases joinPromotedTypes c c' <;> rfl

lemma joinLoop_self (s2 : Bool) (result c : List α) : joinLoop false s2 result c c = .chain1 := by
  induction c generalizing result with
  | nil => simp [joinLoop]
  | cons a c ih => simp [joinLoop, isSameType, isSubtypeOf, ih]

variable {c c' c'' : List α}

open Classical in
/-- Joining is intersection exactly when types above a common type can be compared; it is commutative and
idempotent for all chains, and associative exactly when both ways of joining reach the same common types. -/
theorem joinPromotedTypes_inter_iff (h : c.Pairwise (· > ·)) (h' : c'.Pairwise (· > ·)) (h'' : c''.Pairwise (· > ·)) :
    (classes (join c c') = (classes c).filter (· ∈ classes c') ↔ Aligned (classes c) (classes c')) ∧
    classes (join c c') = classes (join c' c) ∧
    (classes (join (join c c') c'') = classes (join c (join c' c'')) ↔
      ∀ t ∈ classes c, t ∈ classes c' → t ∈ classes c'' →
        (AlignedAbove t (classes c) (classes c') ∧ AlignedAbove t (common (classes c) (classes c')) (classes c'') ↔
          AlignedAbove t (classes c') (classes c'') ∧
            AlignedAbove t (common (classes c') (classes c'')) (classes c))) ∧
    join c c = c ∧
    (classes c ⊆ classes c' → joinPromotedTypes c c' = .chain1) ∧
    (classes c' ⊆ classes c → ¬classes c ⊆ classes c' → joinPromotedTypes c c' = .chain2) := by
  have h := pairwise_classes h
  have h' := pairwise_classes h'
  have h'' := pairwise_classes h''
  refine ⟨?_, ?_, ?_, ?_, fun hc => ?_, fun hc' hc => ?_⟩
  · rw [join_classes, join_eq h h']
    exact reached_eq_common_iff
  · rw [join_classes, join_classes, join_eq h h', join_eq h' h, reached_comm h h']
  · have hjoin : (join (join (classes c) (classes c')) (classes c'')).Pairwise (· > ·) := by
      rw [join_eq h h', join_eq (pairwise_reached h) h'']
      exact pairwise_reached (pairwise_reached h)
    have hjoin' : (join (join (classes c') (classes c'')) (classes c)).Pairwise (· > ·) := by
      rw [join_eq h' h'', join_eq (pairwise_reached h') h]
      exact pairwise_reached (pairwise_reached h')
    have hswap : join (classes c) (join (classes c') (classes c'')) = join (join (classes c') (classes c'')) (classes c) := by
      rw [join_eq h' h'', join_eq h (pairwise_reached h'), join_eq (pairwise_reached h') h,
        reached_comm h (pairwise_reached h')]
    rw [join_classes, join_classes, join_classes c, join_classes c', hswap]
    have hext : join (join (classes c) (classes c')) (classes c'') = join (join (classes c') (classes c'')) (classes c) ↔
        ∀ t, t ∈ join (join (classes c) (classes c')) (classes c'') ↔
          t ∈ join (join (classes c') (classes c'')) (classes c) :=
      ⟨fun heq t => by rw [heq], hjoin.eq_of_mem_iff hjoin'⟩
    rw [hext]
    simp only [mem_join_join h h' h'', mem_join_join h' h'' h]
    grind
  · cases c with
    | nil => rfl
    | cons a c => rw [join, joinPromotedTypes, joinLoop_self]
  · rw [← Joined.map_eq_iff.1, joinPromotedTypes_classes, joinPromotedTypes_eq h h', if_pos hc]
  · rw [← Joined.map_eq_iff.2, joinPromotedTypes_classes, joinPromotedTypes_eq h h', if_neg hc, if_pos hc']

/-- The incomparable types of the outer chains are never compared with each other. -/
theorem joinPromotedTypes_inter_iff_outer :
    classes (join [((1, 0) : ℕ × ℕ), (0, 0)] [(0, 0)]) = classes (join [(0, 0)] [((1, 0) : ℕ × ℕ), (0, 0)]) ∧
    classes (join (join [((1, 0) : ℕ × ℕ), (0, 0)] [(0, 0)]) [(0, 1), (0, 0)]) =
      classes (join [((1, 0) : ℕ × ℕ), (0, 0)] (join [(0, 0)] [(0, 1), (0, 0)])) := by
  have hfirst : [((1, 0) : ℕ × ℕ), (0, 0)].Pairwise (· > ·) := by simp
  have hsecond : [((0, 0) : ℕ × ℕ)].Pairwise (· > ·) := by simp
  have hthird : [((0, 1) : ℕ × ℕ), (0, 0)].Pairwise (· > ·) := by simp
  obtain ⟨-, hcomm, hassoc, -⟩ := joinPromotedTypes_inter_iff hfirst hsecond hthird
  refine ⟨hcomm, hassoc.2 ?_⟩
  have hne : ¬toAntisymmetrization (· ≤ ·) ((1, 0) : ℕ × ℕ) = toAntisymmetrization (· ≤ ·) (0, 0) :=
    fun heq => by simpa using toAntisymmetrization_le_toAntisymmetrization_iff.1 heq.le
  simp [classes, AlignedAbove, mem_common, hne]

/-- Two incomparable types with a common subtype. -/
theorem joinPromotedTypes_diamond : [((1, 0) : ℕ × ℕ), (0, 0)].Pairwise (· > ·) ∧
    [((0, 1) : ℕ × ℕ), (0, 0)].Pairwise (· > ·) ∧ join [((1, 0) : ℕ × ℕ), (0, 0)] [(0, 1), (0, 0)] = [] := by
  simp [join, joinPromotedTypes, joinLoop, isSameType, isSubtypeOf]

end
end DartSdk.FlowAnalysis
