import DartSdk.FlowAnalysis.Promotion
import Mathlib.Data.List.Chain
import Mathlib.Data.List.DropRight

namespace DartSdk.FlowAnalysis
open List

variable {α : Type}

section
variable [LE α] [DecidableLE α] (forcePromotion : α → α → List α → List α → Bool) (promoteToNonNull : α → α)
  (declaredType : α) (tested promotedTypes : List α) (writtenType : α)

def demoteViaAssignment : List α := promotedTypes.rdropWhile (!isSubtypeOf writtenType ·)

def typeListContains (list : List α) (searchType : α) : Bool := list.any (isSameType · searchType)

def addTypeToUniqueList (types : List α) (newType : α) : List α :=
  if typeListContains types newType then types else types ++ [newType]

def nonNullOf (type : α) : List α :=
  if isSameType (promoteToNonNull type) type then [] else [promoteToNonNull type]

def typesOfInterest : List α :=
  nonNullOf promoteToNonNull declaredType ++ tested.flatMap fun type => type :: nonNullOf promoteToNonNull type

def isCandidate (type : α) : Bool :=
  isSubtypeOf writtenType type &&
    promotedTypes.getLast?.all fun current => !isSameType type current && isSubtypeOf type current

/-- `original` is the chain of the variable before the assignment. -/
def tryPromoteToTypeOfInterest (original : List α) : List α :=
  if forcePromotion writtenType declaredType original promotedTypes then promotedTypes ++ [writtenType] else
  let candidates := (typesOfInterest promoteToNonNull declaredType tested).filter (isCandidate promotedTypes writtenType)
  if typeListContains candidates writtenType then promotedTypes ++ [writtenType]
  else
    let candidates := candidates.foldl addTypeToUniqueList []
    match candidates.filter fun type => candidates.all (isSubtypeOf type) with
    | [promoted] => promotedTypes ++ [promoted]
    | _ => promotedTypes

/-- The promoted types after `write`. -/
def write (promoteToTypeOfInterest : Bool) : List α :=
  let demoted := demoteViaAssignment promotedTypes writtenType
  if promoteToTypeOfInterest then
    tryPromoteToTypeOfInterest forcePromotion promoteToNonNull declaredType tested demoted writtenType promotedTypes
  else demoted

end

variable [Preorder α] [DecidableLE α] {c : List α} {w t : α}

lemma demoteViaAssignment_eq (h : c.Pairwise (· > ·)) (w : α) : demoteViaAssignment c w = c.filter (w ≤ ·) := by
  unfold demoteViaAssignment
  induction c using reverseRecOn with
  | nil => rfl
  | append_singleton c t ih =>
    obtain ⟨hc, -, ht⟩ := pairwise_append.1 h
    rw [rdropWhile_concat]
    split_ifs with hw
    · simp_all [isSubtypeOf]
    · have hw : w ≤ t := by simpa [isSubtypeOf] using hw
      have hall : c.filter (w ≤ ·) = c :=
        filter_eq_self.2 fun x hx => decide_eq_true (hw.trans (ht x hx t mem_cons_self).le)
      simp [hw, hall]

lemma mem_unique {types : List α} (h : t ∈ types.foldl addTypeToUniqueList []) : t ∈ types := by
  refine foldlRecOn (motive := (∀ t ∈ ·, t ∈ types)) types _ (by simp) (fun l hl a ha t ht => ?_) t h
  unfold addTypeToUniqueList at ht
  split_ifs at ht
  · exact hl t ht
  · exact (mem_append.1 ht).elim (hl t) fun ht => mem_singleton.1 ht ▸ ha

lemma isCandidate_spec (h : isCandidate c w t = true) : w ≤ t ∧ ∀ b ∈ c.getLast?, t < b := by
  simp only [isCandidate, isSameType, isSubtypeOf, Bool.and_eq_true, Option.all_eq_true] at h
  exact ⟨of_decide_eq_true h.1, fun b hb => lt_iff_le_not_ge.2 (by grind [h.2 b hb])⟩

variable (force : α → α → List α → List α → Bool) (f : α → α) (declaredType : α) (tested : List α)

lemma tryPromoteToTypeOfInterest_cases {original : List α} (hforce : force w declaredType original c = false) :
    ∃ added : Option α, tryPromoteToTypeOfInterest force f declaredType tested c w original = c ++ added.toList ∧
      ∀ t ∈ added, w ≤ t ∧ (∀ b ∈ c.getLast?, t < b) ∧
        typeListContains (typesOfInterest f declaredType tested) t = true := by
  have hrefl (t : α) : isSameType t t = true := by simp [isSameType, isSubtypeOf]
  unfold tryPromoteToTypeOfInterest
  rw [hforce, if_neg Bool.false_ne_true]
  dsimp only
  split_ifs with h
  · obtain ⟨t, ht, hs⟩ := any_eq_true.1 h
    obtain ⟨ht, hcan⟩ := mem_filter.1 ht
    obtain ⟨-, hle⟩ : t ≤ w ∧ w ≤ t := by simpa [isSameType, isSubtypeOf] using hs
    refine ⟨some w, rfl, fun _ hw => Option.some.inj hw ▸ ⟨le_rfl, fun b hb => ?_, any_eq_true.2 ⟨t, ht, hs⟩⟩⟩
    exact hle.trans_lt ((isCandidate_spec hcan).2 b hb)
  · split
    · rename_i t hf
      obtain ⟨ht, hcan⟩ := mem_filter.1 (mem_unique (mem_filter.1 (hf ▸ mem_cons_self : t ∈ filter _ _)).1)
      obtain ⟨hle, hlt⟩ := isCandidate_spec hcan
      exact ⟨some t, rfl, fun _ hw => Option.some.inj hw ▸ ⟨hle, hlt, any_eq_true.2 ⟨t, ht, hrefl t⟩⟩⟩
    · exact ⟨none, (append_nil c).symm, by simp⟩

theorem write_promotes (w : α) (promote : Bool) (c : List α) (h : c.Pairwise (· > ·))
    (hforce : promote = true → force w declaredType c (c.filter (w ≤ ·)) = false) : ∃ added : Option α,
    write force f declaredType tested c w promote = c.filter (w ≤ ·) ++ added.toList ∧
      (c.filter (w ≤ ·) ++ added.toList).Pairwise (· > ·) ∧
      ∀ t ∈ added, promote = true ∧ w ≤ t ∧ typeListContains (typesOfInterest f declaredType tested) t = true := by
  have hd := h.filter (w ≤ ·)
  rw [write, demoteViaAssignment_eq h]
  split_ifs with hp
  · obtain ⟨added, hw, ha⟩ := tryPromoteToTypeOfInterest_cases force f declaredType tested (hforce hp)
    refine ⟨added, hw, ?_, fun t ht => ⟨hp, (ha t ht).1, (ha t ht).2.2⟩⟩
    rw [← isChain_iff_pairwise] at *
    refine isChain_append.2 ⟨hd, ?_, fun b hb t ht => (ha t (by simpa using ht)).2.1 b hb⟩
    cases added <;> simp
  · exact ⟨none, (append_nil _).symm, by simpa using hd, nofun⟩

/-- The types 9 and 7 stay, 3 goes, and 5 was tested before. -/
theorem write_promotes_demoted : ∃ added : Option ℕ,
    write (fun _ _ _ _ => false) id 10 [5] [9, 7, 3] 4 true = [9, 7] ++ added.toList ∧
      ([9, 7] ++ added.toList).Pairwise (· > ·) := by
  obtain ⟨added, hw, hchain, -⟩ := write_promotes (fun _ _ _ _ => false) id 10 [5] 4 true [9, 7, 3] (by decide)
    (fun _ => rfl)
  exact ⟨added, hw, hchain⟩

end DartSdk.FlowAnalysis
