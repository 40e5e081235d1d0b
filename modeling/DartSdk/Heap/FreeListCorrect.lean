import DartSdk.Heap.FreeList
import Mathlib.Algebra.BigOperators.Ring.Multiset

namespace DartSdk.Heap
open Function Nat Multiset Option

namespace FreeListElement

def Covers (e : FreeListElement) (byte : ℕ) : Prop := e.address ≤ byte ∧ byte < e.address + e.size

instance (e : FreeListElement) (byte : ℕ) : Decidable (e.Covers byte) := inferInstanceAs (Decidable (_ ∧ _))

structure Aligned (l : ℕ) (e : FreeListElement) : Prop where
  address : 2 ^ objectAlignmentLog2 l ∣ e.address
  size : 2 ^ objectAlignmentLog2 l ∣ e.size
  pos : 0 < e.size

end FreeListElement

section

def coverage (regions : Multiset FreeListElement) (byte : ℕ) : ℕ := regions.countP (·.Covers byte)

def bytes (regions : Multiset FreeListElement) : ℕ := (regions.map FreeListElement.size).sum

inductive Takes (regions : Multiset FreeListElement) : FreeListElement → Multiset FreeListElement → Prop
  | whole {e : FreeListElement} {rest : Multiset FreeListElement} : regions = e ::ₘ rest → Takes regions e rest
  | front {e : FreeListElement} {rest : Multiset FreeListElement} {size : ℕ} : regions = e ::ₘ rest → size < e.size →
      Takes regions ⟨e.address, size⟩ (⟨e.address + size, e.size - size⟩ ::ₘ rest)

variable {regions regions' : Multiset FreeListElement} {block : FreeListElement}

lemma coverage_cons (e : FreeListElement) (byte : ℕ) :
    coverage (e ::ₘ regions) byte = coverage regions byte + if e.Covers byte then 1 else 0 := by
  rw [coverage, countP_cons]
  rfl

section
variable (h : Takes regions block regions')
include h

lemma Takes.coverage (byte : ℕ) :
    coverage regions byte = coverage regions' byte + if block.Covers byte then 1 else 0 := by
  cases h with
  | whole heq => rw [heq, coverage_cons]
  | @front e rest size heq hlt =>
    rw [heq, coverage_cons, coverage_cons, add_assoc]
    congr 1
    by_cases hfro : byte < e.address + size
    · rw [if_neg (c := FreeListElement.Covers ⟨e.address + size, e.size - size⟩ byte) fun h => by
        have := h.1
        dsimp only at this
        omega, zero_add]
      refine if_congr ⟨fun h => ⟨h.1, hfro⟩, fun h => ⟨h.1, ?_⟩⟩ rfl rfl
      omega
    · rw [if_neg (c := FreeListElement.Covers ⟨e.address, size⟩ byte) (fun h => hfro h.2)]
      refine if_congr ⟨fun h => ⟨?_, ?_⟩, fun h => ⟨?_, ?_⟩⟩ rfl rfl
      all_goals
        rw [FreeListElement.Covers] at h
        dsimp only at h ⊢
        omega

lemma Takes.inside : ∃ region ∈ regions, ∀ byte, block.Covers byte → region.Covers byte := by
  cases h with
  | whole heq => exact ⟨block, heq ▸ mem_cons_self _ _, fun _ => id⟩
  | @front e rest size heq hlt =>
    refine ⟨e, heq ▸ mem_cons_self _ _, fun byte hbyte => ?_⟩
    rw [FreeListElement.Covers] at hbyte ⊢
    dsimp only at hbyte
    omega

lemma Takes.bytes : bytes regions = block.size + bytes regions' := by
  cases h with
  | whole heq => rw [heq, Heap.bytes, map_cons, sum_cons, Heap.bytes]
  | front heq hlt =>
    rw [heq, Heap.bytes, map_cons, sum_cons, Heap.bytes, map_cons, sum_cons]
    dsimp only
    omega

end
end

namespace FreeList
variable {l : ℕ} {f : FreeList l}

def regions (f : FreeList l) : Multiset FreeListElement := ∑ i ∈ Finset.range (numLists + 1), (f.freeLists i : Multiset _)

def LargestSmall (f : FreeList l) : Prop :=
  (f.lastFreeSmallSize < 0 ∧ ∀ i < numLists, f.freeLists i = []) ∨
    ∃ i < numLists, f.lastFreeSmallSize = ((i <<< objectAlignmentLog2 l : ℕ) : ℤ) ∧ f.freeLists i ≠ [] ∧
      ∀ j < numLists, i < j → f.freeLists j = []

structure Indexed (f : FreeList l) : Prop where
  element : ∀ i ≤ numLists, ∀ e ∈ f.freeLists i, e.Aligned l ∧ indexForSize l e.size = i
  freeMap : ∀ i, f.freeMap.test i = true ↔ i < numLists ∧ f.freeLists i ≠ []
  last : f.LargestSmall

variable {index : ℕ}

lemma sum_update (lists : ℕ → List FreeListElement) (hind : index ≤ numLists) (list : List FreeListElement) :
    (∑ i ∈ Finset.range (numLists + 1), (update lists index list i : Multiset FreeListElement)) + lists index =
    (∑ i ∈ Finset.range (numLists + 1), (lists i : Multiset FreeListElement)) + list := by
  have hmem : index ∈ Finset.range (numLists + 1) := Finset.mem_range.2 (lt_succ_of_le hind)
  rw [← Finset.add_sum_erase _ _ hmem, ← Finset.add_sum_erase _ _ hmem, update_self]
  have hrest : ∑ i ∈ (Finset.range (numLists + 1)).erase index, (update lists index list i : Multiset _) =
      ∑ i ∈ (Finset.range (numLists + 1)).erase index, (lists i : Multiset FreeListElement) :=
    Finset.sum_congr rfl fun i hi => by rw [update_of_ne (Finset.ne_of_mem_erase hi)]
  rw [hrest]
  ac_rfl

lemma indexForSize_le (l size : ℕ) : indexForSize l size ≤ numLists := by
  rw [indexForSize]
  split_ifs <;> omega

lemma size_of_index {size index : ℕ} (hsize : 2 ^ objectAlignmentLog2 l ∣ size) (h : indexForSize l size = index)
    (hind : index < numLists) : size = index <<< objectAlignmentLog2 l := by
  rw [indexForSize] at h
  split_ifs at h
  · omega
  · rw [← h, Nat.shiftLeft_eq, Nat.shiftRight_eq_div_pow, Nat.div_mul_cancel hsize]

variable {g : FreeList l} {e : FreeListElement}

lemma regions_enqueue (hind : index ≤ numLists)
    (hlis : g.freeLists = update f.freeLists index (e :: f.freeLists index)) :
    g.regions = e ::ₘ f.regions := by
  have hsum := sum_update f.freeLists hind (e :: f.freeLists index)
  rw [← hlis, ← cons_coe, add_cons, ← cons_add] at hsum
  exact add_right_cancel hsum

lemma regions_dequeue {list : List FreeListElement}
    (hind : index ≤ numLists) (hlist : List.Perm (f.freeLists index) (e :: list))
    (hlis : g.freeLists = update f.freeLists index list) : f.regions = e ::ₘ g.regions := by
  have hsum := sum_update f.freeLists hind list
  rw [← hlis, coe_eq_coe.2 hlist, ← cons_coe, add_cons, ← cons_add] at hsum
  exact (add_right_cancel hsum).symm

lemma LargestSmall.congr (h : f.LargestSmall) (hlast : g.lastFreeSmallSize = f.lastFreeSmallSize)
    (hemp : ∀ j < numLists, g.freeLists j = [] ↔ f.freeLists j = []) : g.LargestSmall := by
  rcases h with ⟨hneg, hnone⟩ | ⟨i, hi, heq, hne, hnone⟩
  · exact .inl ⟨hlast ▸ hneg, fun j hj => (hemp j hj).2 (hnone j hj)⟩
  · exact .inr ⟨i, hi, hlast.trans heq, fun hnil => hne ((hemp i hi).1 hnil), fun j hj hij =>
      (hemp j hj).2 (hnone j hj hij)⟩

lemma shiftLeft_inj {i j a : ℕ} (h : i <<< a = j <<< a) : i = j := by
  rw [Nat.shiftLeft_eq, Nat.shiftLeft_eq] at h
  exact Nat.eq_of_mul_eq_mul_right (Nat.two_pow_pos a) h

lemma enqueueElement_lists (f : FreeList l) (e : FreeListElement) (index : ℕ) :
    (f.enqueueElement e index).freeLists = update f.freeLists index (e :: f.freeLists index) := by
  rw [enqueueElement]
  split_ifs <;> rfl

lemma enqueueElement_indexed (h : f.Indexed) (he : e.Aligned l) :
    (f.enqueueElement e (indexForSize l e.size)).Indexed := by
  generalize hind : indexForSize l e.size = index
  have hlis := f.enqueueElement_lists e index
  have hemp (j : ℕ) : (f.enqueueElement e index).freeLists j = [] ↔ j ≠ index ∧ f.freeLists j = [] := by
    rw [hlis]
    by_cases hj : j = index
    · rw [hj]
      simp
    · simp [hj]
  refine ⟨fun i hi e' he' => ?_, ?_, ?_⟩
  · rw [hlis] at he'
    by_cases hi' : i = index
    · rw [hi', update_self] at he'
      rcases List.mem_cons.1 he' with rfl | he'
      · exact ⟨he, hind.trans hi'.symm⟩
      · rw [hi']
        exact h.element index (hi' ▸ hi) e' he'
    · rw [update_of_ne hi'] at he'
      exact h.element i hi e' he'
  · intro j
    rw [enqueueElement]
    split_ifs with hnew
    · have hlt : index < numLists := lt_of_le_of_ne (hind ▸ indexForSize_le l e.size) hnew.2
      rw [BitSet.test_set]
      by_cases hj : j = index
      · simp [hj, hlt]
      · rw [if_neg hj, h.freeMap]
        simp [hj]
    · rw [h.freeMap]
      by_cases hj : j = index
      · rw [hj]
        by_cases hlt : index < numLists
        · have hne : f.freeLists index ≠ [] := fun hnil => hnew ⟨hnil, hlt.ne⟩
          simp [hne]
        · simp [hlt]
      · simp [hj]
  · by_cases hnew : f.freeLists index = [] ∧ index ≠ numLists
    · have hlast : (f.enqueueElement e index).lastFreeSmallSize =
          max f.lastFreeSmallSize ((index <<< objectAlignmentLog2 l : ℕ) : ℤ) := by
        rw [enqueueElement, if_pos hnew]
      have hlt : index < numLists := lt_of_le_of_ne (hind ▸ indexForSize_le l e.size) hnew.2
      rcases h.last with ⟨hneg, hnone⟩ | ⟨i, hi, heq, hne, hnone⟩
      · refine .inr ⟨index, hlt, ?_, fun hnil => ((hemp index).1 hnil).1 rfl, fun j hj hij => ?_⟩
        · rw [hlast, max_eq_right (hneg.le.trans (Int.natCast_nonneg _))]
        · exact (hemp j).2 ⟨hij.ne', hnone j hj⟩
      · rcases lt_trichotomy i index with hlt' | rfl | hgt
        · refine .inr ⟨index, hlt, ?_, fun hnil => ((hemp index).1 hnil).1 rfl, fun j hj hij => ?_⟩
          · rw [hlast, heq, max_eq_right (Int.ofNat_le.2 ?_)]
            rw [Nat.shiftLeft_eq, Nat.shiftLeft_eq]
            exact mul_le_mul_right _ hlt'.le
          · exact (hemp j).2 ⟨hij.ne', hnone j hj (hlt'.trans hij)⟩
        · exact absurd hnew.1 hne
        · refine .inr ⟨i, hi, ?_, fun hnil => hne ((hemp i).1 hnil).2, fun j hj hij => ?_⟩
          · rw [hlast, heq, max_eq_left (Int.ofNat_le.2 ?_)]
            rw [Nat.shiftLeft_eq, Nat.shiftLeft_eq]
            exact mul_le_mul_right _ hgt.le
          · exact (hemp j).2 ⟨(hgt.trans hij).ne', hnone j hj hij⟩
    · refine h.last.congr (by rw [enqueueElement, if_neg hnew]) fun j hj => ?_
      rw [hemp]
      refine ⟨And.right, fun hnil => ⟨?_, hnil⟩⟩
      rintro rfl
      exact hnew ⟨hnil, hj.ne⟩

lemma clearIndex_spec (h : f.Indexed) (hlt : index < numLists) (hne : f.freeLists index ≠ [])
    (hmap : g.freeMap = (f.clearIndex index).freeMap)
    (hlast : g.lastFreeSmallSize = (f.clearIndex index).lastFreeSmallSize)
    (hlis : g.freeLists = update f.freeLists index []) :
    (∀ i, g.freeMap.test i = true ↔ i < numLists ∧ g.freeLists i ≠ []) ∧ g.LargestSmall := by
  have hemp (j : ℕ) : g.freeLists j = [] ↔ j = index ∨ f.freeLists j = [] := by
    rw [hlis]
    by_cases hj : j = index
    · simp [hj]
    · simp [hj]
  have htest {m : BitSet (l + 3)} (hm : ∀ j, m.test j = if j = index then false else f.freeMap.test j) (j : ℕ) :
      m.test j = true ↔ j < numLists ∧ g.freeLists j ≠ [] := by
    rw [hm, Ne, hemp]
    by_cases hj : j = index
    · simp [hj]
    · rw [if_neg hj, h.freeMap]
      simp [hj]
  rw [clearIndex] at hmap hlast
  split_ifs at hmap hlast with heq
  · dsimp only at hmap hlast
    have hhigh : ∀ j, index < j → f.freeMap.test j = false := by
      intro j hj
      rw [← Bool.not_eq_true, h.freeMap]
      rintro ⟨hj', hne'⟩
      rcases h.last with ⟨hneg, -⟩ | ⟨i, hi, heq', -, hnone⟩
      · exact absurd hneg (heq ▸ not_lt.2 (Int.natCast_nonneg _))
      · obtain rfl := shiftLeft_inj (Int.ofNat.inj (heq.trans heq'))
        exact hne' (hnone j hj' hj)
    obtain ⟨hcle, hpre⟩ := BitSet.clearLastAndFindPrevious_spec ((h.freeMap index).2 ⟨hlt, hne⟩) hhigh
    rw [hmap]
    refine ⟨htest hcle, ?_⟩
    rcases hpre with ⟨hnone, hall⟩ | ⟨i, hi, hbit, hall⟩
    · refine .inl ⟨?_, fun j hj => ?_⟩
      · rw [hlast, hnone]
        have := Nat.two_pow_pos (objectAlignmentLog2 l)
        omega
      · by_contra hne'
        exact absurd ((htest hcle j).2 ⟨hj, hne'⟩) (by rw [hall]; decide)
    · obtain ⟨hi', hne'⟩ := (htest hcle i).1 hbit
      refine .inr ⟨i, hi', ?_, hne', fun j hj hij => ?_⟩
      · rw [hlast, hi, Nat.shiftLeft_eq]
        rfl
      · by_contra hne''
        exact absurd ((htest hcle j).2 ⟨hj, hne''⟩) (by rw [hall j hij]; decide)
  · rw [hmap]
    refine ⟨htest fun j => f.freeMap.test_set index false j, ?_⟩
    rcases h.last with ⟨-, hnone⟩ | ⟨i, hi, heq', hne', hnone⟩
    · exact absurd (hnone index hlt) hne
    · refine .inr ⟨i, hi, hlast.trans heq', fun hnil => ?_, fun j hj hij => (hemp j).2 (.inr (hnone j hj hij))⟩
      rcases (hemp i).1 hnil with rfl | hnil
      · exact heq heq'.symm
      · exact hne' hnil

lemma dequeueElement_spec (h : f.Indexed) (hind : index ≤ numLists) (hne : f.freeLists index ≠ []) :
    ∃ e g, f.dequeueElement index = some (e, g) ∧ e.Aligned l ∧ indexForSize l e.size = index ∧ g.Indexed ∧
    f.regions = e ::ₘ g.regions := by
  obtain ⟨e, next, hlist⟩ := List.exists_cons_of_ne_nil hne
  have he := h.element index hind e (hlist ▸ List.mem_cons_self)
  obtain ⟨g, hg, hlis, hmap, hlast⟩ : ∃ g : FreeList l, f.dequeueElement index = some (e, g) ∧
      g.freeLists = update f.freeLists index next ∧
      (∀ i, g.freeMap.test i = true ↔ i < numLists ∧ g.freeLists i ≠ []) ∧ g.LargestSmall := by
    rw [dequeueElement, hlist]
    refine ⟨_, rfl, rfl, ?_⟩
    by_cases hnil : next = [] ∧ index ≠ numLists
    · rw [if_pos hnil, hnil.1]
      exact clearIndex_spec h (lt_of_le_of_ne hind hnil.2) hne rfl rfl rfl
    · rw [if_neg hnil]
      have hemp (j : ℕ) (hj : j < numLists) : update f.freeLists index next j = [] ↔ f.freeLists j = [] := by
        by_cases hj' : j = index
        · subst hj'
          rw [update_self, hlist]
          exact ⟨fun hnil' => absurd ⟨hnil', hj.ne⟩ hnil, nofun⟩
        · rw [update_of_ne hj']
      refine ⟨fun i => ?_, h.last.congr rfl hemp⟩
      rw [h.freeMap]
      exact and_congr_right fun hi => not_congr (hemp i hi).symm
  refine ⟨e, g, hg, he.1, he.2, ⟨fun i hi e' he' => ?_, hmap, hlast⟩, regions_dequeue hind (.of_eq hlist) hlis⟩
  rw [hlis] at he'
  by_cases hi' : i = index
  · rw [hi', update_self] at he'
    rw [hi']
    exact h.element index hind e' (hlist ▸ List.mem_cons_of_mem _ he')
  · rw [update_of_ne hi'] at he'
    exact h.element i hi e' he'

variable {size : ℕ}

lemma splitElementAfterAndEnqueue_spec (h : f.Indexed) (he : e.Aligned l)
    (hpos : 0 < size) (hsize : 2 ^ objectAlignmentLog2 l ∣ size) (hle : size ≤ e.size)
    {regions : Multiset FreeListElement} (hreg : regions = e ::ₘ f.regions) :
    (f.splitElementAfterAndEnqueue e size).Indexed ∧
    Takes regions ⟨e.address, size⟩ (f.splitElementAfterAndEnqueue e size).regions := by
  rw [splitElementAfterAndEnqueue]
  split_ifs with hzero
  · obtain rfl : size = e.size := by omega
    exact ⟨h, .whole hreg⟩
  · have hrest : FreeListElement.Aligned l ⟨e.address + size, e.size - size⟩ :=
      ⟨dvd_add he.address hsize, dvd_sub he.size hsize, by dsimp only; omega⟩
    refine ⟨enqueueElement_indexed h hrest, ?_⟩
    rw [regions_enqueue (indexForSize_le l _) (enqueueElement_lists f _ _)]
    exact .front hreg (by omega)

def Allocated (f : FreeList l) (size : ℕ) (r : Option ℕ × FreeList l) : Prop :=
  r.2.Indexed ∧ (r.1 = none → r.2.regions = f.regions) ∧ ∀ address, r.1 = some address →
    2 ^ objectAlignmentLog2 l ∣ address ∧ Takes f.regions ⟨address, size⟩ r.2.regions

lemma Allocated.none (h : g.Indexed) (hreg : g.regions = f.regions) (size : ℕ) :
    Allocated f size (none, g) := ⟨h, fun _ => hreg, nofun⟩

lemma allocateFromLists_spec (h : f.Indexed) (hpos : 0 < size) (hsize : 2 ^ objectAlignmentLog2 l ∣ size) :
    ∃ r, f.allocateFromLists size = some r ∧ Allocated f size r := by
  rw [allocateFromLists]
  dsimp only
  split_ifs with hexa hlt hnext
  · obtain ⟨hlt, hne⟩ := (h.freeMap _).1 hexa.2
    obtain ⟨e, g, hg, he, hind, hg', hreg⟩ := dequeueElement_spec h hlt.le hne
    rw [hg]
    refine ⟨_, rfl, hg', nofun, fun address hsome => ?_⟩
    obtain rfl := some.inj hsome
    obtain rfl : size = e.size := by rw [size_of_index hsize rfl hlt, size_of_index he.size hind hlt]
    exact ⟨he.address, .whole hreg⟩
  · rcases f.freeMap.next_spec numLists (indexForSize l size + 1) with hnone | ⟨j, hj, hle, htest⟩
    · exact absurd hnone hnext
    · obtain ⟨hjlt, hne⟩ := (h.freeMap j).1 htest
      rw [hj, Int.toNat_natCast]
      obtain ⟨e, g, hg, he, hind, hg', hreg⟩ := dequeueElement_spec h hjlt.le hne
      have hles : size ≤ e.size := by
        rw [size_of_index hsize rfl (by omega), size_of_index he.size hind hjlt, Nat.shiftLeft_eq, Nat.shiftLeft_eq]
        exact mul_le_mul_right _ (by omega)
      obtain ⟨hspl, htakes⟩ := splitElementAfterAndEnqueue_spec hg' he hpos hsize hles hreg
      rw [hg]
      refine ⟨_, rfl, hspl, nofun, fun address hsome => ?_⟩
      obtain rfl := some.inj hsome
      exact ⟨he.address, htakes⟩
  · exact ⟨_, rfl, .none h rfl size⟩
  · exact ⟨_, rfl, .none h rfl size⟩

lemma search_found {triesLeft : ℤ} {list : List FreeListElement} {current : FreeListElement}
    {others : List FreeListElement} {triesLeft' : ℤ}
    (h : search size triesLeft list = .found current others triesLeft') :
    list.Perm (current :: others) ∧ size ≤ current.size := by
  induction list generalizing triesLeft others with
  | nil => cases h
  | cons e list ih =>
    rw [search] at h
    split_ifs at h with hle
    · cases h
      exact ⟨.refl _, hle⟩
    · cases hrest : search size (triesLeft - 1) list with
      | found current' others' tries =>
        rw [hrest] at h
        cases h
        obtain ⟨hperm, hle⟩ := ih hrest
        exact ⟨(hperm.cons e).trans (.swap _ _ _), hle⟩
      | budget | missing =>
        rw [hrest] at h
        cases h

lemma tryAllocateLargeLocked_spec (h : f.Indexed) (size : ℕ) : (f.tryAllocateLargeLocked size).2.Indexed ∧
    ((f.tryAllocateLargeLocked size).1 = none → (f.tryAllocateLargeLocked size).2.regions = f.regions) ∧
    ∀ e, (f.tryAllocateLargeLocked size).1 = some e → e.Aligned l ∧ size ≤ e.size ∧
    f.regions = e ::ₘ (f.tryAllocateLargeLocked size).2.regions := by
  rw [tryAllocateLargeLocked]
  generalize hsea : search size (f.freelistSearchBudget + (size >>> l : ℕ)) (f.freeLists numLists) = s
  cases s with
  | found current others tries =>
    obtain ⟨hperm, hle⟩ := search_found hsea
    have hlow (j : ℕ) (hj : j < numLists) : update f.freeLists numLists others j = f.freeLists j :=
      update_of_ne hj.ne _ _
    refine ⟨⟨fun i hi e he => ?_, fun i => ?_, h.last.congr rfl fun j hj => ?_⟩, nofun, ?_⟩
    · dsimp only at he
      rcases lt_or_eq_of_le hi with hi' | rfl
      · rw [hlow i hi'] at he
        exact h.element i hi e he
      · exact h.element numLists le_rfl e (hperm.mem_iff.2 (List.mem_cons_of_mem _ he))
    · dsimp only
      rw [h.freeMap]
      exact and_congr_right fun hi => by rw [hlow i hi]
    · dsimp only
      rw [hlow j hj]
    · rintro e ⟨⟩
      exact ⟨(h.element numLists le_rfl current (hperm.mem_iff.2 List.mem_cons_self)).1, hle,
        regions_dequeue le_rfl hperm rfl⟩
  | budget => exact ⟨⟨h.element, h.freeMap, h.last⟩, fun _ => rfl, nofun⟩
  | missing => exact ⟨h, fun _ => rfl, nofun⟩

section
variable (h : f.Indexed) (hpos : 0 < size) (hsize : 2 ^ objectAlignmentLog2 l ∣ size)
include h hpos hsize

lemma tryAllocateLocked_spec : ∃ r, f.tryAllocateLocked size = some r ∧ Allocated f size r := by
  obtain ⟨⟨address, g⟩, heq, hg, hnone, hsome⟩ := allocateFromLists_spec h hpos hsize
  rw [tryAllocateLocked, heq]
  refine ⟨_, rfl, ?_⟩
  cases address with
  | some address => exact ⟨hg, hnone, hsome⟩
  | none =>
    obtain ⟨hlar, hmis, hfou⟩ := tryAllocateLargeLocked_spec hg size
    dsimp only at hg hnone ⊢
    generalize g.tryAllocateLargeLocked size = r at hlar hmis hfou
    obtain ⟨e, g'⟩ := r
    cases e with
    | none => exact .none hlar ((hmis rfl).trans (hnone rfl)) size
    | some e =>
      obtain ⟨he, hle, hreg⟩ := hfou e rfl
      obtain ⟨hspl, htakes⟩ := splitElementAfterAndEnqueue_spec hlar he hpos hsize hle ((hnone rfl).symm.trans hreg)
      refine ⟨hspl, nofun, fun address hsome => ?_⟩
      obtain rfl := some.inj hsome
      exact ⟨he.address, htakes⟩

lemma tryAllocateSmallLocked_spec : ∃ r, f.tryAllocateSmallLocked size = some r ∧ Allocated f size r := by
  rw [tryAllocateSmallLocked]
  split_ifs
  · exact ⟨_, rfl, .none h rfl size⟩
  · exact allocateFromLists_spec h hpos hsize

end

def Request.Met : Request → ℕ → Prop
  | .allocate size, blockSize => blockSize = size
  | .allocateSmall size, blockSize => blockSize = size
  | .allocateLarge minimumSize, blockSize => minimumSize ≤ blockSize

structure Serves (f : FreeList l) (request : Request) (r : Option FreeListElement × FreeList l) : Prop where
  indexed : r.2.Indexed
  none : r.1 = none → r.2.regions = f.regions
  some : ∀ block, r.1 = some block → block.Aligned l ∧ Takes f.regions block r.2.regions ∧ request.Met block.size
  whole : ∀ n block, request = .allocateLarge n → r.1 = Option.some block → f.regions = block ::ₘ r.2.regions

lemma Allocated.block {r : Option ℕ × FreeList l} (h : Allocated f size r) (hpos : 0 < size)
    (hsize : 2 ^ objectAlignmentLog2 l ∣ size) (block : FreeListElement) (hblock : r.1.map (⟨·, size⟩) = some block) :
    block.Aligned l ∧ Takes f.regions block r.2.regions ∧ block.size = size := by
  obtain ⟨address, hadd, rfl⟩ := map_eq_some_iff.1 hblock
  obtain ⟨haligned, htakes⟩ := h.2.2 address hadd
  exact ⟨⟨haligned, hsize, hpos⟩, htakes, rfl⟩

lemma request_spec (h : f.Indexed) (q : Request) (hpos : 0 < q.size) (hsize : 2 ^ objectAlignmentLog2 l ∣ q.size) :
    ∃ r, f.request q = some r ∧ Serves f q r := by
  cases q with
  | allocate size =>
    obtain ⟨r, hr, hallo⟩ : ∃ r, f.tryAllocateLocked size = some r ∧ Allocated f size r :=
      tryAllocateLocked_spec h hpos hsize
    rw [request, hr]
    exact ⟨_, rfl, hallo.1, fun hnone => hallo.2.1 (map_eq_none_iff.1 hnone), hallo.block hpos hsize, nofun⟩
  | allocateSmall size =>
    obtain ⟨r, hr, hallo⟩ : ∃ r, f.tryAllocateSmallLocked size = some r ∧ Allocated f size r :=
      tryAllocateSmallLocked_spec h hpos hsize
    rw [request, hr]
    exact ⟨_, rfl, hallo.1, fun hnone => hallo.2.1 (map_eq_none_iff.1 hnone), hallo.block hpos hsize, nofun⟩
  | allocateLarge minimumSize =>
    obtain ⟨hinde, hnone, hsome⟩ := tryAllocateLargeLocked_spec h minimumSize
    refine ⟨_, rfl, hinde, hnone, fun block hblock => ?_, fun _ block _ hblock => (hsome block hblock).2.2⟩
    obtain ⟨haligned, hle, hreg⟩ := hsome block hblock
    exact ⟨haligned, .whole hreg, hle⟩

inductive Reachable : FreeList l → Set ℕ → Prop
  | reset : Reachable {} ∅
  | free {f : FreeList l} {allocated : Set ℕ} {region : FreeListElement} : Reachable f allocated → region.Aligned l →
      (∀ byte, region.Covers byte → coverage f.regions byte = 0) →
      Reachable (f.freeLocked region.address region.size) {byte | byte ∈ allocated ∧ ¬region.Covers byte}
  | request {f g : FreeList l} {allocated : Set ℕ} {q : Request} {block : Option FreeListElement} :
      Reachable f allocated → 0 < q.size → 2 ^ objectAlignmentLog2 l ∣ q.size → f.request q = some (block, g) →
      Reachable g {byte | byte ∈ allocated ∨ ∃ e ∈ block, e.Covers byte}

structure Sound (f : FreeList l) (allocated : Set ℕ) : Prop where
  indexed : f.Indexed
  once : ∀ byte, coverage f.regions byte ≤ 1
  apart : ∀ byte ∈ allocated, coverage f.regions byte = 0

lemma freeLocked_regions (f : FreeList l) (region : FreeListElement) :
    (f.freeLocked region.address region.size).regions = region ::ₘ f.regions :=
  regions_enqueue (indexForSize_le l _) (enqueueElement_lists f _ _)

lemma indexed_reset : ({} : FreeList l).Indexed := by
  refine ⟨fun i _ e he => absurd he List.not_mem_nil, fun i => ?_, .inl ⟨show (-1 : ℤ) < 0 by decide, fun i _ => rfl⟩⟩
  rw [BitSet.test_eq]
  simp

lemma coverage_reset (byte : ℕ) : coverage ({} : FreeList l).regions byte = 0 := by
  have hemp : ({} : FreeList l).regions = 0 := Finset.sum_eq_zero fun i _ => rfl
  rewrite [hemp]
  rfl

lemma Reachable.sound {allocated : Set ℕ} (h : Reachable f allocated) : Sound f allocated := by
  induction h with
  | reset =>
    exact ⟨indexed_reset, fun byte => (coverage_reset byte).le.trans (zero_le _),
      fun byte hbyte => absurd hbyte (Set.notMem_empty _)⟩
  | @free f allocated region _ haligned hdis ih =>
    refine ⟨enqueueElement_indexed ih.indexed haligned, fun byte => ?_, fun byte hbyte => ?_⟩
    · rewrite [freeLocked_regions, coverage_cons]
      have honce := ih.once byte
      split_ifs with hcovers
      · have := hdis byte hcovers
        omega
      · omega
    · rewrite [freeLocked_regions, coverage_cons, if_neg hbyte.2, add_zero]
      exact ih.apart byte hbyte.1
  | @request f g allocated q block _ hpos hsize heq ih =>
    obtain ⟨r, hr, hserves⟩ := request_spec ih.indexed q hpos hsize
    obtain rfl : r = (block, g) := some.inj (hr.symm.trans heq)
    cases block with
    | none =>
      have hreg : g.regions = f.regions := hserves.none rfl
      refine ⟨hserves.indexed, fun byte => ?_, fun byte hbyte => ?_⟩
      · rewrite [hreg]
        exact ih.once byte
      rewrite [hreg]
      obtain hbyte | ⟨e, he, -⟩ := hbyte
      · exact ih.apart byte hbyte
      · cases he
    | some block =>
      obtain ⟨-, htakes, -⟩ := hserves.some block rfl
      refine ⟨hserves.indexed, fun byte => ?_, fun byte hbyte => ?_⟩
      · have := htakes.coverage byte
        have := ih.once byte
        dsimp only at *
        omega
      · have hcoverage := htakes.coverage byte
        have honce := ih.once byte
        obtain hbyte | ⟨e, ⟨⟩, hcovers⟩ := hbyte
        · rw [ih.apart byte hbyte] at hcoverage
          dsimp only at *
          omega
        · rw [if_pos hcovers] at hcoverage
          dsimp only at *
          omega

theorem freeList_allocator {allocated : Set ℕ} (h : Reachable f allocated) :
    (∀ i < numLists, f.freeMap.test i = true ↔ f.freeLists i ≠ []) ∧ f.LargestSmall ∧
      (∀ byte, coverage f.regions byte ≤ 1) ∧ (∀ byte ∈ allocated, coverage f.regions byte = 0) ∧
      (∀ region : FreeListElement, (f.freeLocked region.address region.size).regions = region ::ₘ f.regions) ∧
      ∀ q : Request, 0 < q.size → 2 ^ objectAlignmentLog2 l ∣ q.size → ∃ result g, f.request q = some (result, g) ∧
        (result = none → g.regions = f.regions) ∧ ∀ block, result = some block → block.Aligned l ∧
          q.size ≤ block.size ∧ ((∀ n, q ≠ .allocateLarge n) → block.size = q.size) ∧
          (∀ n, q = .allocateLarge n → f.regions = block ::ₘ g.regions) ∧
          (∃ region ∈ f.regions, ∀ byte, block.Covers byte → region.Covers byte) ∧
          (∀ byte, 0 < coverage g.regions byte ↔ 0 < coverage f.regions byte ∧ ¬block.Covers byte) ∧
          bytes f.regions = block.size + bytes g.regions := by
  have hsound := h.sound
  refine ⟨fun i hi => ?_, hsound.indexed.last, hsound.once, hsound.apart, f.freeLocked_regions, fun q hpos hsize => ?_⟩
  · rw [hsound.indexed.freeMap]
    exact and_iff_right hi
  obtain ⟨⟨result, g⟩, hr, hserves⟩ := request_spec hsound.indexed q hpos hsize
  refine ⟨result, g, hr, hserves.none, fun block hblock => ?_⟩
  obtain ⟨haligned, htakes, hmeets⟩ := hserves.some block hblock
  refine ⟨haligned, ?_, fun hnot => ?_, fun n hn => hserves.whole n block hn hblock, htakes.inside, fun byte => ?_,
    htakes.bytes⟩
  · cases q with
    | allocate size | allocateSmall size => exact hmeets.ge
    | allocateLarge minimumSize => exact hmeets
  · cases q with
    | allocate size | allocateSmall size => exact hmeets
    | allocateLarge minimumSize => exact absurd rfl (hnot minimumSize)
  · have hcoverage := htakes.coverage byte
    have honce := hsound.once byte
    dsimp only at hcoverage
    split_ifs at hcoverage with hcovers
    · exact ⟨fun hpos => absurd hpos (by omega), fun h => absurd hcovers h.2⟩
    · exact ⟨fun hpos => ⟨by omega, hcovers⟩, fun h => by omega⟩

lemma reachable_page : Reachable (({} : FreeList 3).freeLocked 8192 8192)
    {byte | byte ∈ (∅ : Set ℕ) ∧ ¬FreeListElement.Covers ⟨8192, 8192⟩ byte} :=
  @Reachable.free 3 _ _ ⟨8192, 8192⟩ .reset ⟨by decide, by decide, by decide⟩ fun byte _ => coverage_reset byte

theorem freeList_allocator_page : ∃ block g,
    (({} : FreeList 3).freeLocked 8192 8192).request (.allocate 4096) = some (some block, g) ∧ block.size = 4096 := by
  obtain ⟨-, -, -, -, -, hrequest⟩ := freeList_allocator reachable_page
  obtain ⟨result, g, heq, -, hblock⟩ := hrequest (.allocate 4096) (by decide) (by decide)
  have hsome : ((({} : FreeList 3).freeLocked 8192 8192).request (.allocate 4096)).map (·.1) = some (some ⟨8192, 4096⟩) := rfl
  obtain rfl : result = some ⟨8192, 4096⟩ := some.inj (by rw [heq] at hsome; exact hsome)
  exact ⟨_, g, heq, (hblock _ rfl).2.2.1 nofun⟩

theorem allocateLarge_page : ∃ (f g : FreeList 3) (allocated : Set ℕ), Reachable f allocated ∧
    f.request (.allocateLarge 4096) = some (some ⟨8192, 8192⟩, g) :=
  ⟨_, _, _, reachable_page, rfl⟩

end FreeList
end DartSdk.Heap
