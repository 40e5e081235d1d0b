import DartSdk.Heap.BitSet
import Mathlib.Algebra.BigOperators.Group.Finset.Basic
import Mathlib.Data.Set.Lattice

/-!
`FreeList` of `vm/heap/freelist.h` and `freelist.cc`, on a target with words of `2 ^ l` bytes.  A list of elements
stands for the chain of their `next` fields.  The protection of pages is left out.
-/

namespace DartSdk.Heap

structure FreeListElement where
  address : ℕ
  size : ℕ
deriving DecidableEq

def objectAlignmentLog2 (l : ℕ) : ℕ := l + 1

def numLists : ℕ := 128

def initialFreeListSearchBudget : ℤ := 1000

structure FreeList (l : ℕ) where
  freeMap : BitSet (l + 3) := {}
  freeLists : ℕ → List FreeListElement := fun _ => []
  freelistSearchBudget : ℤ := initialFreeListSearchBudget
  lastFreeSmallSize : ℤ := -1

namespace FreeList
variable {l : ℕ}

def indexForSize (l size : ℕ) : ℕ :=
  let index := size >>> objectAlignmentLog2 l
  if numLists ≤ index then numLists else index

def enqueueElement (f : FreeList l) (element : FreeListElement) (index : ℕ) : FreeList l :=
  let next := f.freeLists index
  let lists := Function.update f.freeLists index (element :: next)
  if next = [] ∧ index ≠ numLists then
    { f with
      freeMap := f.freeMap.set index true
      lastFreeSmallSize := max f.lastFreeSmallSize ((index <<< objectAlignmentLog2 l : ℕ) : ℤ)
      freeLists := lists }
  else { f with freeLists := lists }

def clearIndex (f : FreeList l) (index : ℕ) : FreeList l :=
  if ((index <<< objectAlignmentLog2 l : ℕ) : ℤ) = f.lastFreeSmallSize then
    let previous := f.freeMap.clearLastAndFindPrevious index
    { f with freeMap := previous.1, lastFreeSmallSize := previous.2 * ((2 ^ objectAlignmentLog2 l : ℕ) : ℤ) }
  else { f with freeMap := f.freeMap.set index false }

def dequeueElement (f : FreeList l) (index : ℕ) : Option (FreeListElement × FreeList l) :=
  match f.freeLists index with
  | [] => none
  | result :: next =>
    let g := if next = [] ∧ index ≠ numLists then f.clearIndex index else f
    some (result, { g with freeLists := Function.update f.freeLists index next })

def splitElementAfterAndEnqueue (f : FreeList l) (element : FreeListElement) (size : ℕ) : FreeList l :=
  let remainderSize := element.size - size
  if remainderSize = 0 then f
  else f.enqueueElement ⟨element.address + size, remainderSize⟩ (indexForSize l remainderSize)

def freeLocked (f : FreeList l) (address size : ℕ) : FreeList l :=
  f.enqueueElement ⟨address, size⟩ (indexForSize l size)

def allocateFromLists (f : FreeList l) (size : ℕ) : Option (Option ℕ × FreeList l) :=
  let index := indexForSize l size
  if index ≠ numLists ∧ f.freeMap.test index then
    (f.dequeueElement index).map fun r => (some r.1.address, r.2)
  else if index + 1 < numLists then
    let nextIndex := f.freeMap.next numLists (index + 1)
    if nextIndex ≠ -1 then
      (f.dequeueElement nextIndex.toNat).map fun r => (some r.1.address, r.2.splitElementAfterAndEnqueue r.1 size)
    else some (none, f)
  else some (none, f)

def tryAllocateSmallLocked (f : FreeList l) (size : ℕ) : Option (Option ℕ × FreeList l) :=
  if (size : ℤ) > f.lastFreeSmallSize then some (none, f) else f.allocateFromLists size

inductive Search
  | found (current : FreeListElement) (others : List FreeListElement) (triesLeft : ℤ)
  | budget
  | missing

def Search.behind (previous : FreeListElement) : Search → Search
  | found current others triesLeft => found current (previous :: others) triesLeft
  | s => s

def search (size : ℕ) : ℤ → List FreeListElement → Search
  | _, [] => .missing
  | triesLeft, current :: next =>
    if size ≤ current.size then .found current next triesLeft
    else if triesLeft < 0 then .budget
    else (search size (triesLeft - 1) next).behind current

def tryAllocateLargeLocked (f : FreeList l) (minimumSize : ℕ) : Option FreeListElement × FreeList l :=
  match search minimumSize (f.freelistSearchBudget + (minimumSize >>> l : ℕ)) (f.freeLists numLists) with
  | .found current others triesLeft =>
    (some current, { f with
      freeLists := Function.update f.freeLists numLists others
      freelistSearchBudget := min triesLeft initialFreeListSearchBudget })
  | .budget => (none, { f with freelistSearchBudget := initialFreeListSearchBudget })
  | .missing => (none, f)

def tryAllocateLocked (f : FreeList l) (size : ℕ) : Option (Option ℕ × FreeList l) :=
  (f.allocateFromLists size).map fun r =>
    match r.1 with
    | some address => (some address, r.2)
    | none =>
      let large := r.2.tryAllocateLargeLocked size
      match large.1 with
      | some current => (some current.address, large.2.splitElementAfterAndEnqueue current size)
      | none => (none, large.2)

inductive Request
  | allocate (size : ℕ)
  | allocateSmall (size : ℕ)
  | allocateLarge (minimumSize : ℕ)

def Request.size : Request → ℕ
  | allocate size => size
  | allocateSmall size => size
  | allocateLarge minimumSize => minimumSize

def request (f : FreeList l) : Request → Option (Option FreeListElement × FreeList l)
  | .allocate size => (f.tryAllocateLocked size).map fun r => (r.1.map (⟨·, size⟩), r.2)
  | .allocateSmall size => (f.tryAllocateSmallLocked size).map fun r => (r.1.map (⟨·, size⟩), r.2)
  | .allocateLarge minimumSize => some (f.tryAllocateLargeLocked minimumSize)

end FreeList
end DartSdk.Heap
