import DartSdk.CompactHash.MapOperations
import DartSdk.CompactHash.SetOperations

namespace DartSdk.CompactHash

inductive IterationError
  | concurrentModification
  | range
  | endless
deriving DecidableEq

structure CompactIterable where
  dataId : ℕ
  len : ℕ
  offset : ℤ
  step : ℕ

structure CompactIterator extends CompactIterable where
  checkSum : ℕ

section
variable {K V : Type}

def Slot.isDeleted : Slot K V → Bool
  | .deleted => true
  | _ => false

namespace CompactIterator

def advance (data : List (Slot K V)) (len step : ℕ) : ℕ → ℤ → Except IterationError ℤ
  | 0, _ => .error .endless
  | fuel + 1, offset =>
    let offset := offset + step
    if offset < len then
      match data[offset.toNat]? with
      | none => .error .range
      | some x => if x.isDeleted then advance data len step fuel offset else .ok offset
    else .ok offset

def moveNext (table : HashFieldBase (Slot K V)) (it : CompactIterator) :
    Except IterationError (CompactIterator × Option (Slot K V)) :=
  if table.isModifiedSince it.dataId it.checkSum then .error .concurrentModification
  else do
    let offset ← advance table.data it.len it.step (it.len + 1) it.offset
    if offset < it.len then
      match table.data[offset.toNat]? with
      | none => .error .range
      | some x => .ok ({ it with offset := offset }, some x)
    else .ok ({ it with offset := offset }, none)

def elements (table : HashFieldBase (Slot K V)) : ℕ → CompactIterator → Except IterationError (List (Slot K V))
  | 0, _ => .error .endless
  | fuel + 1, it => do
    let (it, current) ← it.moveNext table
    match current with
    | none => .ok []
    | some x => do
      let rest ← elements table fuel it
      .ok (x :: rest)

end CompactIterator

namespace CompactIterable

def iterator (it : CompactIterable) (table : HashFieldBase (Slot K V)) : CompactIterator where
  toCompactIterable := it
  checkSum := table.checkSum

def iterate (it : CompactIterable) (table : HashFieldBase (Slot K V)) : Except IterationError (List (Slot K V)) :=
  CompactIterator.elements table (it.len + 1) (it.iterator table)

end CompactIterable

def LinkedHashMap.keys (s : LinkedHashMap K V) : CompactIterable := ⟨s.dataId, s.usedData, -2, 2⟩

def LinkedHashMap.values (s : LinkedHashMap K V) : CompactIterable := ⟨s.dataId, s.usedData, -1, 2⟩

def LinkedHashSet.elements (s : LinkedHashSet K) : CompactIterable := ⟨s.dataId, s.usedData, -1, 1⟩

end

variable {K E V : Type} {H : EqualsAndHashCode K} {smi63 : Bool}
  {L : Layout K E (Slot K V)} {s : HashFieldBase (Slot K V)} {log : List (Option E)} {b j n : ℕ}

section

lemma drop_take_eq_cons {α : Type} {l : List α} {e n : ℕ} {x : α} (hx : l[e]? = some x)
    (hlt : e < n) : (l.take n).drop e = x :: (l.take n).drop (e + 1) := by
  obtain ⟨he, rfl⟩ := List.getElem?_eq_some_iff.1 hx
  rw [List.drop_eq_getElem_cons (by rw [List.length_take]; omega), List.getElem_take]

def offsetBefore (step j e : ℕ) : ℤ := (step * e + j : ℕ) - step

lemma offsetBefore_add (step j e : ℕ) : offsetBefore step j e + step = (step * e + j : ℕ) := Int.sub_add_cancel _ _

lemma offsetBefore_succ (step j e : ℕ) : offsetBefore step j (e + 1) = (step * e + j : ℕ) := by
  rw [offsetBefore, Nat.mul_succ]
  omega

variable (h : Table H smi63 L s log b) (hj : j < L.step) (hn : n ≤ log.length)
  (hslot : ∀ x, (L.slot x j).isDeleted = x.isNone)

include hj in
lemma offset_lt_iff (e : ℕ) : ((L.step * e + j : ℕ) : ℤ) < (L.step * n : ℕ) ↔ e < n := by
  rw [Int.ofNat_lt]
  constructor
  · intro hlt
    exact Nat.lt_of_mul_lt_mul_left (a := L.step) (by omega)
  · intro hlt
    have hmul := Nat.mul_le_mul_left L.step hlt
    rw [Nat.mul_succ] at hmul
    omega

include h hj hn hslot

open CompactIterator List

lemma advance_eq (fuel : ℕ) : ∀ e ≤ n, n < e + fuel → ∃ e', e ≤ e' ∧ e' ≤ n ∧
    advance s.data (L.step * n) L.step fuel (offsetBefore L.step j e) = .ok (L.step * e' + j : ℕ) ∧
    ((log.take n).drop e).reduceOption = ((log.take n).drop e').reduceOption ∧
    (e' < n → ∃ x, log[e']? = some (some x)) := by
  induction fuel with
  | zero =>
    intro e he hfuel
    omega
  | succ fuel ih =>
    intro e he hfuel
    rw [advance]
    simp only [offsetBefore_add, offset_lt_iff hj, Int.toNat_natCast]
    rcases Nat.lt_or_eq_of_le he with hlt | rfl
    · obtain ⟨x, hx⟩ : ∃ x, log[e]? = some x := ⟨_, List.getElem?_eq_getElem (by omega)⟩
      rw [if_pos hlt, h.slots hx hj]
      dsimp only
      rw [hslot]
      cases x with
      | none =>
        obtain ⟨e', hle, hle', hadv, hred, hlive⟩ := ih (e + 1) hlt (by omega)
        refine ⟨e', by omega, hle', ?_, ?_, hlive⟩
        · rw [← hadv, if_pos Option.isNone_none, offsetBefore_succ]
        · rw [drop_take_eq_cons hx hlt, reduceOption_cons_of_none, hred]
      | some x => exact ⟨e, Nat.le_refl e, he, if_neg (by simp), rfl, fun _ => ⟨x, hx⟩⟩
    · exact ⟨e, Nat.le_refl e, Nat.le_refl e, if_neg (Nat.lt_irrefl e), rfl, fun hlt => absurd hlt (Nat.lt_irrefl e)⟩

variable (it : CompactIterator) (hid : it.dataId = s.dataId) (hsum : it.checkSum = s.checkSum)
  (hlen : it.len = L.step * n) (hstep : it.step = L.step)

include hid hsum hlen hstep

lemma moveNext_eq {e : ℕ} (he : e ≤ n) (hoff : it.offset = offsetBefore L.step j e) : (∃ e' x, e ≤ e' ∧ e' < n ∧
    ((log.take n).drop e).reduceOption = x :: ((log.take n).drop (e' + 1)).reduceOption ∧
    it.moveNext s = .ok ({ it with offset := offsetBefore L.step j (e' + 1) }, some (L.slot (some x) j))) ∨
    (((log.take n).drop e).reduceOption = [] ∧ ∃ it', it.moveNext s = .ok (it', none)) := by
  have hmodified : s.isModifiedSince it.dataId it.checkSum = false := by simp [HashFieldBase.isModifiedSince, hid, hsum]
  have hle : n ≤ L.step * n := Nat.le_mul_of_pos_left n L.step_pos
  obtain ⟨e', hee', hle', hadv, hred, hlive⟩ := advance_eq h hj hn hslot (L.step * n + 1) e he (by omega)
  rw [moveNext, hmodified, if_neg (by simp), hlen, hstep, hoff, hadv, hred]
  simp only [bind, Except.bind, offset_lt_iff hj, Int.toNat_natCast]
  rcases Nat.lt_or_eq_of_le hle' with hlt | rfl
  · obtain ⟨x, hx⟩ := hlive hlt
    refine .inl ⟨e', x, hee', hlt, ?_, ?_⟩
    · rw [drop_take_eq_cons hx hlt, reduceOption_cons_of_some]
    · rw [if_pos hlt, h.slots hx hj, offsetBefore_succ]
  · refine .inr ⟨?_, _, if_neg (Nat.lt_irrefl e')⟩
    rw [drop_eq_nil_of_le (length_take_le e' log), reduceOption_nil]

lemma elements_eq (fuel : ℕ) : ∀ e ≤ n, n < e + fuel → elements s fuel { it with offset := offsetBefore L.step j e } =
      .ok (((log.take n).drop e).reduceOption.map fun x => L.slot (some x) j) := by
  induction fuel with
  | zero =>
    intro e he hfuel
    omega
  | succ fuel ih =>
    intro e he hfuel
    rw [elements]
    rcases moveNext_eq h hj hn hslot { it with offset := offsetBefore L.step j e } hid hsum hlen
      hstep he rfl with ⟨e', x, hle, hlt, hred, hmove⟩ | ⟨hred, it', hmove⟩
    · rw [hmove, hred]
      simp only [bind, Except.bind]
      rw [ih (e' + 1) hlt (by omega), map_cons]
    · rw [hmove, hred]
      rfl

end

section

lemma iterate_eq (h : Table H smi63 L s log b) (hj : j < L.step) (hn : n ≤ log.length)
    (hslot : ∀ x, (L.slot x j).isDeleted = x.isNone) {it : CompactIterable}
    (hid : it.dataId = s.dataId) (hlen : it.len = L.step * n) (hstep : it.step = L.step)
    (hoff : it.offset = j - L.step) :
    it.iterate s = .ok ((log.take n).reduceOption.map fun x => L.slot (some x) j) := by
  have hle : n ≤ L.step * n := Nat.le_mul_of_pos_left n L.step_pos
  have hstart : it.offset = offsetBefore L.step j 0 := by rw [hoff, offsetBefore, Nat.mul_zero, Nat.zero_add]
  have hit : it.iterator s = { it.iterator s with offset := offsetBefore L.step j 0 } := by
    rw [← hstart]
    rfl
  rw [CompactIterable.iterate, hit, elements_eq h hj hn hslot (it.iterator s) hid rfl hlen hstep _ 0
    (Nat.zero_le n) (by omega), List.drop_zero]

lemma iterate_other_data {it : CompactIterable} (hid : it.dataId ≠ s.dataId) :
    it.iterate s = .error .concurrentModification := by
  have hmodified : s.isModifiedSince it.dataId s.checkSum = true := by simp [HashFieldBase.isModifiedSince, Ne.symm hid]
  rw [CompactIterable.iterate, CompactIterator.elements, CompactIterator.moveNext,
    CompactIterable.iterator, if_pos hmodified]
  rfl

end
end DartSdk.CompactHash
