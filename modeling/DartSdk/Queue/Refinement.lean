import DartSdk.Queue.Removal

namespace DartSdk.Queue
open Option
open DartSdk.Ring Simulation
variable {E : Type}
variable {l : List E}

inductive Op (E : Type)
  | add (value : E)
  | addFirst (value : E)
  | addAll (list : List E)
  | addEach (elements : List E)
  | removeFirst
  | removeLast
  | remove (isValue : E → Bool)
  | removeWhere (test : E → Bool)
  | retainWhere (test : E → Bool)
  | clear

inductive Out (E : Type)
  | done
  /-- `none` stands for the `StateError` of an empty queue. -/
  | element (e : Option E)
  | found (b : Bool)
deriving DecidableEq

def queueStep (q : ListQueue E) : Op E → Option (ListQueue E × Out E)
  | .add value => (q.add value).map fun q => (q, .done)
  | .addFirst value => (q.addFirst value).map fun q => (q, .done)
  | .addAll list => (q.addAll list).map fun q => (q, .done)
  | .addEach elements => (q.addEach elements).map fun q => (q, .done)
  | .removeFirst => q.removeFirst.map fun r => (r.1, .element r.2)
  | .removeLast => q.removeLast.map fun r => (r.1, .element r.2)
  | .remove isValue => (q.remove isValue).map fun r => (r.1, .found r.2)
  | .removeWhere test => (q.removeWhere test).map fun q => (q, .done)
  | .retainWhere test => (q.retainWhere test).map fun q => (q, .done)
  | .clear => q.clear.map fun q => (q, .done)

def listStep (l : List E) : Op E → List E × Out E
  | .add value => (l ++ [value], .done)
  | .addFirst value => (value :: l, .done)
  | .addAll list => (l ++ list, .done)
  | .addEach elements => (l ++ elements, .done)
  | .removeFirst => (l.tail, .element l.head?)
  | .removeLast => (l.dropLast, .element l.getLast?)
  | .remove isValue => (l.eraseP isValue, .found (l.any isValue))
  | .removeWhere test => (l.filter fun x => !test x, .done)
  | .retainWhere test => (l.filter test, .done)
  | .clear => ([], .done)

def listSpec (l : List E) (op : Op E) (out : Out E) (l' : List E) : Prop := listStep l op = (l', out)

structure Agrees (q : ListQueue E) (l : List E) : Prop where
  pow : ∃ k, q.table.length = 2 ^ k
  room : l.length < q.table.length
  length : q.length = l.length
  isEmpty : q.isEmpty = l.isEmpty
  elementAt : ∀ index, q.elementAt index = some l[index]?
  first : q.first = some l.head?
  last : q.last = some l.getLast?
  toList : q.toList = some l
  iterate : q.iterate = some l
  /-- The slots of the live range are those at a distance less than the length from the head. -/
  dead : ∀ i < q.table.length, mask q.table.length (i - q.head) < q.length ∨ q.table[i]? = some none

variable {q : ListQueue E}

lemma Holds.dead (h : Holds l q) {i : ℕ} (hi : i < q.table.length) :
    mask q.table.length (i - q.head) < q.length ∨ q.table[i]? = some none := by
  have hhead := h.head_lt
  rw [h.length_eq, h.mask_sub _ (by omega)]
  set j := (i + (q.table.length - q.head)) % q.table.length with hj
  have hlt : j < q.table.length := Nat.mod_lt _ (by omega)
  have hslot := h.slots.2 j hlt
  rw [hj, Nat.add_mod_mod, show q.head + (i + (q.table.length - q.head)) = i + q.table.length by omega,
    Nat.add_mod_right, Nat.mod_eq_of_lt hi] at hslot
  by_cases hlive : j < l.length
  · exact .inl hlive
  · right
    rw [hslot]
    exact congrArg some (List.getElem?_eq_none (by omega))

lemma Holds.agrees (h : Holds l q) : Agrees q l where
  pow := h.pow
  room := h.room
  length := h.length_eq
  isEmpty := h.isEmpty_eq
  elementAt := h.elementAt_eq
  first := h.first_eq
  last := h.last_eq
  toList := h.toList_eq
  iterate := h.iterate_eq
  dead _ := h.dead

lemma holds_new (initialCapacity : Option ℤ) :
    ∃ q : ListQueue E, ListQueue.new initialCapacity = some q ∧ Holds [] q := by
  obtain ⟨k, hk, hle⟩ := calculateCapacity_eq initialCapacity
  refine ⟨⟨List.replicate (2 ^ k) none, 0, 0, 0⟩, ?_, holds_flat (k := k) ?_ ?_ ?_ rfl rfl rfl⟩
  · rw [ListQueue.new, hk, some_bind]
  · rw [List.length_nil, Nat.zero_add]
  · omega
  · omega

lemma exists_done {r : Option (ListQueue E)} (h : ∃ q', r = some q' ∧ Holds l q') : ∃ q' out l',
    r.map (fun q => (q, (.done : Out E))) = some (q', out) ∧ (l, .done) = (l', out) ∧ Holds l' q' := by
  obtain ⟨q', rfl, h'⟩ := h
  exact ⟨q', _, _, rfl, rfl, h'⟩

lemma Holds.step (h : Holds l q) (op : Op E) : ∃ q' out l',
    queueStep q op = some (q', out) ∧ listSpec l op out l' ∧ Holds l' q' := by
  cases op with
  | add value => exact exists_done (h.add value)
  | addFirst value => exact exists_done (h.addFirst value)
  | addAll list => exact exists_done (h.addAll list)
  | addEach elements => exact exists_done (h.addEach elements)
  | removeFirst =>
    obtain ⟨q', hq', h'⟩ := h.removeFirst
    exact ⟨q', _, _, by rw [queueStep, hq', map_some], rfl, h'⟩
  | removeLast =>
    obtain ⟨q', hq', h'⟩ := h.removeLast
    exact ⟨q', _, _, by rw [queueStep, hq', map_some], rfl, h'⟩
  | remove isValue =>
    obtain ⟨q', hq', h'⟩ := h.remove isValue
    exact ⟨q', _, _, by rw [queueStep, hq', map_some], rfl, h'⟩
  | removeWhere test => exact exists_done (h.removeWhere test)
  | retainWhere test => exact exists_done (h.retainWhere test)
  | clear => exact exists_done h.clear

theorem listQueue_refines (initialCapacity : Option ℤ) (ops : List (Op E)) :
    ∃ q q' : ListQueue E, ∃ outs l, ListQueue.new initialCapacity = some q ∧
      run queueStep q ops = some (q', outs) ∧ Specified listSpec [] ops outs l ∧ Agrees q' l := by
  have hstep : ∀ {q : ListQueue E} {l op}, Holds l q → True → ∃ q' out l',
      queueStep q op = some (q', out) ∧ listSpec l op out l' ∧ Holds l' q' :=
    fun h _ => h.step _
  obtain ⟨q, hq, h⟩ := holds_new initialCapacity
  obtain ⟨q', outs, l, hrun, hspec, h'⟩ :=
    run_simulates @hstep ops h (along_true q ops)
  exact ⟨q, q', outs, l, hq, hrun, hspec, h'.agrees⟩

end DartSdk.Queue
