import DartSdk.Queue.Operations

namespace DartSdk.Queue
open Function Option Nat ListQueue List
open DartSdk.Ring List
variable {E : Type} {l : List E} {q : ListQueue E}

namespace Holds

section

lemma shrunk (h : Holds l q) {l' : List E} {q' : ListQueue E} (hlen : q'.table.length = q.table.length)
    (hle : l'.length ≤ l.length) (hslo : Slots q'.table q'.head fun j => l'[j]?)
    (htail : q'.tail = (q'.head + l'.length) % q.table.length) : Holds l' q' := by
  have hroom := h.room
  refine ⟨?_, ?_, by omega, hslo, ?_⟩
  · rw [hlen]
    exact h.pow
  · rw [hlen]
    exact h.two_le
  · rw [hlen]
    exact htail

lemma removeFirst (h : Holds l q) : ∃ q', q.removeFirst = some (q', l.head?) ∧ Holds l.tail q' := by
  have hroom := h.room
  rw [ListQueue.removeFirst]
  cases l with
  | nil => exact ⟨q, if_pos (h.head_eq_tail.2 rfl), h⟩
  | cons x l =>
    rw [length_cons] at hroom
    have hread := h.read_eq (zero_lt_succ _)
    rw [h.head_add_zero] at hread
    have hset := h.slots.set (r := 0) (by omega) none
    rw [h.head_add_zero] at hset
    have hslo := hset.next
    have hnext := h.mask_add q.head 1
    rw [length_set] at hslo
    rw [if_neg fun heq => cons_ne_nil _ _ (h.head_eq_tail.1 heq), hread, some_bind, setAt_eq h.head_lt, some_bind,
      length_set]
    refine ⟨_, rfl, h.shrunk length_set (le_succ _) ?_ ?_⟩
    · rw [show (q.head + 1 : ℤ) = q.head + (1 : ℕ) from rfl, hnext]
      refine hslo.congr fun j hj => ?_
      by_cases hlast : j + 1 = q.table.length
      · rw [if_pos hlast, update_self, tail_cons, getElem?_eq_none (by omega)]
      · rw [if_neg hlast, update_of_ne (by omega), getElem?_cons_succ, tail_cons]
    · rw [show (q.head + 1 : ℤ) = q.head + (1 : ℕ) from rfl, hnext, Nat.mod_add_mod, h.tail_eq, length_cons,
        tail_cons, add_assoc, add_comm 1]

lemma clearLast (h : Holds l q) {n : ℕ} :
    Holds l.dropLast ⟨q.table.set ((q.head + (l.length - 1)) % q.table.length) none, q.head,
    (q.head + (l.length - 1)) % q.table.length, n⟩ := by
  have hroom := h.room
  have hset := h.slots.set (r := l.length - 1) (by omega) none
  refine h.shrunk length_set ?_ ?_ ?_
  · rw [length_dropLast]
    omega
  · refine hset.congr fun j hj => ?_
    rw [getElem?_dropLast]
    by_cases hj : j = l.length - 1
    · rw [hj, update_self, if_neg (lt_irrefl _)]
    · rw [update_of_ne hj]
      split
      · rfl
      · rw [getElem?_eq_none (by omega)]
  · rw [length_dropLast]

lemma removeLast (h : Holds l q) : ∃ q', q.removeLast = some (q', l.getLast?) ∧ Holds l.dropLast q' := by
  rw [ListQueue.removeLast]
  by_cases hl : l = []
  · subst hl
    exact ⟨q, if_pos (h.head_eq_tail.2 rfl), h⟩
  · have hpos := length_pos_iff.2 hl
    have hread := h.read_eq (p := l.length - 1) (by omega)
    have hlast : l.getLast? = some (l[l.length - 1]) := by rw [getLast?_eq_getElem?, getElem?_eq_getElem]
    rw [if_neg fun heq => hl (h.head_eq_tail.1 heq), h.tail_prev hl]
    dsimp only
    rw [hread, bind_eq_bind, setAt_eq (mod_lt _ (by have := h.room; omega)), bind_eq_bind, bind_some, hlast]
    exact ⟨_, rfl, h.clearLast⟩

end

section
variable {table : List (Option E)} {head k : ℕ} {f : ℕ → Option E}

lemma moveFromStart_eq (hpow : table.length = 2 ^ k) (hslo : Slots table head f) (fuel p : ℕ)
    (hp : p < table.length) (hfuel : p < fuel) : ∃ table',
    moveFromStart head fuel table ((head + p) % table.length) = some table' ∧ table'.length = table.length ∧
      Slots table' head fun j => if 0 < j ∧ j ≤ p then f (j - 1) else f j := by
  induction fuel generalizing table f p with
  | zero => omega
  | succ fuel ih =>
    have hhead := hslo.1
    rw [moveFromStart]
    cases p with
    | zero =>
      rw [add_zero, mod_eq_of_lt hhead, if_pos rfl]
      exact ⟨table, rfl, rfl, hslo.congr fun j _ => (if_neg (by omega)).symm⟩
    | succ p =>
      have hne : (head + (p + 1)) % table.length ≠ head := by
        rw [wrap_eq hhead (by omega)]
        split <;> omega
      have hprev : mask table.length (((head + (p + 1)) % table.length : ℕ) - 1) = (head + p) % table.length := by
        have := Queue.mask_sub (a := (head + (p + 1)) % table.length) hpow (b := 1) (by omega)
        rw [Nat.mod_add_mod, show head + (p + 1) + (table.length - 1) = head + p + table.length by omega,
          add_mod_right] at this
        exact this
      rw [if_neg hne, hprev]
      dsimp only
      rw [hslo.2 p (by omega), some_bind, setAt_eq (mod_lt _ (by omega)), bind_eq_bind]
      have hset := hslo.set hp (f p)
      have hlen : (table.set ((head + (p + 1)) % table.length) (f p)).length = table.length := length_set
      obtain ⟨table', ht, hl, hs⟩ := ih (hlen.trans hpow) hset p (by omega) (by omega)
      rw [hlen] at ht hl
      refine ⟨table', ht, hl, hs.congr fun j _ => ?_⟩
      -- the slot that has just been written is read by no later step
      by_cases hj : j = p + 1
      · subst hj
        rw [if_neg (by omega), if_pos (by omega), update_self, Nat.add_sub_cancel]
      · by_cases hjp : 0 < j ∧ j ≤ p
        · rw [if_pos hjp, if_pos (by omega), update_of_ne (by omega)]
        · rw [if_neg hjp, if_neg (by omega), update_of_ne hj]

lemma moveFromEnd_eq (last : ℕ) (hpow : table.length = 2 ^ k) (hslo : Slots table head f)
    (hlast : last < table.length) (fuel p : ℕ) (hp : p ≤ last) (hfuel : last - p < fuel) : ∃ table',
    moveFromEnd ((head + last) % table.length) fuel table ((head + p) % table.length) = some table' ∧
      table'.length = table.length ∧ Slots table' head fun j => if p ≤ j ∧ j < last then f (j + 1) else f j := by
  induction fuel generalizing table f p with
  | zero => omega
  | succ fuel ih =>
    have hhead := hslo.1
    rw [moveFromEnd]
    by_cases heq : p = last
    · rw [heq, if_pos rfl]
      exact ⟨table, rfl, rfl, hslo.congr fun j _ => (if_neg (by omega)).symm⟩
    · rw [if_neg (wrap_ne hhead (by omega) hlast heq), Queue.mask_next hpow]
      dsimp only
      rw [hslo.2 (p + 1) (by omega), some_bind, setAt_eq (mod_lt _ (by omega)), bind_eq_bind]
      have hset := hslo.set (r := p) (by omega) (f (p + 1))
      have hlen : (table.set ((head + p) % table.length) (f (p + 1))).length = table.length := length_set
      obtain ⟨table', ht, hl, hs⟩ := ih (hlen.trans hpow) hset (by rw [hlen]; exact hlast) (p + 1) (by omega) (by omega)
      rw [hlen] at ht hl
      refine ⟨table', ht, hl, hs.congr fun j _ => ?_⟩
      by_cases hj : j = p
      · subst hj
        rw [if_neg (by omega), if_pos (by omega), update_self]
      · by_cases hjp : p + 1 ≤ j ∧ j < last
        · rw [if_pos hjp, if_pos (by omega), update_of_ne (by omega)]
        · rw [if_neg hjp, if_neg (by omega), update_of_ne hj]

end

lemma mask_front (h : Holds l q) {p : ℕ} (hp : p < l.length) :
    mask q.table.length (((q.head + p) % q.table.length : ℕ) - q.head) = p := by
  have hhead := h.head_lt
  have hroom := h.room
  rw [h.mask_sub _ (by omega), Nat.mod_add_mod,
    show q.head + p + (q.table.length - q.head) = p + q.table.length by omega, add_mod_right,
    mod_eq_of_lt (by omega)]

lemma mask_back (h : Holds l q) {p : ℕ} (hp : p < l.length) :
    mask q.table.length (q.tail - ((q.head + p) % q.table.length : ℕ)) = l.length - p := by
  have hhead := h.head_lt
  have hroom := h.room
  have hlt : (q.head + p) % q.table.length < q.table.length := mod_lt _ (by omega)
  have hsum : q.tail + (q.table.length - (q.head + p) % q.table.length) = l.length - p ∨
      q.tail + (q.table.length - (q.head + p) % q.table.length) = l.length - p + q.table.length := by
    rw [h.tail_eq, wrap_eq hhead (by omega), wrap_eq hhead (by omega)]
    split <;> split <;> omega
  rw [h.mask_sub _ (by omega)]
  rcases hsum with hsum | hsum
  · rw [hsum, mod_eq_of_lt (by omega)]
  · rw [hsum, add_mod_right, mod_eq_of_lt (by omega)]

lemma removeAt (h : Holds l q) {p : ℕ} (hp : p < l.length) : ∃ q', q.removeAt ((q.head + p) % q.table.length)
    = some (q', (q'.head + p) % q'.table.length) ∧ Holds (l.eraseIdx p) q' ∧ q'.table.length = q.table.length ∧
    q'.modificationCount = q.modificationCount := by
  obtain ⟨k, hk⟩ := h.pow
  have hhead := h.head_lt
  have hroom := h.room
  have hera : (l.eraseIdx p).length = l.length - 1 := length_eraseIdx_of_lt hp
  rw [ListQueue.removeAt, h.mask_front hp, h.mask_back hp]
  dsimp only
  by_cases hside : p < l.length - p
  · obtain ⟨table, ht, hl, hs⟩ := moveFromStart_eq hk h.slots (q.table.length + 1) p (by omega) (by omega)
    have hset := hs.set (r := 0) (by omega) none
    rw [hl, h.head_add_zero] at hset
    have hnext := hset.next
    have hone : mask q.table.length (q.head + 1) = (q.head + 1) % q.table.length := h.mask_add q.head 1
    have hlen : (table.set q.head none).length = q.table.length := length_set.trans hl
    rw [hlen] at hnext
    rw [if_pos hside, ht, bind_eq_bind, bind_some, setAt_eq (by omega), bind_some, hone, h.mask_next]
    refine ⟨⟨table.set q.head none, (q.head + 1) % q.table.length, q.tail, q.modificationCount⟩,
      ?_, h.shrunk hlen (by omega) ?_ ?_, hlen, rfl⟩
    · dsimp only
      rw [hlen, Nat.mod_add_mod, add_assoc, add_comm 1]
    · refine hnext.congr fun j hj => ?_
      rw [hlen] at hj
      rw [getElem?_eraseIdx]
      by_cases hlast : j + 1 = q.table.length
      · rw [if_pos hlast, update_self, if_neg (by omega), getElem?_eq_none (by omega)]
      · rw [if_neg hlast, update_of_ne (by omega)]
        by_cases hj : j < p
        · rw [if_pos (by omega), if_pos hj, Nat.add_sub_cancel]
        · rw [if_neg (by omega), if_neg hj]
    · dsimp only
      rw [hera, h.tail_eq, Nat.mod_add_mod, show q.head + 1 + (l.length - 1) = q.head + l.length by omega]
  · obtain ⟨table, ht, hl, hs⟩ := moveFromEnd_eq (l.length - 1) hk h.slots (by omega)
      (q.table.length + 1) p (by omega) (by omega)
    have hset := hs.set (r := l.length - 1) (by omega) none
    rw [hl] at hset
    have hlt : (q.head + (l.length - 1)) % q.table.length < q.table.length := mod_lt _ (by omega)
    have hlen : (table.set ((q.head + (l.length - 1)) % q.table.length) none).length = q.table.length :=
      length_set.trans hl
    rw [if_neg hside, h.tail_prev (ne_nil_of_length_pos (by omega)), ht, bind_eq_bind,
      bind_some, setAt_eq (by omega), bind_some]
    refine ⟨⟨table.set ((q.head + (l.length - 1)) % q.table.length) none, q.head,
      (q.head + (l.length - 1)) % q.table.length, q.modificationCount⟩, ?_,
      h.shrunk hlen (by omega) ?_ ?_, hlen, rfl⟩
    · rw [hlen]
    · refine hset.congr fun j hj => ?_
      rw [getElem?_eraseIdx]
      by_cases hlast : j = l.length - 1
      · rw [hlast, update_self, if_neg (by omega), getElem?_eq_none (by omega)]
      · rw [update_of_ne hlast]
        by_cases hj : j < p
        · rw [if_neg (by omega), if_pos hj]
        · rw [if_neg hj]
          split
          · rfl
          · rw [getElem?_eq_none (by omega), getElem?_eq_none (by omega)]
    · rw [hera]

lemma eraseIdx_length (l1 : List E) (x : E) (l2 : List E) : (l1 ++ x :: l2).eraseIdx l1.length = l1 ++ l2 := by
  rw [eraseIdx_append_of_length_le le_rfl, Nat.sub_self, eraseIdx_zero, tail_cons]

lemma turn {l1 l2 : List E} {x : E} (h : Holds (l1 ++ x :: l2) q) : (q.head + l1.length) % q.table.length ≠ q.tail ∧
    q.read ((q.head + l1.length) % q.table.length) = some x ∧
    mask q.table.length (((q.head + l1.length) % q.table.length : ℕ) + 1)
    = (q.head + (l1 ++ [x]).length) % q.table.length := by
  have hlen : (l1 ++ x :: l2).length = l1.length + (l2.length + 1) := by rw [length_append, length_cons]
  refine ⟨?_, ?_, ?_⟩
  · rw [Ne, h.eq_tail (by omega)]
    omega
  · rw [h.read_eq (by omega)]
    simp
  · rw [h.mask_next, length_append, length_singleton]

lemma stop {l1 : List E} (h : Holds (l1 ++ []) q) : (q.head + l1.length) % q.table.length = q.tail := by
  rw [append_nil] at h
  exact (h.eq_tail le_rfl).2 rfl

lemma removeLoop (isValue : E → Bool) (fuel : ℕ) (l1 l2 : List E) (h : Holds (l1 ++ l2) q)
    (hfuel : l2.length < fuel) : ∃ q',
    q.removeLoop isValue fuel ((q.head + l1.length) % q.table.length) = some (q', l2.any isValue) ∧
    Holds (l1 ++ l2.eraseP isValue) q' := by
  induction fuel generalizing l1 l2 with
  | zero => omega
  | succ fuel ih =>
    rw [ListQueue.removeLoop]
    cases l2 with
    | nil => exact ⟨q, if_pos h.stop, h⟩
    | cons x l2 =>
      obtain ⟨hne, hread, hnext⟩ := h.turn
      rw [if_neg hne, hread, some_bind, any_cons]
      by_cases hx : isValue x = true
      · obtain ⟨q', hq', hhol, -⟩ := h.removeAt (p := l1.length) (by simp)
        rw [hq', hx, eraseP_cons_of_pos hx]
        rw [eraseIdx_length] at hhol
        exact ⟨_, rfl, hhol.modified (q'.modificationCount + 1)⟩
      · rw [eraseP_cons_of_neg hx, append_cons, hnext, Bool.eq_false_iff.2 hx]
        rw [append_cons] at h
        exact ih (l1 ++ [x]) l2 h (by rw [length_cons] at hfuel; omega)

lemma remove (h : Holds l q) (isValue : E → Bool) : ∃ q',
    q.remove isValue = some (q', l.any isValue) ∧ Holds (l.eraseP isValue) q' := by
  have hroom := h.room
  have hloop := removeLoop isValue (q.table.length + 1) [] l h (by omega)
  rw [length_nil, h.head_add_zero] at hloop
  exact hloop

lemma filterLoop (test : E → Bool) (removeMatching : Bool) (fuel : ℕ) (l1 l2 : List E)
    (h : Holds (l1 ++ l2) q) (hfuel : l2.length < fuel) : ∃ q',
    filterLoop test removeMatching fuel q q.modificationCount ((q.head + l1.length) % q.table.length) = some q' ∧
      Holds (l1 ++ l2.filter fun x => !(removeMatching == test x)) q' := by
  induction fuel generalizing l1 l2 q with
  | zero => omega
  | succ fuel ih =>
    rw [filterLoop]
    cases l2 with
    | nil => exact ⟨q, if_pos h.stop, h⟩
    | cons x l2 =>
      obtain ⟨hne, hread, hnext⟩ := h.turn
      rw [length_cons] at hfuel
      rw [if_neg hne, hread, some_bind, if_neg (not_not_intro rfl)]
      by_cases hx : (removeMatching == test x) = true
      · obtain ⟨q', hq', hhol, -⟩ := h.removeAt (p := l1.length) (by simp)
        rw [eraseIdx_length] at hhol
        rw [if_pos hx, hq', bind_eq_bind, filter_cons_of_neg (by simp [hx])]
        exact ih l1 l2 (hhol.modified (q'.modificationCount + 1)) (by omega)
      · rw [if_neg hx, filter_cons_of_pos (by simp [hx]), append_cons, hnext]
        rw [append_cons] at h
        exact ih (l1 ++ [x]) l2 h (by omega)

section
variable (h : Holds l q) (test : E → Bool)
include h test

lemma filterWhere (removeMatching : Bool) : ∃ q',
    q.filterWhere test removeMatching = some q' ∧ Holds (l.filter fun x => !(removeMatching == test x)) q' := by
  have hroom := h.room
  have hloop := filterLoop test removeMatching (q.table.length + 1) [] l h (by omega)
  rw [length_nil, h.head_add_zero] at hloop
  exact hloop

lemma removeWhere : ∃ q', q.removeWhere test = some q' ∧ Holds (l.filter fun x => !test x) q' := by
  have hfil := h.filterWhere test true
  simp only [Bool.true_beq] at hfil
  exact hfil

lemma retainWhere : ∃ q', q.retainWhere test = some q' ∧ Holds (l.filter test) q' := by
  have hfil := h.filterWhere test false
  simp only [Bool.false_beq, Bool.not_not] at hfil
  exact hfil

end

lemma clearLoop {table : List (Option E)} {head k n : ℕ} (hpow : table.length = 2 ^ k)
    (hn : n < table.length) (fuel p : ℕ) (hp : p ≤ n) (hfuel : n - p < fuel)
    (hslo : Slots table head fun j => if p ≤ j then l[j]? else none) (hl : l.length ≤ n) :
    ListQueue.clearLoop ((head + n) % table.length) fuel table ((head + p) % table.length)
      = some (replicate table.length none) := by
  induction fuel generalizing table p with
  | zero => omega
  | succ fuel ih =>
    have hhead := hslo.1
    rw [ListQueue.clearLoop]
    by_cases heq : p = n
    · rw [heq, if_pos rfl]
      have hnull : Slots table head fun _ => none := by
        refine hslo.congr fun j _ => ?_
        split
        · rw [getElem?_eq_none (by omega)]
        · rfl
      rw [← hnull.eq_replicate]
    · have hset := hslo.set (r := p) (by omega) none
      have hlen : (table.set ((head + p) % table.length) none).length = table.length := length_set
      have hloop := ih (hlen.trans hpow) (by omega) (p + 1) (by omega) (by omega) (hset.congr fun j _ => by
          by_cases hj : j = p
          · rw [hj, update_self, if_neg (by omega)]
          · rw [update_of_ne hj]
            by_cases hjp : p ≤ j
            · rw [if_pos hjp, if_pos (by omega)]
            · rw [if_neg hjp, if_neg (by omega)])
      rw [hlen] at hloop
      rw [if_neg (wrap_ne hhead (by omega) hn heq), setAt_eq (mod_lt _ (by omega)), some_bind, hlen,
        Queue.mask_next hpow]
      exact hloop

lemma clear (h : Holds l q) : ∃ q', q.clear = some q' ∧ Holds [] q' := by
  rw [ListQueue.clear]
  by_cases heq : q.head = q.tail
  · rw [if_neg (not_not_intro heq)]
    rw [h.head_eq_tail.1 heq] at h
    exact ⟨q, rfl, h⟩
  · obtain ⟨k, hk⟩ := h.pow
    have hroom := h.room
    have htwo := h.two_le
    have hloop := clearLoop hk h.room (q.table.length + 1) 0 (zero_le _) (by omega)
      (h.slots.congr fun j _ => (if_pos (zero_le _)).symm) le_rfl
    rw [h.head_add_zero, ← h.tail_eq] at hloop
    rw [if_pos heq, hloop, bind_eq_bind]
    exact ⟨_, rfl, holds_flat (k := k) (by rw [length_nil]; omega) (by omega) (by omega) rfl rfl rfl⟩

end Holds
end DartSdk.Queue
