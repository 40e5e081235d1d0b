import DartSdk.Library.Simulation
import DartSdk.Queue.ListQueue
import DartSdk.Library.Ring
import Mathlib.Tactic.Ring

namespace DartSdk.Queue
open Option Nat ListQueue List
open DartSdk.Ring List
variable {E : Type}

section

lemma mask_eq (k : ℕ) (x : ℤ) : mask (2 ^ k) x = (x % 2 ^ k).toNat := by
  have hpos : 0 < 2 ^ k := Nat.two_pow_pos k
  have hcast : (((2 ^ k : ℕ) : ℤ) - 1) = Int.ofNat (2 ^ k - 1) := by
    rw [Int.ofNat_eq_natCast]
    omega
  rw [mask, hcast]
  cases x with
  | ofNat m =>
    change m &&& (2 ^ k - 1) = _
    rw [Nat.and_two_pow_sub_one_eq_mod]
    rfl
  | negSucc m =>
    change Nat.ldiff (2 ^ k - 1) m = _
    have hlt : m % 2 ^ k < 2 ^ k := mod_lt _ hpos
    have hmod : (Int.negSucc m % 2 ^ k).toNat = 2 ^ k - (m % 2 ^ k + 1) := by
      have hcast' : (2 ^ k : ℤ) = ((2 ^ k : ℕ) : ℤ) := by push_cast; rfl
      rw [hcast', Int.negSucc_emod m (by exact_mod_cast hpos)]
      omega
    rw [hmod]
    apply eq_of_testBit_eq
    intro i
    rw [testBit_ldiff, testBit_two_pow_sub_succ hlt, testBit_mod_two_pow]
    by_cases hi : i < k <;> simp [hi]

variable {T k a b K n m : ℕ}

lemma mask_add (hT : T = 2 ^ k) : mask T (a + b) = (a + b) % T := by
  subst hT
  rw [mask_eq]
  exact_mod_cast Int.toNat_natCast _

lemma mask_next (hT : T = 2 ^ k) (a p : ℕ) : mask T (((a + p) % T : ℕ) + 1) = (a + (p + 1)) % T := by
  have hnext := mask_add (a := (a + p) % T) (b := 1) hT
  rwa [mod_add_mod] at hnext

lemma mask_sub (hT : T = 2 ^ k) (hb : b ≤ T) : mask T (a - b) = (a + (T - b)) % T := by
  subst hT
  have hx : (a - b : ℤ) = ((a + (2 ^ k - b) : ℕ) : ℤ) - 2 ^ k := by
    push_cast [cast_sub hb]
    ring
  rw [mask_eq, hx, Int.sub_emod_right]
  exact_mod_cast Int.toNat_natCast _

lemma clearLowest (hlow : 2 ^ K ≤ n) (hhigh : n < 2 ^ (K + 1)) :
    n &&& (n - 1) = 0 ∧ n = 2 ^ K ∨ 2 ^ K ≤ n &&& (n - 1) ∧ n &&& (n - 1) < n := by
  by_cases heq : n = 2 ^ K
  · left
    refine ⟨?_, heq⟩
    rw [heq, Nat.and_two_pow_sub_one_eq_mod, Nat.mod_self]
  · right
    have hbit : ∀ m, 2 ^ K ≤ m → m < 2 ^ K * 2 → m.testBit K = true := by
      intro m hm hm'
      have hdiv : m / 2 ^ K = 1 := Nat.div_eq_of_lt_le (by omega) (by omega)
      rw [Nat.testBit_eq_decide_div_mod_eq, hdiv]
      rfl
    constructor
    · apply Nat.ge_two_pow_of_testBit
      rw [testBit_and, hbit n hlow hhigh, hbit (n - 1) (by omega) (by omega)]
      rfl
    · have := and_le_right (n := n) (m := n - 1)
      omega

lemma nextPowerOf2Loop_eq (fuel : ℕ) (hlow : 2 ^ K ≤ n) (hhigh : n < 2 ^ (K + 1))
    (hfuel : n < fuel) : nextPowerOf2Loop fuel n = some (2 ^ K) := by
  induction fuel generalizing n with
  | zero => omega
  | succ fuel ih =>
    rw [nextPowerOf2Loop]
    rcases clearLowest hlow hhigh with ⟨hzero, rfl⟩ | ⟨hge, hlt⟩
    · rw [hzero]
      rfl
    · rw [if_neg (by omega)]
      exact ih hge (by omega) (by omega)

lemma nextPowerOf2_eq (hm : 0 < m) : ∃ k, nextPowerOf2 m = some (2 ^ k) ∧ m ≤ 2 ^ k := by
  have hne : 2 * m - 1 ≠ 0 := by omega
  refine ⟨Nat.log2 (2 * m - 1), ?_, ?_⟩
  · exact nextPowerOf2Loop_eq _ (Nat.log2_self_le hne) Nat.lt_log2_self (lt_succ_self _)
  · have h := Nat.lt_log2_self (n := 2 * m - 1)
    omega

lemma isPowerOf2_eq (hm : m ≠ 0) (h : isPowerOf2 m = true) : ∃ k, m = 2 ^ k := by
  rcases clearLowest (Nat.log2_self_le hm) Nat.lt_log2_self with ⟨-, heq⟩ | ⟨hge, -⟩
  · exact ⟨_, heq⟩
  · have hpos : 0 < 2 ^ m.log2 := Nat.two_pow_pos _
    rw [isPowerOf2, decide_eq_true_eq] at h
    omega

lemma calculateCapacity_eq (initialCapacity : Option ℤ) :
    ∃ k, calculateCapacity initialCapacity = some (2 ^ k) ∧ 8 ≤ 2 ^ k := by
  cases initialCapacity with
  | none => exact ⟨3, rfl, le_rfl⟩
  | some c =>
    rw [calculateCapacity]
    split
    · exact ⟨3, rfl, le_rfl⟩
    split
    · obtain ⟨k, hk, hle⟩ := nextPowerOf2_eq (m := c.toNat) (by omega)
      exact ⟨k, hk, by omega⟩
    · next hpow =>
      obtain ⟨k, hk⟩ := isPowerOf2_eq (m := c.toNat) (by omega) (by simpa using hpow)
      exact ⟨k, by rw [hk], by omega⟩

end

structure Holds (l : List E) (q : ListQueue E) : Prop where
  pow : ∃ k, q.table.length = 2 ^ k
  two_le : 2 ≤ q.table.length
  room : l.length < q.table.length
  slots : Slots q.table q.head fun j => l[j]?
  tail_eq : q.tail = (q.head + l.length) % q.table.length

variable {m s : ℕ} {l : List E} {table : List (Option E)}

lemma holds_flat {q : ListQueue E} {k : ℕ} (hlen : l.length + m = 2 ^ k)
    (htwo : 2 ≤ l.length + m) (hm : 0 < m) (htab : q.table = l.map some ++ replicate m none) (hhead : q.head = 0)
    (htail : q.tail = l.length) : Holds l q := by
  have hT : q.table.length = 2 ^ k := by rw [htab, length_append, length_map, length_replicate, hlen]
  refine ⟨⟨k, hT⟩, by omega, by omega, ?_, ?_⟩
  · rw [hhead]
    refine slots_zero (by omega) fun j hj => ?_
    rw [htab, getElem?_append, length_map]
    split
    · next hlt => rw [getElem?_map, getElem?_eq_getElem hlt, map_some]
    · next hge =>
      rw [getElem?_replicate_of_lt (by omega), getElem?_eq_none (by omega)]
  · rw [hhead, htail, zero_add, mod_eq_of_lt (by omega)]

lemma mapM_range' {f : ℕ → Option E} (h : ∀ i < l.length, f (s + i) = l[i]?) : (range' s l.length).mapM f = some l := by
  induction l generalizing s with
  | nil => rfl
  | cons x l ih =>
    have hx : f s = some x := h 0 (zero_lt_succ _)
    have hl : (range' (s + 1) l.length).mapM f = some l := by
      refine ih fun i hi => ?_
      have := h (i + 1) (succ_lt_succ hi)
      rw [getElem?_cons_succ] at this
      rw [← this, add_assoc, add_comm 1]
    rw [length_cons, range'_succ, mapM_cons, hx, hl]
    rfl

lemma setAt_eq {i : ℕ} (hi : i < table.length) (v : Option E) : setAt table i v = some (table.set i v) := if_pos hi

lemma setRange_eq {start : ℕ} {source : List (Option E)}
    (h : start + source.length ≤ table.length) : setRange table start source =
    some (table.take start ++ source ++ table.drop (start + source.length)) := if_pos h

lemma setRange_fresh {l : List (Option E)} (source : List (Option E)) (hs : s = l.length)
    (hm : source.length ≤ m) : setRange (l ++ replicate m none) s source =
    some (l ++ source ++ replicate (m - source.length) none) := by
  subst hs
  rw [setRange_eq (by rw [length_append, length_replicate]; omega), take_left,
    drop_append, Nat.add_sub_cancel_left, drop_replicate,
    drop_eq_nil_of_le (Nat.le_add_right _ _), nil_append]

lemma setRange_two {a b : List (Option E)} (hs : s = a.length) (hm : a.length + b.length ≤ m) :
    ((setRange (replicate m none) 0 a).bind fun t => setRange t s b) =
      some (a ++ b ++ replicate (m - (a.length + b.length)) none) := by
  have hfir := setRange_fresh (l := []) a (m := m) rfl (by omega)
  rw [nil_append, nil_append] at hfir
  rw [length_nil] at hfir
  rw [hfir, bind_some, setRange_fresh _ hs (by omega), Nat.sub_sub]

namespace Holds
variable {l : List E} {q : ListQueue E}

section

section
variable (h : Holds l q)
include h

lemma head_lt : q.head < q.table.length := h.slots.1

lemma head_add_zero : (q.head + 0) % q.table.length = q.head := mod_eq_of_lt h.head_lt

lemma mask_add (a b : ℕ) : mask q.table.length (a + b) = (a + b) % q.table.length :=
  h.pow.elim fun _ hk => Queue.mask_add hk

lemma mask_sub (a : ℕ) {b : ℕ} (hb : b ≤ q.table.length) :
    mask q.table.length (a - b) = (a + (q.table.length - b)) % q.table.length :=
  h.pow.elim fun _ hk => Queue.mask_sub hk hb

lemma mask_next (p : ℕ) : mask q.table.length (((q.head + p) % q.table.length : ℕ) + 1)
    = (q.head + (p + 1)) % q.table.length :=
  h.pow.elim fun _ hk => Queue.mask_next hk _ p

lemma tail_lt : q.tail < q.table.length := by
  rw [h.tail_eq]
  exact mod_lt _ (zero_lt_of_lt h.head_lt)

variable {p : ℕ}

lemma eq_tail (hp : p ≤ l.length) : (q.head + p) % q.table.length = q.tail ↔ p = l.length := by
  have := h.room
  rw [h.tail_eq, wrap_eq h.head_lt (by omega), wrap_eq h.head_lt (by omega)]
  split <;> split <;> omega

lemma head_eq_tail : q.head = q.tail ↔ l = [] := by
  have := h.eq_tail (zero_le _)
  rw [h.head_add_zero] at this
  rw [this, eq_comm, length_eq_zero_iff]

lemma length_eq : q.length = l.length := by
  have := h.head_lt
  rw [ListQueue.length, h.mask_sub _ (by omega), h.tail_eq, mod_add_mod,
    show q.head + l.length + (q.table.length - q.head) = l.length + q.table.length by omega,
    add_mod_right, mod_eq_of_lt h.room]

lemma read_eq (hp : p < l.length) : q.read ((q.head + p) % q.table.length) = some l[p] := by
  have := h.room
  rw [ListQueue.read, h.slots.2 p (by omega)]
  exact getElem?_eq_getElem hp

lemma isEmpty_eq : q.isEmpty = l.isEmpty := by
  rw [Bool.eq_iff_iff, ListQueue.isEmpty, decide_eq_true_eq, h.head_eq_tail, List.isEmpty_iff]

lemma first_eq : q.first = some l.head? := by
  rw [first]
  split
  · next heq => rw [h.head_eq_tail.1 heq, head?_nil]
  · next hne =>
    have hpos : 0 < l.length := length_pos_iff.2 fun hl => hne (h.head_eq_tail.2 hl)
    have hread := h.read_eq hpos
    rw [h.head_add_zero] at hread
    rw [hread, head?_eq_getElem?, getElem?_eq_getElem hpos, map_some]

lemma tail_prev (hl : l ≠ []) : mask q.table.length (q.tail - 1) = (q.head + (l.length - 1)) % q.table.length := by
  have := h.head_lt
  have := length_pos_iff.2 hl
  rw [show (q.tail - 1 : ℤ) = q.tail - (1 : ℕ) from rfl, h.mask_sub _ (by omega), h.tail_eq,
    mod_add_mod, show q.head + l.length + (q.table.length - 1)
      = q.head + (l.length - 1) + q.table.length by omega, add_mod_right]

lemma last_eq : q.last = some l.getLast? := by
  rw [last]
  split
  · next heq => rw [h.head_eq_tail.1 heq, getLast?_nil]
  · next hne =>
    have hl : l ≠ [] := fun hl => hne (h.head_eq_tail.2 hl)
    have hpos := length_pos_iff.2 hl
    rw [h.tail_prev hl, h.read_eq (by omega), getLast?_eq_getElem?, getElem?_eq_getElem (by omega), map_some]

lemma elementAt_eq (index : ℕ) : q.elementAt index = some l[index]? := by
  rw [elementAt, h.length_eq]
  split
  · next hle => rw [getElem?_eq_none hle]
  · next hlt =>
    rw [h.mask_add, h.read_eq (by omega), getElem?_eq_getElem (by omega), map_some]

lemma toList_eq : q.toList = some l := by
  have hleng : mask q.table.length (q.tail - q.head) = l.length := h.length_eq
  rw [ListQueue.toList, hleng]
  split
  · next hzero => rw [length_eq_zero_iff.1 hzero]
  · rw [h.first_eq, bind_eq_bind, range_eq_range']
    refine mapM_range' fun i hi => ?_
    rw [zero_add, h.mask_add, h.read_eq hi, getElem?_eq_getElem hi]

lemma iterateFrom_eq (fuel p : ℕ) (hp : p ≤ l.length) (hfuel : l.length - p < fuel) :
    q.iterateFrom q.tail q.modificationCount fuel ((q.head + p) % q.table.length) = some (l.drop p) := by
  induction fuel generalizing p with
  | zero => omega
  | succ fuel ih =>
    rw [iterateFrom, if_neg (not_not_intro rfl)]
    by_cases heq : p = l.length
    · rw [if_pos ((h.eq_tail hp).2 heq), heq, drop_length]
    · have hlt : p < l.length := by omega
      rw [if_neg fun ht => heq ((h.eq_tail hp).1 ht), h.read_eq hlt, h.mask_next,
        some_bind, ih (p + 1) hlt (by omega), some_bind, drop_eq_getElem_cons hlt]

lemma iterate_eq : q.iterate = some l := by
  have := h.room
  have heq := h.iterateFrom_eq (q.table.length + 1) 0 (zero_le _) (by omega)
  rw [h.head_add_zero] at heq
  rw [ListQueue.iterate, heq, drop_zero]

end
end

section Growing

lemma map_range_getElem? (l : List E) : (range l.length).map (fun j => l[j]?) = l.map some := by
  apply ext_getElem?
  intro i
  by_cases hi : i < l.length
  · rw [getElem?_map, getElem?_range hi, getElem?_map, map_some, getElem?_eq_getElem hi, map_some]
  · rw [getElem?_eq_none (by simpa using hi), getElem?_eq_none (by simpa using hi)]

lemma grow (hpow : ∃ k, q.table.length = 2 ^ k) (hfull : l.length = q.table.length)
    (hslo : Slots q.table q.head fun j => l[j]?) :
    ∃ q', q.grow = some q' ∧ Holds l q' := by
  obtain ⟨k, hk⟩ := hpow
  have hhead := hslo.1
  have hall : q.table.drop q.head ++ q.table.take q.head = l.map some := by
    rw [hslo.toList, ← hfull, map_range_getElem?]
  have hlen : (q.table.drop q.head).length + (q.table.take q.head).length = q.table.length := by
    rw [length_drop, length_take]
    omega
  have hcopy := setRange_two (b := q.table.take q.head)
    (s := q.table.length - q.head) (m := q.table.length * 2) (by rw [length_drop]) (by omega)
  rw [hall, hlen] at hcopy
  refine ⟨⟨l.map some ++ replicate (q.table.length * 2 - q.table.length) none, 0,
    q.table.length, q.modificationCount⟩, ?_, holds_flat (k := k + 1)
      (by rw [Nat.pow_succ]; omega) (by omega) (by omega) rfl rfl hfull.symm⟩
  rw [ListQueue.grow, take_of_length_le (by rw [length_drop]), bind_eq_bind, ← bind_assoc, hcopy, bind_some]

lemma writeToList_eq (h : Holds l q) {N : ℕ} (hN : l.length ≤ N) : q.writeToList (replicate N none) =
    some (l.map some ++ replicate (N - l.length) none, l.length) := by
  have hhead := h.head_lt
  have hroom := h.room
  have htail := h.tail_eq
  rw [wrap_eq hhead (by omega)] at htail
  have hlive : (q.table.drop q.head ++ q.table.take q.head).take l.length = l.map some := by
    rw [h.slots.toList, ← map_take, take_range, min_eq_left (by omega), map_range_getElem?]
  rw [writeToList]
  by_cases hwrap : q.head + l.length < q.table.length
  · rw [if_pos hwrap] at htail
    rw [take_append_of_le_length (by rw [length_drop]; omega)] at hlive
    have hcopy := setRange_fresh (l := []) (l.map some) (m := N) rfl (by rw [length_map]; omega)
    rw [nil_append, length_nil, length_map] at hcopy
    rw [if_pos (by omega), show q.tail - q.head = l.length by omega]
    dsimp only
    rw [hlive, hcopy]
    rfl
  · rw [if_neg hwrap] at htail
    rw [take_append, take_take, length_drop, take_of_length_le
      (by rw [length_drop]; omega), show min (l.length - (q.table.length - q.head)) q.head = q.tail by omega] at hlive
    have hlen : (q.table.drop q.head).length + (q.table.take q.tail).length = l.length := by
      rw [length_drop, length_take]
      omega
    have hcopy := setRange_two (b := q.table.take q.tail)
      (s := q.table.length - q.head) (m := N) (by rw [length_drop]) (by omega)
    rw [hlive, hlen] at hcopy
    rw [if_neg (by omega)]
    dsimp only
    rw [take_of_length_le (by rw [length_drop]),
      bind_eq_bind, ← bind_assoc, hcopy, bind_some, show q.tail + (q.table.length - q.head) = l.length by omega]

lemma getElem?_concat (l : List E) (x : E) :
    (fun j => (l ++ [x])[j]?) = Function.update (fun j => l[j]?) l.length (some x) := by
  funext j
  by_cases hj : j = l.length
  · rw [hj, Function.update_self, getElem?_concat_length]
  · rw [Function.update_of_ne hj, getElem?_append]
    split
    · rfl
    · rw [getElem?_eq_none (by rw [length_singleton]; omega), getElem?_eq_none (by omega)]

lemma growIfFull (hpow : ∃ k, q.table.length = 2 ^ k) (htwo : 2 ≤ q.table.length) (hle : l.length ≤ q.table.length)
    (hpos : 0 < l.length) (hslo : Slots q.table q.head fun j => l[j]?)
    (htail : q.tail = (q.head + l.length) % q.table.length) :
    ∃ q', q.growIfFull = some q' ∧ Holds l q' := by
  have hhead := hslo.1
  rw [wrap_eq hhead hle] at htail
  rw [ListQueue.growIfFull]
  by_cases heq : q.head = q.tail
  · rw [if_pos heq]
    exact grow hpow (by split at htail <;> omega) hslo
  · rw [if_neg heq]
    refine ⟨q, rfl, hpow, htwo, ?_, hslo, ?_⟩
    · split at htail <;> omega
    · rw [wrap_eq hhead hle, htail]

lemma modified (h : Holds l q) (n : ℕ) : Holds l { q with modificationCount := n } :=
  ⟨h.pow, h.two_le, h.room, h.slots, h.tail_eq⟩

lemma add (h : Holds l q) (x : E) : ∃ q', q.add x = some q' ∧ Holds (l ++ [x]) q' := by
  have hroom := h.room
  have hlen : (l ++ [x]).length = l.length + 1 := by rw [length_append, length_singleton]
  have hslo := h.slots.set h.room (some x)
  rw [← h.tail_eq, ← getElem?_concat] at hslo
  have hnext := h.mask_next l.length
  rw [← h.tail_eq] at hnext
  obtain ⟨q', hq', hhol⟩ := growIfFull
    (q := { q with table := q.table.set q.tail (some x), tail := (q.head + (l.length + 1)) % q.table.length })
    (by rw [length_set]; exact h.pow) (by rw [length_set]; exact h.two_le) (by rw [length_set]; omega) (by omega) hslo
    (by rw [hlen, length_set])
  refine ⟨_, ?_, hhol.modified (q'.modificationCount + 1)⟩
  rw [ListQueue.add, setAt_eq h.tail_lt, some_bind]
  dsimp only
  rw [length_set, hnext, hq', some_bind]

lemma addFirst (h : Holds l q) (x : E) : ∃ q', q.addFirst x = some q' ∧ Holds (x :: l) q' := by
  have hroom := h.room
  have hprev : mask q.table.length (q.head - 1) = (q.head + (q.table.length - 1)) % q.table.length :=
    h.mask_sub q.head (b := 1) (by omega)
  have hslo := h.slots.prev.set (r := 0) (by omega) (some x)
  have hcons : Slots (q.table.set ((q.head + (q.table.length - 1)) % q.table.length) (some x))
      ((q.head + (q.table.length - 1)) % q.table.length) fun j => (x :: l)[j]? := by
    rw [add_zero, mod_mod] at hslo
    refine hslo.congr fun j hj => ?_
    cases j with
    | zero => rfl
    | succ j => rfl
  obtain ⟨q', hq', hhol⟩ := growIfFull (l := x :: l) (q := { q with
      table := q.table.set ((q.head + (q.table.length - 1)) % q.table.length) (some x)
      head := (q.head + (q.table.length - 1)) % q.table.length })
    (by rw [length_set]; exact h.pow) (by rw [length_set]; exact h.two_le) (by rw [length_set, length_cons]; omega)
    (zero_lt_succ _) hcons (by
      rw [length_set, length_cons, mod_add_mod, h.tail_eq,
        show q.head + (q.table.length - 1) + (l.length + 1) = q.head + l.length + q.table.length by omega,
        add_mod_right])
  refine ⟨_, ?_, hhol.modified (q'.modificationCount + 1)⟩
  rw [ListQueue.addFirst, hprev, setAt_eq (mod_lt _ (by omega)), some_bind, hq', some_bind]

lemma preGrow (h : Holds l q) (n : ℕ) (hn : 1 < n) (hle : l.length ≤ n) : ∃ k m, n < l.length + m ∧
    l.length + m = 2 ^ k ∧ q.preGrow n = some { q with
      table := l.map some ++ replicate m none, head := 0, tail := l.length } := by
  obtain ⟨k, hk, hge⟩ := nextPowerOf2_eq (m := n + n >>> 1) (by omega)
  refine ⟨k, 2 ^ k - l.length, by omega, by omega, ?_⟩
  rw [ListQueue.preGrow, hk, some_bind, h.writeToList_eq (by omega)]
  rfl

lemma writeBlock (h : Slots q.table q.head fun j => l[j]?) (start : ℕ) (xs : List E)
    (hroom : l.length + xs.length ≤ q.table.length)
    (hsta : start = (q.head + l.length) % q.table.length)
    (hfits : start + xs.length ≤ q.table.length) : ∃ table,
    setRange q.table start (xs.map some) = some table ∧ table.length = q.table.length ∧
      Slots table q.head fun j => (l ++ xs)[j]? := by
  have hlen : (xs.map some).length = xs.length := length_map some
  refine ⟨_, setRange_eq (by rw [hlen]; exact hfits), ?_, ?_⟩
  · simp only [length_append, length_take, length_drop]
    omega
  · refine h.block hsta (by omega) (by omega) (fun i hi => ?_) fun j hj => ?_
    · rw [hlen] at hi
      rw [getElem?_map, getElem?_append_right (by omega), Nat.add_sub_cancel_left, getElem?_eq_getElem hi, map_some]
    · rw [getElem?_append]
      split
      · rfl
      · rw [getElem?_eq_none (by omega), getElem?_eq_none (by omega)]

lemma writeAll (h : Holds l q) (xs : List E) : ∃ q', q.writeAll xs = some q' ∧ Holds (l ++ xs) q' := by
  have hhead := h.head_lt
  have hT := h.two_le
  have hlt := h.tail_lt
  have htail := h.tail_eq
  have hlen : (l ++ xs).length = l.length + xs.length := length_append
  rw [ListQueue.writeAll, h.length_eq]
  by_cases hfull : q.table.length ≤ l.length + xs.length
  · obtain ⟨k, m, hm, hk, hq⟩ := h.preGrow (l.length + xs.length) (by omega) (by omega)
    have hxs : (xs.map some).length = xs.length := length_map some
    rw [if_pos hfull, hq, bind_eq_bind, bind_some,
      setRange_fresh _ (length_map some).symm (by omega), bind_eq_bind, bind_some]
    refine ⟨_, rfl, holds_flat (k := k) (m := m - xs.length) (by omega) (by omega) (by omega) ?_ rfl ?_⟩
    · rw [map_append, hxs]
    · exact hlen.symm
  rw [if_neg hfull]
  by_cases hend : xs.length < q.table.length - q.tail
  · obtain ⟨table, htab, htl, hslo⟩ := writeBlock h.slots _ xs (by omega) htail (by omega)
    rw [if_pos hend, htab, bind_eq_bind, bind_some]
    refine ⟨_, rfl, htl ▸ h.pow, htl ▸ hT, ?_, hslo, ?_⟩
    · dsimp only
      omega
    · dsimp only
      rw [htl, hlen, ← add_assoc, ← mod_add_mod, ← htail, mod_eq_of_lt (by omega)]
  -- the elements do not wrap around, and the new ones reach the end of the table
  · have htail' := htail
    rw [wrap_eq hhead (by omega)] at htail'
    have hwrap : q.tail = q.head + l.length := by split at htail' <;> omega
    set endSpace := q.table.length - q.tail with hes
    have hfir : (xs.take endSpace).length = endSpace := by
      rw [length_take]
      omega
    obtain ⟨table, htab, htl, hslo⟩ := writeBlock h.slots _ (xs.take endSpace) (by omega) htail (by omega)
    obtain ⟨table', htab', htl', hslo'⟩ := writeBlock (q := { q with table := table }) hslo 0 (xs.drop endSpace)
      (by rw [length_append, length_drop]; dsimp only; omega)
      (by
        dsimp only
        rw [length_append, hfir, htl, show q.head + (l.length + endSpace) = q.table.length by omega, Nat.mod_self])
      (by rw [length_drop]; dsimp only; omega)
    dsimp only at htl'
    rw [if_neg hend, ← map_take, htab, bind_eq_bind, bind_some, ← map_drop,
      take_of_length_le (by rw [length_map, length_drop]), htab', bind_some]
    rw [append_assoc, take_append_drop] at hslo'
    rw [htl] at htl'
    refine ⟨_, rfl, htl' ▸ h.pow, htl' ▸ hT, ?_, hslo', ?_⟩
    · dsimp only
      omega
    · dsimp only
      rw [htl', hlen, show q.head + (l.length + xs.length) = xs.length - endSpace + q.table.length by omega,
        add_mod_right, mod_eq_of_lt (by omega)]

lemma addAll (h : Holds l q) (xs : List E) : ∃ q', q.addAll xs = some q' ∧ Holds (l ++ xs) q' := by
  obtain ⟨q', hq', hhol⟩ := h.writeAll xs
  refine ⟨_, ?_, hhol.modified (q'.modificationCount + 1)⟩
  rw [ListQueue.addAll, hq', some_bind]

lemma addEach (h : Holds l q) (xs : List E) : ∃ q', q.addEach xs = some q' ∧ Holds (l ++ xs) q' := by
  induction xs generalizing l q with
  | nil => exact ⟨q, rfl, by rwa [append_nil]⟩
  | cons x xs ih =>
    obtain ⟨q1, hq1, h1⟩ := h.add x
    obtain ⟨q2, hq2, h2⟩ := ih h1
    refine ⟨q2, ?_, ?_⟩
    · rw [addEach, foldlM_cons, hq1, bind_eq_bind]
      exact hq2
    · rw [append_assoc] at h2
      exact h2

end Growing
end Holds
end DartSdk.Queue
