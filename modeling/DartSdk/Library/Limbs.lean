import Mathlib.Data.Nat.Bitwise
import Mathlib.Data.Nat.Digits.Defs
import Mathlib.Tactic.LinearCombination
import Mathlib.Tactic.Ring

namespace DartSdk.Limbs
open List Nat
variable {b : ℕ}
variable {ds es : List ℕ}

/-- `Nat.ofDigits` at a natural base: its lemmas are those of `ofDigits` without the cast of a digit. -/
def value (b : ℕ) (ds : List ℕ) : ℕ := Nat.ofDigits b ds

lemma value_nil : value b [] = 0 := rfl

lemma value_cons (d : ℕ) (ds : List ℕ) : value b (d :: ds) = d + b * value b ds := ofDigits_cons

lemma value_singleton (d : ℕ) : value b [d] = d := ofDigits_singleton

lemma value_append (ds es : List ℕ) : value b (ds ++ es) = value b ds + b ^ ds.length * value b es := ofDigits_append

lemma value_replicate_zero (n : ℕ) : value b (List.replicate n 0) = 0 := ofDigits_replicate_zero

def Bounded (b : ℕ) (ds : List ℕ) : Prop := ∀ d ∈ ds, d < b

lemma bounded_nil : Bounded b [] := nofun

lemma bounded_cons {d : ℕ} : Bounded b (d :: ds) ↔ d < b ∧ Bounded b ds := forall_mem_cons

lemma bounded_append : Bounded b (ds ++ es) ↔ Bounded b ds ∧ Bounded b es := forall_mem_append

lemma bounded_replicate_zero (hb : 0 < b) (n : ℕ) : Bounded b (List.replicate n 0) := by
  intro d hd
  rw [eq_of_mem_replicate hd]
  exact hb

lemma Bounded.take (h : Bounded b ds) (n : ℕ) : Bounded b (ds.take n) := fun d hd => h d (mem_of_mem_take hd)

lemma Bounded.drop (h : Bounded b ds) (n : ℕ) : Bounded b (ds.drop n) := fun d hd => h d (mem_of_mem_drop hd)

lemma Bounded.getD (h : Bounded b ds) (hb : 0 < b) (i : ℕ) : ds.getD i 0 < b := by
  rw [getD_eq_getElem?_getD]
  cases hi : ds[i]? with
  | none => exact hb
  | some d => exact h d (mem_of_getElem? hi)

lemma Bounded.value_lt (hb : 1 < b) (h : Bounded b ds) : value b ds < b ^ ds.length := ofDigits_lt_base_pow_length hb h

lemma value_take_drop (ds : List ℕ) (n : ℕ) (hn : n ≤ ds.length) :
    value b ds = value b (ds.take n) + b ^ n * value b (ds.drop n) := by
  conv_lhs => rw [← take_append_drop n ds]
  rw [value_append, length_take, min_eq_left hn]

section

def weigh (b : ℕ) : List ℤ → ℤ
  | [] => 0
  | x :: xs => x + b * weigh b xs

def propagate (b : ℕ) : List ℤ → ℤ → List ℕ × ℤ
  | [], carry => ([], carry)
  | x :: xs, carry =>
    let r := propagate b xs ((carry + x) / b)
    (((carry + x) % b).toNat :: r.1, r.2)

lemma propagate_length (xs : List ℤ) (carry : ℤ) : (propagate b xs carry).1.length = xs.length := by
  induction xs generalizing carry with
  | nil => rfl
  | cons x xs ih => rw [propagate, length_cons, ih, length_cons]

lemma propagate_bounded (hb : 0 < b) (xs : List ℤ) (carry : ℤ) : Bounded b (propagate b xs carry).1 := by
  induction xs generalizing carry with
  | nil => exact bounded_nil
  | cons x xs ih =>
    rw [propagate, bounded_cons]
    refine ⟨?_, ih _⟩
    have hpos : (0 : ℤ) < b := by exact_mod_cast hb
    have hlt := Int.emod_lt_of_pos (carry + x) hpos
    omega

lemma propagate_value (hb : 0 < b) (xs : List ℤ) (carry : ℤ) :
    (value b (propagate b xs carry).1 : ℤ) + b ^ xs.length * (propagate b xs carry).2 = weigh b xs + carry := by
  induction xs generalizing carry with
  | nil =>
    rw [propagate, value_nil, weigh, length_nil]
    ring
  | cons x xs ih =>
    have hpos : (0 : ℤ) < b := by exact_mod_cast hb
    have hdigit : (((carry + x) % b).toNat : ℤ) = (carry + x) % b := Int.toNat_of_nonneg (Int.emod_nonneg _ hpos.ne')
    have hsplit := Int.emod_add_mul_ediv (carry + x) b
    rw [propagate, value_cons, weigh, length_cons]
    push_cast
    rw [hdigit]
    linear_combination b * ih ((carry + x) / b) + hsplit

lemma propagate_exact (hb : 1 < b) {xs : List ℤ} {carry : ℤ} (hle : 0 ≤ weigh b xs + carry)
    (hlt : weigh b xs + carry < b ^ xs.length) :
    (propagate b xs carry).2 = 0 ∧ (value b (propagate b xs carry).1 : ℤ) = weigh b xs + carry := by
  have hvalue := propagate_value (by omega : 0 < b) xs carry
  have hbound := (propagate_bounded (by omega : 0 < b) xs carry).value_lt hb
  rw [propagate_length] at hbound
  generalize (propagate b xs carry).2 = c at hvalue
  have hzero : c = 0 := by
    rcases lt_trichotomy c 0 with hneg | hzero | hpos'
    · nlinarith
    · exact hzero
    · nlinarith
  rw [hzero, mul_zero] at hvalue
  exact ⟨hzero, hvalue⟩

def combine (sign : ℤ) : List ℕ → List ℕ → List ℤ
  | [], _ => []
  | d :: ds, [] => d :: combine sign ds []
  | d :: ds, e :: es => (d + sign * e) :: combine sign ds es

lemma combine_length (sign : ℤ) (ds es : List ℕ) : (combine sign ds es).length = ds.length := by
  induction ds generalizing es with
  | nil => rfl
  | cons d ds ih => cases es <;> rw [combine, length_cons, ih, length_cons]

lemma weigh_combine (sign : ℤ) (h : es.length ≤ ds.length) :
    weigh b (combine sign ds es) = value b ds + sign * value b es := by
  induction ds generalizing es with
  | nil =>
    rw [length_eq_zero_iff.1 (le_zero.1 h), combine, weigh, value_nil]
    simp
  | cons d ds ih =>
    cases es with
    | nil =>
      rw [combine, weigh, ih (zero_le _), value_cons, value_nil]
      push_cast
      ring
    | cons e es =>
      rw [combine, weigh, ih (le_of_succ_le_succ h), value_cons, value_cons]
      push_cast
      ring

end

section

def difference : List ℕ → List ℕ → ℤ
  | d :: ds, e :: es => if difference ds es ≠ 0 then difference ds es else d - e
  | _, _ => 0

lemma sign_difference (hlen : ds.length = es.length)
    (hds : Bounded b ds) (hes : Bounded b es) : (difference ds es).sign = ((value b ds : ℤ) - value b es).sign := by
  induction ds generalizing es with
  | nil =>
    rw [length_eq_zero_iff.1 hlen.symm]
    rfl
  | cons d ds ih =>
    cases es with
    | nil => cases hlen
    | cons e es =>
      rw [bounded_cons] at hds hes
      have ih := ih (Nat.succ.inj hlen) hds.2 hes.2
      rw [difference, value_cons, value_cons]
      push_cast
      set u : ℤ := ((value b ds : ℕ) : ℤ)
      set v : ℤ := ((value b es : ℕ) : ℤ)
      rcases lt_trichotomy u v with huv | huv | huv
      · have hneg : (difference ds es).sign = -1 := ih.trans (Int.sign_eq_neg_one_of_neg (by omega))
        rw [if_pos (by intro h; rw [h] at hneg; cases hneg), hneg]
        refine (Int.sign_eq_neg_one_of_neg ?_).symm
        nlinarith
      · have hzero : difference ds es = 0 := by
          rw [huv, sub_self] at ih
          exact Int.sign_eq_zero_iff_zero.1 ih
        rw [if_neg (not_not_intro hzero), huv]
        ring_nf
      · have hpos : (difference ds es).sign = 1 := ih.trans (Int.sign_eq_one_of_pos (by omega))
        rw [if_pos (by intro h; rw [h] at hpos; cases hpos), hpos]
        refine (Int.sign_eq_one_of_pos ?_).symm
        nlinarith

end

section
variable {k : ℕ} {f : Bool → Bool → Bool}

lemma bitwise_cons (hf : f false false = false) {d e v w : ℕ} (hd : d < 2 ^ k) (he : e < 2 ^ k) :
    Nat.bitwise f (d + 2 ^ k * v) (e + 2 ^ k * w) = Nat.bitwise f d e + 2 ^ k * Nat.bitwise f v w := by
  apply eq_of_testBit_eq
  intro i
  rw [testBit_bitwise hf, add_comm d, add_comm e, add_comm (Nat.bitwise f d e),
    testBit_two_pow_mul_add _ hd, testBit_two_pow_mul_add _ he,
    testBit_two_pow_mul_add _ (bitwise_lt_two_pow hd he)]
  split_ifs
  · rw [testBit_bitwise hf]
  · rw [testBit_bitwise hf]

lemma bitwise_zero_right (hf : ∀ a, f a false = a) (n : ℕ) : Nat.bitwise f n 0 = n := by
  apply eq_of_testBit_eq
  intro i
  rw [testBit_bitwise (hf false), zero_testBit, hf]

lemma bitwise_zero_left (hf : ∀ a, f false a = a) (n : ℕ) : Nat.bitwise f 0 n = n := by
  apply eq_of_testBit_eq
  intro i
  rw [testBit_bitwise (hf false), zero_testBit, hf]

end
end DartSdk.Limbs
