import Mathlib.Data.BitVec
import Mathlib.Tactic.Ring
import Mathlib.Tactic.Linarith
import Mathlib.Tactic.Positivity

namespace DartSdk.Base128
open Int BitVec
variable {w : ℕ}

lemma ofInt_two_pow (w s : ℕ) : BitVec.ofInt w (2 ^ s) = BitVec.twoPow w s := by
  have h : (2 ^ s : ℤ) = ((2 ^ s : ℕ) : ℤ) := by rfl
  rw [h, ofInt_natCast]
  apply eq_of_toNat_eq
  rw [toNat_ofNat, toNat_twoPow]

lemma ofInt_and_shiftLeft {s : ℕ} {a : ℤ} (ha : 0 ≤ a) (has : a < 2 ^ s) (q : ℤ) :
    BitVec.ofInt w a &&& BitVec.ofInt w q <<< s = 0#w := by
  obtain ⟨n, rfl⟩ := eq_ofNat_of_zero_le ha
  have hn : n < 2 ^ s := by exact_mod_cast has
  ext i hi
  by_cases his : i < s
  · simp [his]
  · have hbit : n.testBit i = false :=
      Nat.testBit_lt_two_pow (lt_of_lt_of_le hn (Nat.pow_le_pow_right (by norm_num) (by omega)))
    simp [← getLsbD_eq_getElem, getLsbD_ofNat, hbit]

lemma ofInt_or_shiftLeft {s : ℕ} {a : ℤ} (ha : 0 ≤ a) (has : a < 2 ^ s) (q : ℤ) :
    BitVec.ofInt w a ||| BitVec.ofInt w q <<< s = BitVec.ofInt w (a + 2 ^ s * q) := by
  rw [← add_eq_or_of_and_eq_zero _ _ (ofInt_and_shiftLeft ha has q),
    shiftLeft_eq_mul_twoPow, ← ofInt_two_pow, ← ofInt_mul, ← ofInt_add,
    mul_comm q]

variable (v : ℤ)

lemma ofInt_emod_or_ediv (s : ℕ) :
    BitVec.ofInt w (v % 2 ^ s) ||| BitVec.ofInt w (v / 2 ^ s) <<< s = BitVec.ofInt w v := by
  rw [ofInt_or_shiftLeft (emod_nonneg v (by positivity)) (emod_lt_of_pos v (by positivity)), emod_add_mul_ediv]

lemma emod_add_part (s : ℕ) : v % 2 ^ s + 2 ^ s * (v / 2 ^ s % 128) = v % 2 ^ (s + 7) := by
  have hpos : (0 : ℤ) < 2 ^ s := by positivity
  have hv := emod_add_mul_ediv v (2 ^ s)
  have hq := emod_add_mul_ediv (v / 2 ^ s) 128
  have ha := emod_nonneg v hpos.ne'
  have ha' := emod_lt_of_pos v hpos
  have hc := emod_nonneg (v / 2 ^ s) (show (128 : ℤ) ≠ 0 by norm_num)
  have hc' := emod_lt_of_pos (v / 2 ^ s) (show (0 : ℤ) < 128 by norm_num)
  generalize v / 2 ^ s % 128 = c at *
  generalize v / 2 ^ s / 128 = q at *
  have hsum : v = v % 2 ^ s + 2 ^ s * c + 2 ^ (s + 7) * q := by
    rw [← hq] at hv
    rw [pow_add]
    linarith
  have hlt : v % 2 ^ s + 2 ^ s * c < 2 ^ (s + 7) := by
    rw [pow_add]
    nlinarith
  conv_rhs => rw [hsum]
  rw [add_mul_emod_self_left, emod_eq_of_lt (by positivity) hlt]

lemma ofInt_emod_or_part (s : ℕ) : BitVec.ofInt w (v % 2 ^ s) ||| BitVec.ofInt w (v / 2 ^ s % 128) <<< s =
    BitVec.ofInt w (v % 2 ^ (s + 7)) := by
  rw [ofInt_or_shiftLeft (emod_nonneg v (by positivity)) (emod_lt_of_pos v (by positivity)), emod_add_part]

lemma ediv_part (s : ℕ) : v / 2 ^ s / 128 = v / 2 ^ (s + 7) := by
  rw [ediv_ediv_of_nonneg (by positivity), pow_add]
  rfl

lemma ofInt_emod_of_le {s : ℕ} (h : w ≤ s) : BitVec.ofInt w (v % 2 ^ s) = BitVec.ofInt w v := by
  have hpow : BitVec.twoPow w s = 0 := by
    apply BitVec.eq_of_toNat_eq
    rw [BitVec.toNat_twoPow, Nat.mod_eq_zero_of_dvd (Nat.pow_dvd_pow 2 h)]
    rfl
  have hzero : BitVec.ofInt w (2 ^ s * (v / 2 ^ s)) = 0 := by
    rw [BitVec.ofInt_mul, ofInt_two_pow, hpow, MulZeroClass.zero_mul]
  conv_rhs => rw [← emod_add_mul_ediv v (2 ^ s)]
  rw [BitVec.ofInt_add, hzero, add_zero]

lemma not_shiftLeft_sub_one (s : ℕ) : ~~~(((1 : BitVec w) <<< s) - 1) = BitVec.ofInt w (-1) <<< s := by
  have h1 : BitVec.ofInt w (-1) = -1 := by
    rw [BitVec.ofInt_neg]
    rfl
  rw [not_eq_neg_add, shiftLeft_eq_mul_twoPow, shiftLeft_eq_mul_twoPow, h1]
  change -((1 : BitVec w) * twoPow w s - 1) - 1 = _
  ring

section
variable (hw : 8 ≤ w)
include hw

lemma toNat_ofNat_of_lt_256 {n : ℕ} (hn : n < 256) : (BitVec.ofNat w n).toNat = n := by
  exact Nat.mod_eq_of_lt (lt_of_lt_of_le hn (Nat.pow_le_pow_right (n := 2) (by norm_num) hw))

variable (v : BitVec w)

lemma toNat_part : ((v &&& 127).setWidth 8).toNat = v.toNat % 128 := by
  have h : (127 : BitVec w).toNat = 2 ^ 7 - 1 := toNat_ofNat_of_lt_256 hw (by norm_num)
  rw [toNat_setWidth, toNat_and, h, Nat.and_two_pow_sub_one_eq_mod]
  omega

lemma toNat_emod_256 : (v.toNat : ℤ) % 256 = v.toInt % 256 := by
  obtain ⟨k, rfl⟩ := Nat.exists_eq_add_of_le hw
  have hp : (2 : ℕ) ^ (8 + k) = 256 * 2 ^ k := pow_add 2 8 k
  rw [toInt_eq_toNat_cond]
  split_ifs
  · rfl
  · rw [hp]
    push_cast
    rw [sub_mul_emod_self_left]

lemma toInt_ofInt_of_small {n : ℤ} (h : -128 ≤ n) (h' : n < 128) : (BitVec.ofInt w n).toInt = n := by
  have hpow : (2 : ℤ) ^ 7 ≤ 2 ^ (w - 1) := pow_le_pow_right₀ (by norm_num) (by omega)
  exact toInt_ofInt_eq_self (by omega) (by omega) (by omega)

lemma toNat_add_setWidth {n : ℕ} (hn : n < 256) :
    (((v + BitVec.ofNat w n).setWidth 8).toNat : ℤ) = (v.toInt + n) % 256 := by
  have hv := toNat_emod_256 hw v
  have hdvd : 256 ∣ 2 ^ w := Nat.pow_dvd_pow 2 hw
  rw [BitVec.toNat_setWidth, BitVec.toNat_add, toNat_ofNat_of_lt_256 hw hn, Nat.mod_mod_of_dvd _ hdvd]
  omega

end
end DartSdk.Base128
