import DartSdk.Library.WrapInt

namespace DartSdk.WrapInt
open BitVec

lemma toInt_neg {x : Int64} (h : Fits (-x.toInt)) : (-x).toInt = -x.toInt := by
  obtain ⟨t, ht⟩ := bmod_spec (-x.toInt)
  exact eq_of_fits (range _) h (by rw [Int64.toInt_neg, ht])

lemma toInt_mul {x y : Int64} (h : Fits (x.toInt * y.toInt)) : (x * y).toInt = x.toInt * y.toInt := by
  obtain ⟨t, ht⟩ := bmod_spec (x.toInt * y.toInt)
  exact eq_of_fits (range _) h (by rw [Int64.toInt_mul, ht])

lemma toInt_div {x y : Int64} (hx : 0 ≤ x.toInt) (hy : 0 ≤ y.toInt) : (x / y).toInt = x.toInt / y.toInt := by
  have hr := range x
  have hle : x.toInt / y.toInt ≤ x.toInt := Int.ediv_le_self _ hx
  have h0 : 0 ≤ x.toInt / y.toInt := Int.ediv_nonneg hx hy
  have hd : x.toInt.tdiv y.toInt = x.toInt / y.toInt := Int.tdiv_eq_ediv_of_nonneg hx
  obtain ⟨t, ht⟩ := bmod_spec (x.toInt.tdiv y.toInt)
  refine eq_of_fits (range _) ?_ (by rw [Int64.toInt_div, ht, hd])
  unfold Fits at hr ⊢
  omega

section

def shl (x : Int64) (n : ℕ) : Int64 := Int64.ofBitVec (x.toBitVec <<< n)

def shr (x : Int64) (n : ℕ) : Int64 := Int64.ofBitVec (x.toBitVec.sshiftRight n)

lemma shl_spec (x : Int64) (n : ℕ) : ∃ t : ℤ, (shl x n).toInt = x.toInt * 2 ^ n - 2 ^ 64 * t := by
  have hs : (shl x n).toInt = ((x.toBitVec.toNat <<< n : ℕ) : ℤ).bmod (2 ^ 64) := toInt_shiftLeft
  obtain ⟨t, ht⟩ := bmod_spec ((x.toBitVec.toNat <<< n : ℕ) : ℤ)
  have hx : x.toInt = x.toBitVec.toInt := rfl
  rw [toInt_eq_toNat_bmod] at hx
  obtain ⟨u, hu⟩ := bmod_spec (x.toBitVec.toNat : ℤ)
  refine ⟨t - u * 2 ^ n, ?_⟩
  rw [hs, ht, hx, hu, Nat.shiftLeft_eq]
  push_cast
  ring

lemma toInt_shl {x : Int64} {n : ℕ} (h : Fits (x.toInt * 2 ^ n)) : (shl x n).toInt = x.toInt * 2 ^ n := by
  obtain ⟨t, ht⟩ := shl_spec x n
  exact eq_of_fits (range _) h ht

lemma toInt_shr (x : Int64) (n : ℕ) : (shr x n).toInt = x.toInt / 2 ^ n := by
  have hs : (shr x n).toInt = x.toInt >>> n := toInt_sshiftRight
  rw [hs, Int.shiftRight_eq_div_pow]
  rfl

end

section

lemma toNat_toUInt64 (x : Int64) : (x.toUInt64.toNat : ℤ) = if 0 ≤ x.toInt then x.toInt else x.toInt + 2 ^ 64 := by
  have hx : x.toInt = x.toBitVec.toInt := rfl
  have hn : x.toUInt64.toNat = x.toBitVec.toNat := rfl
  rw [hx, toInt_eq_toNat_cond]
  split_ifs <;> omega

lemma toInt_toInt64 (u : UInt64) : u.toInt64.toInt = if u.toNat < 2 ^ 63 then (u.toNat : ℤ) else u.toNat - 2 ^ 64 := by
  have hx : u.toInt64.toInt = u.toBitVec.toInt := rfl
  have hn : u.toNat = u.toBitVec.toNat := rfl
  rw [hx, toInt_eq_toNat_cond]
  split_ifs <;> omega

lemma toNat_shiftRight {u c : UInt64} (h : c.toNat < 64) : (u >>> c).toNat = u.toNat / 2 ^ c.toNat := by
  rw [UInt64.toNat_shiftRight, Nat.mod_eq_of_lt h, Nat.shiftRight_eq_div_pow]

end

section

def InBits (b : ℕ) (x : Int64) : Prop := -2 ^ b ≤ x.toInt ∧ x.toInt < 2 ^ b

lemma inBits_iff (b : ℕ) (x : Int64) : InBits b x ↔ shr x b = 0 ∨ shr x b = -1 := by
  have hpos : (0 : ℤ) < 2 ^ b := by positivity
  have h0 := Int64.toInt_zero
  have h1 : (-1 : Int64).toInt = -1 := rfl
  rw [← Int64.toInt_inj, ← Int64.toInt_inj, toInt_shr, h0, h1, InBits]
  constructor
  · rintro ⟨hl, hh⟩
    rcases lt_or_ge x.toInt 0 with hn | hn
    · right
      rw [Int.ediv_eq_iff_of_pos hpos]
      omega
    · exact .inl (Int.ediv_eq_zero_of_lt hn hh)
  · rintro (h | h)
    · rw [Int.ediv_eq_iff_of_pos hpos] at h
      omega
    · rw [Int.ediv_eq_iff_of_pos hpos] at h
      omega

lemma shr_and (x y : Int64) (b : ℕ) : shr (x &&& y) b = shr x b &&& shr y b := by
  apply Int64.toBitVec_inj.1
  exact sshiftRight_and_distrib _ _ _

lemma shr_or (x y : Int64) (b : ℕ) : shr (x ||| y) b = shr x b ||| shr y b := by
  apply Int64.toBitVec_inj.1
  exact sshiftRight_or_distrib _ _ _

lemma shr_xor (x y : Int64) (b : ℕ) : shr (x ^^^ y) b = shr x b ^^^ shr y b := by
  apply Int64.toBitVec_inj.1
  exact sshiftRight_xor_distrib _ _ _

variable {b : ℕ} {x y : Int64}

section
variable (hx : InBits b x) (hy : InBits b y)
include hx hy

lemma inBits_and : InBits b (x &&& y) := by
  rw [inBits_iff, shr_and]
  rcases (inBits_iff b x).1 hx with hx | hx <;> rcases (inBits_iff b y).1 hy with hy | hy <;>
    rw [hx, hy] <;> decide

lemma inBits_or : InBits b (x ||| y) := by
  rw [inBits_iff, shr_or]
  rcases (inBits_iff b x).1 hx with hx | hx <;> rcases (inBits_iff b y).1 hy with hy | hy <;>
    rw [hx, hy] <;> decide

lemma inBits_xor : InBits b (x ^^^ y) := by
  rw [inBits_iff, shr_xor]
  rcases (inBits_iff b x).1 hx with hx | hx <;> rcases (inBits_iff b y).1 hy with hy | hy <;>
    rw [hx, hy] <;> decide

end

lemma toInt_eq_toNat (x : Int64) : x.toInt = if 2 * x.toBitVec.toNat < 2 ^ 64 then (x.toBitVec.toNat : ℤ)
    else x.toBitVec.toNat - 2 ^ 64 := by
  have hx : x.toInt = x.toBitVec.toInt := rfl
  rw [hx, toInt_eq_toNat_cond]
  split_ifs <;> omega

lemma InBits.mono {a : ℕ} (h : InBits a x) (hab : a ≤ b) : InBits b x := by
  have hpow : (2 : ℤ) ^ a ≤ 2 ^ b := pow_le_pow_right₀ (by norm_num) hab
  unfold InBits at h ⊢
  omega

lemma nonneg_iff_shr (x : Int64) : 0 ≤ x.toInt ↔ shr x 63 = 0 := by
  have h0 := Int64.toInt_zero
  have hx := range x
  unfold Fits at hx
  rw [← Int64.toInt_inj, toInt_shr]
  omega

lemma neg_iff_shr (x : Int64) : x.toInt < 0 ↔ shr x 63 = -1 := by
  have h1 : (-1 : Int64).toInt = -1 := rfl
  have hx := range x
  unfold Fits at hx
  rw [← Int64.toInt_inj, toInt_shr]
  omega

lemma or_nonneg (hx : 0 ≤ x.toInt) (hy : 0 ≤ y.toInt) : 0 ≤ (x ||| y).toInt := by
  rw [nonneg_iff_shr] at *
  rw [shr_or, hx, hy]
  rfl

lemma xor_nonneg (hx : 0 ≤ x.toInt) (hy : 0 ≤ y.toInt) : 0 ≤ (x ^^^ y).toInt := by
  rw [nonneg_iff_shr] at *
  rw [shr_xor, hx, hy]
  rfl

lemma toInt_xor_neg_one (x : Int64) : (x ^^^ -1).toInt = -x.toInt - 1 := by
  have hx := range x
  unfold Fits at hx
  have h : (x ^^^ -1).toBitVec = ~~~x.toBitVec := by exact xor_allOnes
  have hn : (x ^^^ -1).toInt = (~~~x.toBitVec).toInt := congrArg BitVec.toInt h
  obtain ⟨t, ht⟩ := bmod_spec (2 ^ 64 - 1 - x.toBitVec.toNat)
  have hf : Fits (-x.toInt - 1) := by
    unfold Fits
    omega
  have hc := toInt_eq_toNat x
  rw [toInt_not, ht] at hn
  split_ifs at hc
  · exact eq_of_fits (range _) hf (t := t - 1) (by rw [hn, hc]; ring)
  · exact eq_of_fits (range _) hf (t := t) (by rw [hn, hc]; ring)

lemma and_nonneg (h : 0 ≤ y.toInt) : 0 ≤ (x &&& y).toInt ∧ (x &&& y).toInt ≤ y.toInt := by
  have hle : (x &&& y).toBitVec.toNat ≤ y.toBitVec.toNat := by exact Nat.and_le_right
  rw [toInt_eq_toNat] at h
  rw [toInt_eq_toNat, toInt_eq_toNat]
  split_ifs at h ⊢ <;> omega

end
end DartSdk.WrapInt
