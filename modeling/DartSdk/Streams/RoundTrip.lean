import DartSdk.Library.Simulation
import DartSdk.Library.Base128
import DartSdk.Streams.DataStream

namespace DartSdk.Streams
open Base128 BaseWriteStream ReadStream List Int
variable {w : ℕ}

section

structure Marked (val : BitVec w → ℤ) (more : BitVec w → Bool) (shift : BitVec w → BitVec w) (marker : ℕ) : Prop where
  ofInt : ∀ v, BitVec.ofInt w (val v) = v
  part : ∀ v : BitVec w, (((v &&& 127).setWidth 8).toNat : ℤ) = val v % 128
  shift : ∀ v, val (shift v) = val v / 128
  last : ∀ v, more v = false →
    (((v + BitVec.ofNat w marker).setWidth 8).toNat : ℤ) = val v + marker ∧ 128 ≤ val v + marker
  bound : ∀ u v s, val v = val u / 2 ^ s → more v = true → s + 7 < w

variable {val : BitVec w → ℤ} {more : BitVec w → Bool} {shift : BitVec w → BitVec w} {marker : ℕ}

lemma setWidth_of_toNat {b : Byte} {n : ℤ} (h : (b.toNat : ℤ) = n) : b.setWidth w = BitVec.ofInt w n := by
  rw [← h, BitVec.ofInt_natCast]
  apply BitVec.eq_of_toNat_eq
  rw [BitVec.toNat_setWidth, BitVec.toNat_ofNat]

lemma readParts_writeParts (h : Marked val more shift marker) (u : BitVec w) (fuel : ℕ) :
    ∀ (s : ℕ) (v : BitVec w), val v = val u / 2 ^ s → s < w → w ≤ s + 7 * fuel →
    ∃ bytes, writeParts more shift (BitVec.ofNat w marker) fuel v = some bytes ∧
    ∀ rest, readParts (BitVec.ofNat w marker) (BitVec.ofInt w (val u % 2 ^ s)) s
    (bytes ++ rest) = some (u, rest) := by
  induction fuel with
  | zero =>
    intro s v hv hs hf
    omega
  | succ fuel ih =>
    intro s v hv hs hf
    cases hm : more v with
    | true =>
      have hnext : val (shift v) = val u / 2 ^ (s + 7) := by rw [h.shift, hv, ediv_part]
      obtain ⟨bytes, hbytes, hread⟩ := ih (s + 7) (shift v) hnext (h.bound u v s hv hm) (by omega)
      refine ⟨(v &&& 127).setWidth 8 :: bytes, by simp [writeParts, hm, hbytes], fun rest => ?_⟩
      have hpart := h.part v
      have hle : ((v &&& 127).setWidth 8).toNat ≤ 127 := by omega
      rw [hv] at hpart
      rw [cons_append, readParts, if_pos hle, shiftIn, if_pos hs, setWidth_of_toNat hpart, ofInt_emod_or_part]
      exact hread rest
    | false =>
      refine ⟨[(v + BitVec.ofNat w marker).setWidth 8], by simp [writeParts, hm], fun rest => ?_⟩
      obtain ⟨hlast, hge⟩ := h.last v hm
      have hgt : ¬ ((v + BitVec.ofNat w marker).setWidth 8).toNat ≤ 127 := by omega
      have hsub : BitVec.ofInt w (val v + marker) - BitVec.ofNat w marker = BitVec.ofInt w (val u / 2 ^ s) := by
        rw [BitVec.ofInt_add, BitVec.ofInt_natCast, add_sub_cancel_right, hv]
      rw [cons_append, nil_append, readParts, if_neg hgt, shiftIn, if_pos hs,
        setWidth_of_toNat hlast, hsub, ofInt_emod_or_ediv, h.ofInt]
      rfl

lemma readMarked_eq (hw : 0 < w) (m : BitVec w) (stream : List Byte) :
    readMarked m stream = readParts m 0 0 stream := by
  cases stream with
  | nil => rfl
  | cons b stream =>
    by_cases hb : 127 < b.toNat
    · simp [readMarked, readParts, hw, shiftIn, Nat.not_le.2 hb]
    · simp [readMarked, readParts, Nat.not_lt.1 hb]

lemma readMarked_writeParts (h : Marked val more shift marker) (hw : 0 < w) (v : BitVec w) :
    ∃ bytes, writeParts more shift (BitVec.ofNat w marker) w v = some bytes ∧
    ∀ rest, readMarked (BitVec.ofNat w marker) (bytes ++ rest) = some (v, rest) := by
  obtain ⟨bytes, hbytes, hread⟩ := readParts_writeParts h v w 0 v (by simp) hw (by omega)
  refine ⟨bytes, hbytes, fun rest => ?_⟩
  rw [readMarked_eq hw, ← hread rest]
  simp

variable {s n : ℕ} {V : ℤ}

lemma lt_of_two_pow_le (h : 2 ^ s ≤ V) (hV : V < 2 ^ n) : s < n := by
  by_contra hn
  have := pow_le_pow_right₀ (show (1 : ℤ) ≤ 2 by norm_num) (not_lt.1 hn)
  omega

lemma width_of_ediv {k : ℕ} (hlow : -2 ^ n ≤ V) (hhigh : V < 2 ^ n)
    (h : V / 2 ^ s < -2 ^ k ∨ 2 ^ k ≤ V / 2 ^ s) : s + k < n := by
  have hpos : (0 : ℤ) < 2 ^ s := by positivity
  rcases h with h | h
  · have hV : V < -2 ^ k * 2 ^ s := (Int.ediv_lt_iff_lt_mul hpos).1 h
    refine lt_of_two_pow_le (V := -V - 1) ?_ (by omega)
    rw [pow_add]
    linarith [Int.le_sub_one_of_lt hV]
  · have hV : 2 ^ k * 2 ^ s ≤ V := (Int.le_ediv_iff_mul_le hpos).1 h
    refine lt_of_two_pow_le ?_ hhigh
    rw [pow_add, mul_comm]
    exact hV

lemma toNat_ushiftRight_seven (v : BitVec w) : ((v >>> 7).toNat : ℤ) = v.toNat / 128 := by
  rw [BitVec.toNat_ushiftRight, Nat.shiftRight_eq_div_pow]
  rfl

lemma toNat_width {u : BitVec w} (h : 128 ≤ (u.toNat : ℤ) / 2 ^ s) : s + 7 < w := by
  have hu : (u.toNat : ℤ) < 2 ^ w := by exact_mod_cast u.isLt
  exact width_of_ediv (by omega) hu (.inr h)

variable (hw : 8 ≤ w)
include hw

lemma toInt_part (v : BitVec w) : (((v &&& 127).setWidth 8).toNat : ℤ) = v.toInt % 128 := by
  have hv := toNat_emod_256 hw v
  rw [toNat_part hw]
  omega

lemma exceedsData_iff (v : BitVec w) : exceedsData v = true ↔ v.toInt < -64 ∨ 63 < v.toInt := by
  have h63 : (63 : BitVec w) = BitVec.ofInt w 63 := rfl
  have h64 : (-64 : BitVec w) = BitVec.ofInt w (-64) := by
    rw [BitVec.ofInt_neg]
    rfl
  rw [exceedsData, Bool.or_eq_true, BitVec.slt_iff_toInt_lt, BitVec.slt_iff_toInt_lt, h63, h64,
    toInt_ofInt_of_small hw (by norm_num) (by norm_num),
    toInt_ofInt_of_small hw (by norm_num) (by norm_num)]

lemma marked_write : Marked BitVec.toInt exceedsData (·.sshiftRight 7) 192 (w := w) where
  ofInt v := BitVec.ofInt_toInt
  part v := toInt_part hw v
  shift v := by
    rw [BitVec.toInt_sshiftRight, shiftRight_eq_div_pow]
    rfl
  last v hm := by
    rw [← Bool.not_eq_true, exceedsData_iff hw] at hm
    rw [toNat_add_setWidth hw v (by norm_num)]
    push_cast
    omega
  bound u v s hv hm := by
    rw [exceedsData_iff hw] at hm
    have := width_of_ediv (s := s) (k := 6) (BitVec.le_toInt u) BitVec.toInt_lt (by omega)
    omega

lemma exceedsUnsignedData_iff (v : BitVec w) : exceedsUnsignedData v = true ↔ 127 < (v.toNat : ℤ) := by
  have h127 : (127 : BitVec w).toNat = 127 := toNat_ofNat_of_lt_256 hw (by norm_num)
  rw [exceedsUnsignedData, BitVec.ult_eq_decide, decide_eq_true_eq]
  omega

lemma marked_writeUnsigned : Marked (fun v : BitVec w => (v.toNat : ℤ)) exceedsUnsignedData (· >>> 7) 128 where
  ofInt v := by rw [BitVec.ofInt_natCast, BitVec.ofNat_toNat, BitVec.setWidth_eq]
  part v := by
    rw [toNat_part hw]
    rfl
  shift v := toNat_ushiftRight_seven v
  last v hm := by
    rw [← Bool.not_eq_true, exceedsUnsignedData_iff hw] at hm
    have hv := toNat_emod_256 hw v
    rw [toNat_add_setWidth hw v (by norm_num)]
    push_cast
    omega
  bound u v s hv hm := by
    rw [exceedsUnsignedData_iff hw] at hm
    exact toNat_width (u := u) (by omega)

end

section

def Positions (last : ℕ) : ℕ → List ℕ → Prop
  | s, [] => s = last
  | s, bitStart :: bodies => bitStart = s ∧ Positions last (s + 7) bodies

variable {result : BitVec w × List Byte} {stream : List Byte} {bodies : List ℕ} {last : ℕ} {m : BitVec w}

lemma unrolledParts_of_readParts {r : BitVec w} {s : ℕ} (hp : Positions last s bodies)
    (hlast : w ≤ last + 7) (h : readParts m r s stream = some result) :
    unrolledParts m last bodies r stream = some result := by
  induction bodies generalizing s r stream with
  | nil =>
    subst hp
    cases stream with
    | nil => simp [readParts] at h
    | cons b stream =>
      by_cases hb : b.toNat ≤ 127
      · -- A further part would be shifted beyond the width.
        rw [readParts, shiftIn] at h
        split_ifs at h with hs
        · cases stream with
          | nil => simp [readParts] at h
          | cons c stream =>
            have hs' : ¬ s + 7 < w := by omega
            simp [readParts, shiftIn, hs'] at h
        · simp at h
      · rw [readParts, if_neg hb] at h
        simpa [unrolledParts, Nat.lt_of_not_le hb] using h
  | cons bitStart bodies ih =>
    obtain ⟨rfl, hp⟩ := hp
    cases stream with
    | nil => simp [readParts] at h
    | cons b stream =>
      by_cases hb : b.toNat ≤ 127
      · rw [readParts, if_pos hb, bind_eq_some] at h
        obtain ⟨r', hr', h⟩ := h
        rw [unrolledParts, if_neg (Nat.not_lt.2 hb), hr']
        exact ih hp h
      · rw [readParts, if_neg hb] at h
        rw [unrolledParts, if_pos (Nat.lt_of_not_le hb)]
        exact h

lemma unrolled_of_readMarked (hw : 0 < w) (hp : Positions last 7 bodies) (hlast : w ≤ last + 7)
    (h : readMarked m stream = some result) : unrolled bodies last m stream = some result := by
  cases stream with
  | nil => simp [readMarked] at h
  | cons b stream =>
    rw [readMarked] at h
    rw [unrolled]
    split_ifs at h ⊢ with hb
    · exact h
    · refine unrolledParts_of_readParts hp hlast ?_
      simpa [shiftIn, hw] using h

end

section

lemma toInt_refIdByte (n : ℕ) : (BitVec.ofNat 8 (n &&& 127)).toInt = n % 128 := by
  have h : ∀ c < 128, (BitVec.ofNat 8 c).toInt = c := by decide
  rw [Nat.and_two_pow_sub_one_eq_mod n 7, h _ (Nat.mod_lt n (by norm_num))]
  rfl

lemma toInt_refIdLast (n : ℕ) : (BitVec.ofNat 8 (n &&& 127 ||| 128)).toInt = n % 128 - 128 := by
  have h : ∀ c < 128, (BitVec.ofNat 8 (c ||| 128)).toInt = c - 128 := by decide
  rw [Nat.and_two_pow_sub_one_eq_mod n 7, h _ (Nat.mod_lt n (by norm_num))]
  rfl

lemma refIdStages_more (stages n : ℕ) (result : ℤ) (stream : List Byte) :
    refIdStages (stages + 1) result (BitVec.ofNat 8 (n &&& 127) :: stream) =
    refIdStages stages (n % 128 + result * 128) stream := by
  rw [refIdStages, toInt_refIdByte, shiftLeft_eq]
  rfl

lemma refIdStages_last (stages n : ℕ) (result : ℤ) (stream : List Byte) :
    refIdStages (stages + 1) result (BitVec.ofNat 8 (n &&& 127 ||| 128) :: stream) =
    some (n % 128 - 128 + result * 128, stream) := by
  have h : (n % 128 - 128 : ℤ) < 0 := by omega
  rw [refIdStages, toInt_refIdLast, if_pos h, shiftLeft_eq]
  rfl

lemma readRefId_writeRefId {value : ℤ} (h : 0 ≤ value) (h' : value < 2 ^ 28) :
    ∃ bytes, writeRefId value = some bytes ∧ ∀ rest, readRefId (bytes ++ rest) = some (value, rest) := by
  obtain ⟨n, rfl⟩ := eq_ofNat_of_zero_le h
  have hguard : (guard (0 ≤ (n : ℤ) ∧ (n : ℤ) < 2 ^ 28) : Option Unit) = some () := if_pos ⟨h, h'⟩
  rw [writeRefId, hguard]
  refine ⟨_, rfl, fun rest => ?_⟩
  split_ifs <;>
    simp only [readRefId, cons_append, nil_append, refIdStages_more, refIdStages_last,
      some_bind, Option.some.injEq, Prod.mk.injEq, and_true] <;>
    omega

end

section

lemma continuedByte : ∀ b : Byte, b.toNat < 128 → (b ||| 128) &&& 127 = b ∧ (b ||| 128) &&& 128 ≠ 0 := by decide +kernel

lemma finalByte : ∀ b : Byte, b.toNat < 128 → b &&& 127 = b ∧ b &&& 128 = 0 := by decide +kernel

lemma signBit : ∀ b : Byte, b.toNat < 128 → (b &&& 64 ≠ 0 ↔ 64 ≤ b.toNat) := by decide +kernel

def PartAt (V : ℤ) (s : ℕ) (part : Byte) : Prop := (part.toNat : ℤ) = V / 2 ^ s % 128

variable {V : ℤ} {s : ℕ} {part : Byte}

lemma PartAt.lt (h : PartAt V s part) : part.toNat < 128 := by
  unfold PartAt at h
  omega

lemma lebParts_more (h : PartAt V s part) (hs : s < w) (stream : List Byte) :
    ReadStream.lebParts (BitVec.ofInt w (V % 2 ^ s)) s ((part ||| 128) :: stream) =
    ReadStream.lebParts (BitVec.ofInt w (V % 2 ^ (s + 7))) (s + 7) stream := by
  obtain ⟨hdata, hmore⟩ := continuedByte part h.lt
  rw [ReadStream.lebParts, hdata, shiftIn, if_pos hs, setWidth_of_toNat h, ofInt_emod_or_part, some_bind, if_pos hmore]

lemma lebParts_last (h : PartAt V s part) (hs : s < w) (stream : List Byte) :
    ReadStream.lebParts (BitVec.ofInt w (V % 2 ^ s)) s (part :: stream) =
    some (BitVec.ofInt w (V % 2 ^ (s + 7)), s + 7, part, stream) := by
  obtain ⟨hdata, hmore⟩ := finalByte part h.lt
  rw [ReadStream.lebParts, hdata, shiftIn, if_pos hs, setWidth_of_toNat h, ofInt_emod_or_part,
    some_bind, if_neg (not_not.2 hmore)]

lemma ofInt_emod_start (V : ℤ) : BitVec.ofInt w (V % 2 ^ 0) = 0 := by
  rw [pow_zero, emod_one]
  rfl

variable (hw : 8 ≤ w)
include hw

lemma read_lebParts (u : BitVec w) (fuel : ℕ) : ∀ (s : ℕ) (v : BitVec w),
    (v.toNat : ℤ) = u.toNat / 2 ^ s → s < w → w ≤ s + 7 * fuel → ∃ bytes, BaseWriteStream.lebParts fuel v = some bytes ∧
    ∀ rest, ∃ n last, n < 7 + w ∧ lebParts (BitVec.ofInt w (u.toNat % 2 ^ s)) s (bytes ++ rest) =
    some (u, n, last, rest) := by
  induction fuel with
  | zero =>
    intro s v hv hs hf
    omega
  | succ fuel ih =>
    intro s v hv hs hf
    have hpart : PartAt u.toNat s ((v &&& 127).setWidth 8) := by
      rw [PartAt, ← hv, toNat_part hw]
      rfl
    have hnext : ((v >>> 7).toNat : ℤ) = u.toNat / 2 ^ (s + 7) := by rw [toNat_ushiftRight_seven, hv, ediv_part]
    have hzero : v >>> 7 = 0 ↔ (u.toNat : ℤ) / 2 ^ (s + 7) = 0 := by
      rw [← hnext, ← BitVec.toNat_inj]
      exact natCast_eq_zero.symm
    by_cases hlast : v >>> 7 = 0
    · refine ⟨[(v &&& 127).setWidth 8], by simp [BaseWriteStream.lebParts, hlast],
        fun rest => ⟨s + 7, (v &&& 127).setWidth 8, by omega, ?_⟩⟩
      have hu := emod_add_mul_ediv u.toNat (2 ^ (s + 7))
      rw [hzero.1 hlast, mul_zero, add_zero] at hu
      rw [cons_append, nil_append, lebParts_last hpart hs, hu, BitVec.ofInt_natCast,
        BitVec.ofNat_toNat, BitVec.setWidth_eq]
    · have hs' : s + 7 < w := by
        refine toNat_width (u := u) ?_
        have hne := mt hzero.2 hlast
        rw [← ediv_part] at hne
        omega
      obtain ⟨bytes, hbytes, hread⟩ := ih (s + 7) (v >>> 7) hnext hs' (by omega)
      refine ⟨((v &&& 127).setWidth 8 ||| 128) :: bytes, ?_, fun rest => ?_⟩
      · rw [BaseWriteStream.lebParts, if_neg hlast, hbytes]
        rfl
      · rw [cons_append, lebParts_more hpart hs]
        exact hread rest

lemma readLEB128_writeLEB128 (isSigned : Bool) (v : BitVec w) (h : (isSigned && v.msb) = false) :
    ∃ bytes, writeLEB128 isSigned v = some bytes ∧ ∀ rest, readLEB128 (bytes ++ rest) = some (v, rest) := by
  obtain ⟨bytes, hbytes, hread⟩ := read_lebParts hw v w 0 v (by simp) (by omega) (by omega)
  refine ⟨bytes, by simp [writeLEB128, h, hbytes], fun rest => ?_⟩
  obtain ⟨n, last, hn, hrest⟩ := hread rest
  rw [ofInt_emod_start] at hrest
  rw [readLEB128, hrest, Option.bind_eq_bind]
  simp [hn]

lemma sshiftRight_or_signExtend {v : BitVec w} (h : v.msb = true) :
    v.sshiftRight 7 ||| signExtend w = v.sshiftRight 7 := by
  rw [signExtend, not_shiftLeft_sub_one]
  ext i hi
  by_cases hlow : i < w - 7
  · simp [hlow]
  · have hge : ¬ 7 + i < w := by omega
    simp [BitVec.getElem_sshiftRight, hge, h]

lemma slebParts_succ (fuel : ℕ) (v : BitVec w) : slebParts v.msb (fuel + 1) v =
    if -64 ≤ v.toInt ∧ v.toInt < 64 then some [(v &&& 127).setWidth 8]
    else (slebParts v.msb fuel (v.sshiftRight 7)).map (((v &&& 127).setWidth 8 ||| 128) :: ·) := by
  have hpart := toInt_part hw v
  have hbit := signBit ((v &&& 127).setWidth 8) (by omega)
  have hshift : (v.sshiftRight 7).toInt = v.toInt / 128 := (marked_write hw).shift v
  have hmsb : (v.sshiftRight 7).msb = v.msb := by
    rw [BitVec.msb_eq_toInt, BitVec.msb_eq_toInt]
    exact decide_eq_decide.2 (by omega)
  have hmask : (if v.msb = true then v.sshiftRight 7 ||| signExtend w else v.sshiftRight 7) =
      v.sshiftRight 7 := by
    split_ifs with h
    · exact sshiftRight_or_signExtend hw h
    · rfl
  have hlast : (if v.msb = true then decide (v.sshiftRight 7 = ~~~0) &&
        decide ((v &&& 127).setWidth 8 &&& 64 ≠ 0)
      else decide (v.sshiftRight 7 = 0) && decide ((v &&& 127).setWidth 8 &&& 64 = 0)) = true ↔
      -64 ≤ v.toInt ∧ v.toInt < 64 := by
    have hones : (~~~0 : BitVec w).toInt = -1 := by
      have h := BitVec.toInt_allOnes (w := w)
      rw [if_pos (by omega)] at h
      rw [← h]
      congr 1
      simp
    have hzero : (0 : BitVec w).toInt = 0 := BitVec.toInt_zero
    have hneg := BitVec.msb_eq_toInt (x := v)
    split_ifs with h
    · rw [Bool.and_eq_true, decide_eq_true_eq, decide_eq_true_eq, hbit, ← BitVec.toInt_inj, hones, hshift]
      rw [h, eq_comm, decide_eq_true_eq] at hneg
      omega
    · have hclear := not_iff_not.2 hbit
      rw [not_ne_iff] at hclear
      rw [Bool.and_eq_true, decide_eq_true_eq, decide_eq_true_eq, hclear, ← BitVec.toInt_inj, hzero, hshift]
      rw [hneg, decide_eq_true_eq] at h
      omega
  simp only [slebParts, hmask, hmsb, guard_true, Option.bind_eq_bind, Option.pure_def, Option.bind_some, hlast]
  split_ifs
  · rfl
  · cases slebParts v.msb fuel (v.sshiftRight 7) <;> rfl

lemma read_slebParts (u : BitVec w) (fuel : ℕ) : ∀ (s : ℕ) (v : BitVec w),
    v.toInt = u.toInt / 2 ^ s → s < w → w ≤ s + 7 * fuel → ∃ bytes, slebParts v.msb fuel v = some bytes ∧
    ∀ rest, ∃ n last, n < 7 + w ∧ -2 ^ n ≤ u.toInt ∧ u.toInt < 2 ^ n ∧ (last &&& 64 ≠ 0 ↔ u.toInt < 0) ∧
    lebParts (BitVec.ofInt w (u.toInt % 2 ^ s)) s (bytes ++ rest) =
    some (BitVec.ofInt w (u.toInt % 2 ^ n), n, last, rest) := by
  induction fuel with
  | zero =>
    intro s v hv hs hf
    omega
  | succ fuel ih =>
    intro s v hv hs hf
    have hpart : PartAt u.toInt s ((v &&& 127).setWidth 8) := by rw [PartAt, ← hv, toInt_part hw]
    have hshift : (v.sshiftRight 7).toInt = v.toInt / 128 := (marked_write hw).shift v
    have hnext : (v.sshiftRight 7).toInt = u.toInt / 2 ^ (s + 7) := by rw [hshift, hv, ediv_part]
    have hpos : (0 : ℤ) < 2 ^ s := by positivity
    rw [slebParts_succ hw]
    split_ifs with hlast
    · refine ⟨_, rfl, fun rest => ⟨s + 7, (v &&& 127).setWidth 8, by omega, ?_, ?_, ?_, ?_⟩⟩
      · have hV := (Int.le_ediv_iff_mul_le hpos).1 (hv ▸ hlast.1)
        rw [pow_add]
        omega
      · have hV := (Int.ediv_lt_iff_lt_mul hpos).1 (hv ▸ hlast.2)
        rw [pow_add]
        omega
      · have hneg : u.toInt / 2 ^ s < 0 ↔ u.toInt < 0 := by rw [Int.ediv_lt_iff_lt_mul hpos, zero_mul]
        rw [signBit _ hpart.lt]
        unfold PartAt at hpart
        omega
      · rw [cons_append, nil_append, lebParts_last hpart hs]
    · have hs' : s + 7 < w := by
        have := width_of_ediv (s := s) (k := 6) (BitVec.le_toInt u) BitVec.toInt_lt (by omega)
        omega
      have hmsb : (v.sshiftRight 7).msb = v.msb := by
        rw [BitVec.msb_eq_toInt, BitVec.msb_eq_toInt]
        exact decide_eq_decide.2 (by omega)
      obtain ⟨bytes, hbytes, hread⟩ := ih (s + 7) (v.sshiftRight 7) hnext hs' (by omega)
      rw [hmsb] at hbytes
      refine ⟨((v &&& 127).setWidth 8 ||| 128) :: bytes, by rw [hbytes]; rfl, fun rest => ?_⟩
      rw [cons_append, lebParts_more hpart hs]
      exact hread rest

lemma readSLEB128_writeSLEB128 (v : BitVec w) : ∃ bytes, writeSLEB128 v = some bytes ∧
    ∀ rest, readSLEB128 (bytes ++ rest) = some (v, rest) := by
  obtain ⟨bytes, hbytes, hread⟩ := read_slebParts hw v w 0 v (by simp) (by omega) (by omega)
  refine ⟨bytes, hbytes, fun rest => ?_⟩
  obtain ⟨n, last, hn, hlow, hhigh, hsign, hrest⟩ := hread rest
  rw [ofInt_emod_start] at hrest
  have hguard : (guard (n < 7 + w) : Option Unit) = some () := if_pos hn
  have hvalue : (BitVec.ofInt w (v.toInt % 2 ^ n) ||| if last &&& 64 ≠ 0 ∧ n < w then
      ~~~(((1 : BitVec w) <<< n) - 1) else 0) = v := by
    split_ifs with hc
    · have hneg := hsign.1 hc.1
      have hV : v.toInt % 2 ^ n + 2 ^ n * -1 = v.toInt := by
        have := add_emod_right v.toInt (2 ^ n)
        rw [emod_eq_of_lt (by omega) (by omega)] at this
        omega
      rw [not_shiftLeft_sub_one, ofInt_or_shiftLeft (emod_nonneg _ (by positivity))
        (emod_lt_of_pos _ (by positivity)), hV, BitVec.ofInt_toInt]
    · change BitVec.ofInt w _ ||| 0#w = v
      rw [BitVec.or_zero]
      by_cases hn : n < w
      · have hnn : ¬ v.toInt < 0 := fun h => hc ⟨hsign.2 h, hn⟩
        rw [emod_eq_of_lt (by omega) hhigh, BitVec.ofInt_toInt]
      · rw [ofInt_emod_of_le _ (not_lt.1 hn), BitVec.ofInt_toInt]
  rw [readSLEB128, hrest, some_bind]
  dsimp only
  rw [hguard, hvalue]
  rfl

end

section

def Encoding.Writable : (e : Encoding) → e.Value → Prop
  | unsigned isSigned _, value => (isSigned && value.msb) = false
  | refId, value => 0 ≤ value ∧ value < 2 ^ 28
  | leb128 isSigned _, value => (isSigned && value.msb) = false
  | _, _ => True

lemma IntType.eight_le_bits (t : IntType) : 8 ≤ t.bits := by cases t <;> decide

lemma read_write (hw : 8 ≤ w) (v : BitVec w) :
    ∃ bytes, write v = some bytes ∧ ∀ rest, read (bytes ++ rest) = some (v, rest) :=
  readMarked_writeParts (marked_write hw) (by omega) v

lemma readUnsigned_writeUnsigned (hw : 8 ≤ w) (isSigned : Bool) (v : BitVec w) (h : (isSigned && v.msb) = false) :
    ∃ bytes, writeUnsigned isSigned v = some bytes ∧ ∀ rest, readUnsigned (bytes ++ rest) = some (v, rest) := by
  obtain ⟨bytes, hbytes, hread⟩ := readMarked_writeParts (marked_writeUnsigned hw) (by omega) v
  refine ⟨bytes, ?_, hread⟩
  rw [writeUnsigned, h, ← hbytes]
  rfl

lemma rawRead_rawWrite (t : IntType) (v : BitVec t.bits) :
    ∃ bytes, rawWrite t v = some bytes ∧ ∀ rest, rawRead t (bytes ++ rest) = some (v, rest) := by
  cases t with
  | int8 => exact ⟨[v], rfl, fun rest => rfl⟩
  | int16 =>
    obtain ⟨bytes, hbytes, hread⟩ := read_write (w := 16) (by norm_num) v
    exact ⟨bytes, hbytes, fun rest => unrolled_of_readMarked (by norm_num) (by simp [Positions])
      (by norm_num) (hread rest)⟩
  | int32 =>
    obtain ⟨bytes, hbytes, hread⟩ := read_write (w := 32) (by norm_num) v
    exact ⟨bytes, hbytes, fun rest => unrolled_of_readMarked (by norm_num) (by simp [Positions])
      (by norm_num) (hread rest)⟩
  | int64 =>
    obtain ⟨bytes, hbytes, hread⟩ := read_write (w := 64) (by norm_num) v
    exact ⟨bytes, hbytes, fun rest => unrolled_of_readMarked (by norm_num) (by simp [Positions])
      (by norm_num) (hread rest)⟩

lemma Encoding.read_write (e : Encoding) (value : e.Value) (h : e.Writable value) :
    ∃ bytes, e.write value = some bytes ∧ ∀ rest, e.read (bytes ++ rest) = some (value, rest) := by
  cases e with
  | signed t => exact Streams.read_write t.eight_le_bits value
  | unsigned isSigned t => exact readUnsigned_writeUnsigned t.eight_le_bits isSigned value h
  | raw t => exact rawRead_rawWrite t value
  | refId => exact readRefId_writeRefId h.1 h.2
  | leb128 isSigned t => exact readLEB128_writeLEB128 t.eight_le_bits isSigned value h
  | sleb128 t => exact readSLEB128_writeSLEB128 t.eight_le_bits value

theorem readAll_writeAll (items : List ((e : Encoding) × e.Value)) (h : ∀ item ∈ items, item.1.Writable item.2) :
    ∃ bytes, writeAll items = some bytes ∧
      ∀ rest, readAll (items.map Sigma.fst) (bytes ++ rest) = some (items, rest) := by
  induction items with
  | nil => exact ⟨[], rfl, fun rest => rfl⟩
  | cons item items ih =>
    obtain ⟨e, value⟩ := item
    obtain ⟨bytes, hbytes, hread⟩ := e.read_write value (h _ (mem_cons_self ..))
    obtain ⟨more, hmore, hreadMore⟩ := ih fun i hi => h i (mem_cons_of_mem _ hi)
    refine ⟨bytes ++ more, by simp [writeAll, hbytes, hmore], fun rest => ?_⟩
    rw [map_cons, readAll, append_assoc, hread, some_bind]
    dsimp only
    rw [hreadMore]
    rfl

theorem readAll_writeAll_mixed : ∃ bytes, writeAll [⟨.signed .int8, -100⟩, ⟨.unsigned false .int64, -1⟩, ⟨.refId, 300⟩,
      ⟨.sleb128 .int32, -65⟩] = some bytes ∧
    ∀ rest, readAll [.signed .int8, .unsigned false .int64, .refId, .sleb128 .int32]
      (bytes ++ rest) = some ([⟨.signed .int8, -100⟩, ⟨.unsigned false .int64, -1⟩,
        ⟨.refId, 300⟩, ⟨.sleb128 .int32, -65⟩], rest) :=
  readAll_writeAll [⟨.signed .int8, -100⟩, ⟨.unsigned false .int64, -1⟩, ⟨.refId, 300⟩,
    ⟨.sleb128 .int32, -65⟩] (by simp [Encoding.Writable])

example : writeAll [⟨.signed .int8, -100⟩, ⟨.refId, 300⟩, ⟨.sleb128 .int32, -65⟩] =
    some [28, 191, 2, 172, 191, 127] := by
  decide

end
end DartSdk.Streams
