import DartSdk.LoadOptimizer.IndexedPlaces
import Mathlib.Tactic.Ring

namespace DartSdk.LoadOptimizer.Indexed
open List Option Nat ElementSize Place
variable {D : Type} {size size' : ElementSize} {offset offset' : ℕ}

section

inductive ReceiversMeet (defs : Definitions D) : Option D → Option D → Prop
  | same (r : Option D) : ReceiversMeet defs r r
  | left {d : D} : canBeAliased defs (some d) = true → ReceiversMeet defs (some d) none
  | right {d : D} : canBeAliased defs (some d) = true → ReceiversMeet defs none (some d)

structure Covers (size : ElementSize) (offset : ℕ) (larger : ElementSize) (covering : ℕ) : Prop where
  typed : size ≠ .noSize
  lt : size.rank < larger.rank
  round : covering = roundByteOffset larger offset
  part : ∃ index < 2 ^ (larger.rank - size.rank), offset = covering + index * size.multiplier

inductive ElementsMeet : ElementSize → ℕ → ElementSize → ℕ → Prop
  | same (size : ElementSize) (offset : ℕ) : ElementsMeet size offset size offset
  | larger {size size' : ElementSize} {offset offset' : ℕ} : Covers size offset size' offset' →
      ElementsMeet size offset size' offset'
  | smaller {size size' : ElementSize} {offset offset' : ℕ} : Covers size' offset' size offset →
      ElementsMeet size offset size' offset'

lemma mem_typed (h : size ≠ .noSize) : size ∈ typed := by
  cases size with
  | noSize => exact absurd rfl h
  | _ => simp [typed]

lemma ne_noSize_of_rank_lt (h : size.rank < size'.rank) : size' ≠ .noSize := by
  rintro rfl
  exact not_lt_zero _ h

inductive SelectorsMeet : Selector D → Selector D → Prop
  | left (sel : Selector D) : SelectorsMeet (.indexed none) sel
  | right (sel : Selector D) : SelectorsMeet sel (.indexed none)
  | constant {size size' : ElementSize} {offset offset' : ℕ} : ElementsMeet size offset size' offset' →
      SelectorsMeet (.constantIndexed size offset) (.constantIndexed size' offset')

variable {defs : Definitions D} {q : Place D} {d : D} {rep : Representation}

lemma receiver_of_toAlias {d : D} (h : (q.toAlias defs).receiver = some d) : q.receiver = some d :=
  (filter_eq_some_iff.1 h).1

variable {sel : Selector D}

lemma larger_mem_related {r : Option D} (h : Covers size offset size' offset') :
    ⟨rep, r, .constantIndexed size' offset'⟩ ∈ relatedElements defs ⟨rep, r, sel⟩ size offset := by
  rw [h.round]
  refine mem_append_left _ (mem_map.2 ⟨size', mem_filter.2 ⟨?_, by simpa using h.lt⟩, rfl⟩)
  exact mem_typed (ne_noSize_of_rank_lt h.lt)

lemma unknown_larger_mem_related (hali : canBeAliased defs (some d) = true) (h : Covers size offset size' offset') :
    ⟨rep, none, .constantIndexed size' offset'⟩ ∈ relatedElements defs ⟨rep, some d, sel⟩ size offset := by
  rw [h.round]
  refine mem_append_right _ ?_
  rw [if_pos (by simpa using hali)]
  refine mem_flatMap.2 ⟨size', mem_typed (ne_noSize_of_rank_lt h.lt), ?_⟩
  rw [if_pos h.lt]
  exact mem_cons_self

lemma unknown_smaller_mem_related (hali : canBeAliased defs (some d) = true) (h : Covers size' offset' size offset) :
    ⟨rep, none, .constantIndexed size' offset'⟩ ∈ relatedElements defs ⟨rep, some d, sel⟩ size offset := by
  obtain ⟨index, hind, rfl⟩ := h.part
  have hlt := h.lt
  refine mem_append_right _ ?_
  rw [if_pos (by simpa using hali)]
  refine mem_flatMap.2 ⟨size', mem_typed h.typed, ?_⟩
  rw [if_neg (by omega), if_pos hlt]
  exact mem_map.2 ⟨index, mem_range.2 hind, rfl⟩

end

section Killed
variable [DecidableEq D] {defs : Definitions D} {places : List (Place D)} {a b p q : Place D}

lemma toAlias_mem_aliases (hp : p ∈ places) : p.toAlias defs ∈ aliases defs places :=
  mem_dedup.2 (mem_cons_of_mem _ (mem_map.2 ⟨p, hp, rfl⟩))

lemma mem_representatives_toAlias (hq : q ∈ places) : q ∈ representatives defs places (.alias (q.toAlias defs)) :=
  mem_filter.2 ⟨hq, by simp⟩

section
variable (hb : b ∈ aliases defs places)
include hb

lemma mem_killed {id : AliasId D} (hkill : (a, id) ∈ (b, .alias b) :: computeKillSet defs places b)
    (hq : q ∈ representatives defs places id) : q ∈ killed defs places a := by
  refine mem_flatMap.2 ⟨(a, id), mem_filter.2 ⟨?_, by simp⟩, hq⟩
  exact mem_flatMap.2 ⟨b, hb, hkill⟩

lemma left_mem_crossAlias : (a, .alias b) ∈ crossAlias defs places a b := by
  rw [crossAlias, if_pos hb]
  exact mem_cons_self

lemma right_mem_crossAlias : (b, .alias a) ∈ crossAlias defs places a b := by
  rw [crossAlias, if_pos hb]
  exact mem_cons_of_mem _ mem_cons_self

end

section

lemma related_kills (hsel : a.selector = .constantIndexed size offset) (hsize : size ≠ .noSize)
    (hb : b ∈ relatedElements defs a size offset) (hali : b ∈ aliases defs places) :
    (a, .alias b) ∈ (a, .alias a) :: computeKillSet defs places a ∧
    (b, .alias a) ∈ (a, .alias a) :: computeKillSet defs places a := by
  have hmem : ∀ kill ∈ crossAlias defs places a b, kill ∈ (a, .alias a) :: computeKillSet defs places a := by
    intro kill hkill
    refine mem_cons_of_mem _ ?_
    rw [computeKillSet, hsel]
    refine mem_append_left _ ?_
    rw [if_pos hsize]
    exact mem_flatMap.2 ⟨b, hb, hkill⟩
  exact ⟨hmem _ (left_mem_crossAlias hali), hmem _ (right_mem_crossAlias hali)⟩

lemma constant_kills (hsel : a.selector = .constantIndexed size offset) {kill : Kill D}
    (h : kill ∈ (if a.receiver = none then (a, .anyAllocationIndexed) :: crossAlias defs places a anyInstanceAnyIndex
      else crossAlias defs places a a.copyWithoutIndex ++ if canBeAliased defs a.receiver then
          crossAlias defs places a a.copyWithoutInstance ++ crossAlias defs places a anyInstanceAnyIndex
        else [])) : kill ∈ (a, .alias a) :: computeKillSet defs places a := by
  refine mem_cons_of_mem _ ?_
  rw [computeKillSet, hsel]
  exact mem_append_right _ h

lemma indexed_kills {index : Option D} (hsel : a.selector = .indexed index) {kill : Kill D}
    (h : kill ∈ (if a.receiver = none then [(a, .anyConstantIndexed), (a, .anyAllocationIndexed)]
      else if canBeAliased defs a.receiver then
        crossAlias defs places a anyInstanceAnyIndex ++ [(a, .unknownInstanceConstantIndexed)]
      else [])) : kill ∈ (a, .alias a) :: computeKillSet defs places a := by
  refine mem_cons_of_mem _ ?_
  rw [computeKillSet, hsel]
  exact h

end

variable {r r' : Option D}

lemma constant_constant_killed {size size' : ElementSize}
    (hp : ⟨.noRepresentation, r, .constantIndexed size offset⟩ ∈ aliases defs places)
    (hq : ⟨.noRepresentation, r', .constantIndexed size' offset'⟩ ∈ aliases defs places)
    (hqrep : q ∈ representatives defs places (.alias ⟨.noRepresentation, r', .constantIndexed size' offset'⟩))
    (hrec : ReceiversMeet defs r r') (hele : ElementsMeet size offset size' offset') :
    q ∈ killed defs places ⟨.noRepresentation, r, .constantIndexed size offset⟩ := by
  cases hrec with
  | same =>
    cases hele with
    | same => exact mem_killed hp mem_cons_self hqrep
    | larger h => exact mem_killed hp (related_kills rfl h.typed (larger_mem_related h) hq).1 hqrep
    | smaller h => exact mem_killed hq (related_kills rfl h.typed (larger_mem_related h) hp).2 hqrep
  | @left d hali =>
    cases hele with
    | same =>
      refine mem_killed hp (constant_kills rfl ?_) hqrep
      rw [if_pos hali]
      exact mem_append_right _ (mem_append_left _ (left_mem_crossAlias hq))
    | larger h => exact mem_killed hp (related_kills rfl h.typed (unknown_larger_mem_related hali h) hq).1 hqrep
    | smaller h =>
      exact mem_killed hp (related_kills rfl (ne_noSize_of_rank_lt h.lt) (unknown_smaller_mem_related hali h) hq).1 hqrep
  | @right d hali =>
    cases hele with
    | same =>
      refine mem_killed hq (constant_kills rfl ?_) hqrep
      rw [if_pos hali]
      exact mem_append_right _ (mem_append_left _ (right_mem_crossAlias hp))
    | larger h =>
      exact mem_killed hq (related_kills rfl (ne_noSize_of_rank_lt h.lt) (unknown_smaller_mem_related hali h) hp).2 hqrep
    | smaller h => exact mem_killed hq (related_kills rfl h.typed (unknown_larger_mem_related hali h) hp).2 hqrep

lemma mem_anyAllocationIndexed {d : D} (hq : q ∈ places)
    (hqal : q.toAlias defs = ⟨.noRepresentation, some d, .indexed none⟩)
    (hali : canBeAliased defs (some d) = true) : q ∈ representatives defs places .anyAllocationIndexed := by
  have hrece : q.receiver = some d := receiver_of_toAlias (congrArg receiver hqal)
  refine mem_filter.2 ⟨hq, ?_⟩
  rw [hqal, hrece, hali]
  rfl

lemma indexed_killed {sel : Selector D} (hp : ⟨.noRepresentation, r, sel⟩ ∈ aliases defs places) (hq : q ∈ places)
    (hqal : q.toAlias defs = ⟨.noRepresentation, r', .indexed none⟩) (hsel : ∀ index, sel = .indexed index → index = none)
    (hrec : ReceiversMeet defs r r') : q ∈ killed defs places ⟨.noRepresentation, r, sel⟩ := by
  have hqrep : q ∈ representatives defs places (.alias ⟨.noRepresentation, r', .indexed none⟩) := by
    rw [← hqal]
    exact mem_representatives_toAlias hq
  have hqmem : ⟨.noRepresentation, r', .indexed none⟩ ∈ aliases defs places := by
    rw [← hqal]
    exact toAlias_mem_aliases hq
  cases sel with
  | indexed index =>
    obtain rfl := hsel index rfl
    cases hrec with
    | same => exact mem_killed hp mem_cons_self hqrep
    | @left d hali =>
      refine mem_killed hp (indexed_kills rfl ?_) hqrep
      rw [if_pos hali]
      exact mem_append_left _ (left_mem_crossAlias hqmem)
    | @right d hali =>
      refine mem_killed hp (indexed_kills rfl ?_) (mem_anyAllocationIndexed hq hqal hali)
      exact mem_cons_of_mem _ mem_cons_self
  | constantIndexed size offset =>
    cases hrec with
    | same =>
      refine mem_killed hp (constant_kills rfl ?_) hqrep
      split_ifs with hr
      · subst hr
        exact mem_cons_of_mem _ (left_mem_crossAlias hqmem)
      · exact mem_append_left _ (left_mem_crossAlias hqmem)
      · exact mem_append_left _ (left_mem_crossAlias hqmem)
    | @left d hali =>
      refine mem_killed hp (constant_kills rfl ?_) hqrep
      rw [if_pos hali]
      exact mem_append_right _ (mem_append_right _ (left_mem_crossAlias hqmem))
    | @right d hali =>
      refine mem_killed hp (constant_kills rfl ?_) (mem_anyAllocationIndexed hq hqal hali)
      exact mem_cons_self

lemma indexed_constant_killed {offset : ℕ}
    (hp : ⟨.noRepresentation, r, .indexed none⟩ ∈ aliases defs places) (hq : q ∈ places)
    (hqal : q.toAlias defs = ⟨.noRepresentation, r', .constantIndexed size offset⟩)
    (hrec : ReceiversMeet defs r r') : q ∈ killed defs places ⟨.noRepresentation, r, .indexed none⟩ := by
  have hany : canBeAliased defs r' = true → q ∈ representatives defs places .anyConstantIndexed := by
    intro hali
    refine mem_filter.2 ⟨hq, ?_⟩
    rw [hqal, hali]
    rfl
  cases hrec with
  | same =>
    cases r with
    | none =>
      refine mem_killed hp (indexed_kills rfl ?_) (hany rfl)
      exact mem_cons_self
    | some d =>
      have hqmem : q.toAlias defs ∈ aliases defs places := toAlias_mem_aliases hq
      have hqrep : q ∈ representatives defs places (.alias (q.toAlias defs)) := mem_representatives_toAlias hq
      rw [hqal] at hqmem hqrep
      refine mem_killed hqmem (constant_kills rfl ?_) hqrep
      exact mem_append_left _ (right_mem_crossAlias hp)
  | @left d hali =>
    have hunk : q ∈ representatives defs places .unknownInstanceConstantIndexed := by
      refine mem_filter.2 ⟨hq, ?_⟩
      rw [hqal]
      rfl
    refine mem_killed hp (indexed_kills rfl ?_) hunk
    rw [if_pos hali]
    exact mem_append_right _ (mem_singleton.2 rfl)
  | @right d hali =>
    refine mem_killed hp (indexed_kills rfl ?_) (hany hali)
    exact mem_cons_self

lemma killed_of_meet (hp : p ∈ places) (hq : q ∈ places)
    (hrec : ReceiversMeet defs (p.toAlias defs).receiver (q.toAlias defs).receiver)
    (hselectors : SelectorsMeet (p.toAlias defs).selector (q.toAlias defs).selector) :
    q ∈ killed defs places (p.toAlias defs) := by
  have hpmem : p.toAlias defs ∈ aliases defs places := toAlias_mem_aliases hp
  have hqmem : q.toAlias defs ∈ aliases defs places := toAlias_mem_aliases hq
  have hqrep : q ∈ representatives defs places (.alias (q.toAlias defs)) := mem_representatives_toAlias hq
  have hsel : ∀ p : Place D, ∀ index, (p.toAlias defs).selector = .indexed index → index = none := by
    intro p index h
    rw [toAlias] at h
    split_ifs at h with hcon
    · rw [h] at hcon
      cases hcon
    · cases h
      rfl
  obtain ⟨r, sel, hpal⟩ : ∃ r sel, p.toAlias defs = ⟨.noRepresentation, r, sel⟩ := ⟨_, _, rfl⟩
  obtain ⟨r', sel', hqal⟩ : ∃ r sel, q.toAlias defs = ⟨.noRepresentation, r, sel⟩ := ⟨_, _, rfl⟩
  have hpsel := hsel p
  have hqsel := hsel q
  rw [hpal] at hpmem hrec hselectors hpsel ⊢
  rw [hqal] at hqmem hqrep hrec hselectors hqsel
  cases hselectors with
  | left sel' =>
    cases sel' with
    | indexed index =>
      obtain rfl := hqsel index rfl
      exact indexed_killed hpmem hq hqal hpsel hrec
    | constantIndexed size offset => exact indexed_constant_killed hpmem hq hqal hrec
  | right sel => exact indexed_killed hpmem hq hqal hpsel hrec
  | constant hele => exact constant_constant_killed hpmem hqmem hqrep hrec hele

end Killed

section

def ClassId.width (wordSize : ℕ) : ClassId → ℕ
  | .array | .immutableArray => wordSize
  | .oneByteString | .externalOneByteString => 1
  | .twoByteString | .externalTwoByteString => 2
  | c => c.elementSizeFor.multiplier

def ClassId.isSigned : ClassId → Bool
  | .typedDataInt8Array | .typedDataInt16Array | .typedDataInt32Array | .typedDataInt64Array
  | .typedDataUint64Array => true
  | _ => false

inductive Layout where
  | typedData
  | elements (width : ℕ)

structure State (D Obj : Type) where
  object : D → Obj
  base : D → ℕ
  index : D → ℤ
  bytes : Obj → ℕ → Fin 256

variable {Obj : Type} (wordSize : ℕ) (defs : Definitions D) (layout : Obj → Layout)

def State.Valid (σ : State D Obj) : Prop := ∀ d value, defs.smiConstant d = some value → σ.index d = value

structure Legal (σ : State D Obj) (a : Access D) : Prop where
  nonneg : 0 ≤ σ.index a.index
  typed : a.isTyped = true → layout (σ.object a.receiver) = .typedData ∧
    (defs.isUntagged a.receiver = false → σ.base a.receiver = 0)
  untyped : a.isTyped = false → layout (σ.object a.receiver) = .elements (a.classId.width wordSize) ∧
    σ.base a.receiver = 0 ∧ a.scale = a.classId.width wordSize

def State.start (σ : State D Obj) (a : Access D) : ℕ := σ.base a.receiver + (σ.index a.index).toNat * a.scale

inductive Value where
  | int (value : ℤ)
  | bits (bytes : List (Fin 256))

def littleEndian : List (Fin 256) → ℕ
  | [] => 0
  | byte :: bytes => byte.val + 256 * littleEndian bytes

def loadValue (representation : Representation) (signed : Bool) (bytes : List (Fin 256)) : Value :=
  if representation ∈ [.unboxedInt32, .unboxedUint32, .unboxedInt64] then
    if signed ∧ 256 ^ bytes.length ≤ 2 * littleEndian bytes then
      .int (littleEndian bytes - 256 ^ bytes.length)
    else .int (littleEndian bytes)
  else .bits bytes

def State.load (σ : State D Obj) (a : Access D) : Value :=
  loadValue (a.classId.representationOfArrayElement wordSize) a.classId.isSigned
    ((range (a.classId.width wordSize)).map fun k => σ.bytes (σ.object a.receiver) (σ.start a + k))

structure SameRead (σ : State D Obj) (a b : Access D) : Prop where
  object : σ.object a.receiver = σ.object b.receiver
  start : σ.start a = σ.start b
  width : a.classId.width wordSize = b.classId.width wordSize
  value : σ.load wordSize a = σ.load wordSize b

def Separate (σ τ : State D Obj) : Prop := ∀ d e, d ≠ e → σ.object d = τ.object e →
  ¬(defs.isAllocation d = true ∧ defs.isAllocation e = true) ∧
  ¬(defs.isAllocation d = true ∧ defs.isNotAliased d = true) ∧
  ¬(defs.isAllocation e = true ∧ defs.isNotAliased e = true)

end

def CanTouch (wordSize : ℕ) (defs : Definitions D) (a b : Access D) : Prop :=
  ∃ (Obj : Type) (layout : Obj → Layout) (σ τ : State D Obj), σ.Valid defs ∧ τ.Valid defs ∧ Separate defs σ τ ∧
    Legal wordSize defs layout σ a ∧ Legal wordSize defs layout τ b ∧
    σ.object a.receiver = τ.object b.receiver ∧
    σ.start a < τ.start b + b.classId.width wordSize ∧ τ.start b < σ.start a + a.classId.width wordSize

variable {wordSize : ℕ} {defs : Definitions D} {a b : Access D} {Obj : Type}

section Touch

lemma width_typed (h : a.isTyped = true) : a.classId.width wordSize = a.classId.elementSizeFor.multiplier := by
  obtain ⟨receiver, index, scale, classId, hsca⟩ := a
  cases classId <;> first | rfl | simp [Access.isTyped, ClassId.elementSizeFor] at h

lemma selector_constant (h : a.selector defs = .constantIndexed size offset) :
    ∃ value, defs.smiConstant a.index = some value ∧ 0 ≤ value ∧ size = a.classId.elementSizeFor ∧
    (a.isTyped = false → offset = value.toNat) ∧ (a.isTyped = true → offset = value.toNat * a.scale ∧
    defs.isUntagged a.receiver = false ∧ offset % size.multiplier = 0) := by
  rw [Access.selector] at h
  cases hcon : defs.smiConstant a.index with
  | none =>
    rw [hcon] at h
    cases h
  | some value =>
    rw [hcon] at h
    cases htyp : a.isTyped with
    | false =>
      simp only [htyp, Bool.false_eq_true, if_false, Nat.mul_one] at h
      split_ifs at h with hbou
      obtain ⟨rfl, rfl⟩ := Selector.constantIndexed.inj h
      exact ⟨value, rfl, hbou.1, rfl, fun _ => rfl, nofun⟩
    | true =>
      simp only [htyp, if_true, Bool.not_true, Bool.false_or, Bool.and_eq_true, Bool.not_eq_true',
        decide_eq_true_eq] at h
      split_ifs at h with hbou hplace
      obtain ⟨rfl, rfl⟩ := Selector.constantIndexed.inj h
      exact ⟨value, rfl, hbou.1, rfl, nofun, fun _ => ⟨rfl, hplace⟩⟩

lemma overlap_same {m i j : ℕ} (hij : i * m < j * m + m) (hji : j * m < i * m + m) : i = j := by
  have h1 : i < j + 1 := Nat.lt_of_mul_lt_mul_right (by rw [Nat.succ_mul]; exact hij)
  have h2 : j < i + 1 := Nat.lt_of_mul_lt_mul_right (by rw [Nat.succ_mul]; exact hji)
  omega

lemma roundByteOffset_eq (size : ElementSize) (offset : ℕ) :
    roundByteOffset size offset = offset - offset % size.multiplier := by
  rw [roundByteOffset, multiplier, and_two_pow_sub_one_eq_mod]

lemma covers_of_overlap (hsize : size ≠ .noSize) (hlt : size.rank < size'.rank) (halig : offset % size.multiplier = 0)
    (halig' : offset' % size'.multiplier = 0) (hover : offset < offset' + size'.multiplier)
    (hover' : offset' < offset + size.multiplier) : Covers size offset size' offset' := by
  have hrank : 1 ≤ size.rank := by
    cases size with
    | noSize => exact absurd rfl hsize
    | _ => simp [rank]
  have hone : int8.rank = 1 := rfl
  have hpow : size'.multiplier = 2 ^ (size'.rank - size.rank) * size.multiplier := by
    rw [multiplier, multiplier, ← pow_add]
    congr 1
    omega
  obtain ⟨i, hi⟩ := Nat.dvd_of_mod_eq_zero halig
  obtain ⟨j, hj⟩ := Nat.dvd_of_mod_eq_zero halig'
  -- The larger element holds the elements from `k * j` on.
  have hlow : 2 ^ (size'.rank - size.rank) * j ≤ i := by
    by_contra hnot
    have hle : i + 1 ≤ 2 ^ (size'.rank - size.rank) * j := by omega
    have := Nat.mul_le_mul_left size.multiplier hle
    rw [hj, hpow] at hover'
    have hcomm : 2 ^ (size'.rank - size.rank) * size.multiplier * j =
      size.multiplier * (2 ^ (size'.rank - size.rank) * j) := by ring
    rw [Nat.mul_add] at this
    omega
  have hhigh : i < 2 ^ (size'.rank - size.rank) * (j + 1) := by
    apply Nat.lt_of_mul_lt_mul_left (a := size.multiplier)
    rw [hj, hpow] at hover
    have hcomm : size.multiplier * (2 ^ (size'.rank - size.rank) * (j + 1)) =
      2 ^ (size'.rank - size.rank) * size.multiplier * j + 2 ^ (size'.rank - size.rank) * size.multiplier := by ring
    omega
  have hoff : offset = offset' + (i - 2 ^ (size'.rank - size.rank) * j) * size.multiplier := by
    rw [hj, hpow, Nat.sub_mul]
    have hle := Nat.mul_le_mul_left size.multiplier hlow
    have hcomm : 2 ^ (size'.rank - size.rank) * j * size.multiplier =
      size.multiplier * (2 ^ (size'.rank - size.rank) * j) := by ring
    have hcomm' : 2 ^ (size'.rank - size.rank) * size.multiplier * j =
      size.multiplier * (2 ^ (size'.rank - size.rank) * j) := by ring
    have hcomm'' : i * size.multiplier = size.multiplier * i := mul_comm _ _
    omega
  refine ⟨hsize, hlt, ?_, i - 2 ^ (size'.rank - size.rank) * j, ?_, hoff⟩
  · have hmod : offset % size'.multiplier = offset - offset' := by
      have hspl : offset = offset - offset' + size'.multiplier * j := by omega
      rw [hspl, add_mul_mod_self_left, mod_eq_of_lt (by omega)]
      omega
    rw [roundByteOffset_eq]
    omega
  · rw [mul_succ] at hhigh
    omega

lemma receiversMeet_of_separate {σ τ : State D Obj} (h : Separate defs σ τ)
    (hobj : σ.object a.receiver = τ.object b.receiver) :
    ReceiversMeet defs ((a.place defs wordSize).toAlias defs).receiver ((b.place defs wordSize).toAlias defs).receiver := by
  have hrece : ∀ c : Access D, ((c.place defs wordSize).toAlias defs).receiver =
      if defs.isAllocation c.receiver = true then some c.receiver else none := by
    intro c
    rw [toAlias, Access.place]
    rw [filter_some]
  rw [hrece, hrece]
  by_cases heq : a.receiver = b.receiver
  · rw [heq]
    exact .same _
  · obtain ⟨hboth, ha, hb⟩ := h _ _ heq hobj
    split_ifs with halloc hbal hbal
    · exact absurd ⟨halloc, hbal⟩ hboth
    · refine .left ?_
      have : defs.isNotAliased a.receiver = false := by
        by_contra hne
        exact ha ⟨halloc, by simpa using hne⟩
      simp [canBeAliased, this]
    · refine .right ?_
      have : defs.isNotAliased b.receiver = false := by
        by_contra hne
        exact hb ⟨hbal, by simpa using hne⟩
      simp [canBeAliased, this]
    · exact .same _

lemma start_constant {layout : Obj → Layout} {σ : State D Obj} (hval : σ.Valid defs)
    (hlegal : Legal wordSize defs layout σ a) {offset : ℕ}
    (h : a.selector defs = .constantIndexed size offset) : (a.isTyped = true → σ.start a = offset) ∧
    (a.isTyped = false → σ.start a = offset * a.classId.width wordSize) := by
  obtain ⟨value, hvalue, -, -, hunty, htyp⟩ := selector_constant h
  have hind := hval _ _ hvalue
  constructor
  · intro ht
    obtain ⟨hoff, hunt, -⟩ := htyp ht
    rw [State.start, hind, (hlegal.typed ht).2 hunt, zero_add, hoff]
  · intro ht
    obtain ⟨-, hbase, hsca⟩ := hlegal.untyped ht
    rw [State.start, hind, hbase, zero_add, hunty ht, hsca]

lemma isTyped_eq {layout : Obj → Layout} {σ τ : State D Obj}
    (ha : Legal wordSize defs layout σ a) (hb : Legal wordSize defs layout τ b)
    (hobj : σ.object a.receiver = τ.object b.receiver) :
    a.isTyped = b.isTyped ∧ (a.isTyped = false → a.classId.width wordSize = b.classId.width wordSize) := by
  cases hat : a.isTyped with
  | true =>
    cases hbt : b.isTyped with
    | true => exact ⟨rfl, nofun⟩
    | false =>
      have := (ha.typed hat).1
      rw [hobj, (hb.untyped hbt).1] at this
      cases this
  | false =>
    have hlay := (ha.untyped hat).1
    cases hbt : b.isTyped with
    | true =>
      rw [hobj, (hb.typed hbt).1] at hlay
      cases hlay
    | false =>
      rw [hobj, (hb.untyped hbt).1] at hlay
      exact ⟨rfl, fun _ => (Layout.elements.inj hlay).symm⟩

lemma elementSizeFor_of_isTyped (h : a.isTyped = true) : a.classId.elementSizeFor ≠ .noSize := by
  simpa [Access.isTyped] using h

lemma elementSizeFor_of_not_isTyped (h : a.isTyped = false) : a.classId.elementSizeFor = .noSize := by
  simpa [Access.isTyped] using h

lemma multiplier_injective (hsize : size ≠ .noSize) (hsize' : size' ≠ .noSize)
    (h : size.rank = size'.rank) : size = size' := by
  cases size <;> cases size' <;> first | rfl | simp [rank] at h

lemma elementsMeet_of_overlap {layout : Obj → Layout} {σ τ : State D Obj}
    (hσ : σ.Valid defs) (hτ : τ.Valid defs) (ha : Legal wordSize defs layout σ a)
    (hb : Legal wordSize defs layout τ b) (hobj : σ.object a.receiver = τ.object b.receiver)
    (hab : σ.start a < τ.start b + b.classId.width wordSize)
    (hba : τ.start b < σ.start a + a.classId.width wordSize)
    (hsele : a.selector defs = .constantIndexed size offset)
    (hsele' : b.selector defs = .constantIndexed size' offset') : ElementsMeet size offset size' offset' := by
  obtain ⟨htyp, hwid⟩ := isTyped_eq ha hb hobj
  obtain ⟨hsta, hsta'⟩ := start_constant hσ ha hsele
  obtain ⟨hbst, hbst'⟩ := start_constant hτ hb hsele'
  obtain ⟨value, -, -, hsize, -, halig⟩ := selector_constant hsele
  obtain ⟨value', -, -, hsize', -, halig'⟩ := selector_constant hsele'
  cases hat : a.isTyped with
  | false =>
    have hbt : b.isTyped = false := htyp.symm.trans hat
    rw [hsta' hat, hbst' hbt, hwid hat] at hab hba
    obtain rfl := overlap_same hab hba
    rw [hsize, hsize', elementSizeFor_of_not_isTyped hat, elementSizeFor_of_not_isTyped hbt]
    exact .same _ _
  | true =>
    have hbt : b.isTyped = true := htyp.symm.trans hat
    rw [hsta hat, hbst hbt, width_typed hbt, ← hsize'] at hab
    rw [hsta hat, hbst hbt, width_typed hat, ← hsize] at hba
    have hne : size ≠ .noSize := hsize ▸ elementSizeFor_of_isTyped hat
    have hne' : size' ≠ .noSize := hsize' ▸ elementSizeFor_of_isTyped hbt
    rcases lt_trichotomy size.rank size'.rank with hlt | heq | hgt
    · exact .larger (covers_of_overlap hne hlt (halig hat).2.2 (halig' hbt).2.2 hab hba)
    · obtain rfl := multiplier_injective hne hne' heq
      obtain ⟨i, rfl⟩ := Nat.dvd_of_mod_eq_zero (halig hat).2.2
      obtain ⟨j, rfl⟩ := Nat.dvd_of_mod_eq_zero (halig' hbt).2.2
      rw [mul_comm _ i, mul_comm _ j] at hab hba
      obtain rfl := overlap_same hab hba
      exact .same _ _
    · exact .smaller (covers_of_overlap hne' hgt (halig' hbt).2.2 (halig hat).2.2 hba hab)

lemma killed_of_canTouch [DecidableEq D] {places : List (Place D)} (ha : a.place defs wordSize ∈ places)
    (hb : b.place defs wordSize ∈ places) (h : CanTouch wordSize defs a b) :
    b.place defs wordSize ∈ killed defs places ((a.place defs wordSize).toAlias defs) := by
  obtain ⟨Obj, layout, σ, τ, hσ, hτ, hsep, hlegal, hlegal', hobj, hab, hba⟩ := h
  apply killed_of_meet ha hb (receiversMeet_of_separate hsep hobj)
  have hsele : ∀ c : Access D, ((c.place defs wordSize).toAlias defs).selector =
    if (c.selector defs).isConstantIndexed then c.selector defs else .indexed none := fun c => rfl
  rw [hsele, hsele]
  cases hsel : a.selector defs with
  | indexed index => exact .left _
  | constantIndexed size offset =>
    cases hsel' : b.selector defs with
    | indexed index => exact .right _
    | constantIndexed size' offset' =>
      exact .constant (elementsMeet_of_overlap hσ hτ hlegal hlegal' hobj hab hba hsel hsel')

end Touch

section Equal

/-- The two typed data accesses with one place read alike: their elements have the same size and sign,
and without a constant place their indices the same scale, unless the index is the constant zero.
There is no access with a negative index. -/
def ReadAlike (defs : Definitions D) (a b : Access D) : Prop :=
  (∃ value, defs.smiConstant a.index = some value ∧ value < 0) ∨
    a.classId.elementSizeFor = b.classId.elementSizeFor ∧ a.classId.isSigned = b.classId.isSigned ∧
      ((a.selector defs).isConstantIndexed = true ∨ a.scale = b.scale ∨ defs.smiConstant a.index = some 0)

lemma selector_indexed {index : Option D} (h : a.selector defs = .indexed index) : index = some a.index := by
  rw [Access.selector] at h
  cases hcon : defs.smiConstant a.index with
  | none =>
    rw [hcon] at h
    cases h
    rfl
  | some value =>
    rw [hcon] at h
    dsimp only at h
    split_ifs at h <;> cases h <;> rfl

lemma isSigned_of_not_isTyped (h : a.isTyped = false) : a.classId.isSigned = false := by
  have hsize := elementSizeFor_of_not_isTyped h
  revert hsize
  cases a.classId <;> intro hsize <;> first | rfl | cases hsize

lemma sameRead_of_start {σ : State D Obj} (hplace : a.place defs wordSize = b.place defs wordSize)
    (hsta : σ.start a = σ.start b) (hwid : a.classId.width wordSize = b.classId.width wordSize)
    (hsigned : a.classId.isSigned = b.classId.isSigned) : SameRead wordSize σ a b := by
  have hrece : a.receiver = b.receiver := Option.some.inj (congrArg receiver hplace)
  have hrep : a.classId.representationOfArrayElement wordSize = b.classId.representationOfArrayElement wordSize :=
    congrArg representation hplace
  refine ⟨by rw [hrece], hsta, hwid, ?_⟩
  rw [State.load, State.load, hrep, hsigned, hwid, hsta, hrece]

lemma sameRead_of_alike (hplace : a.place defs wordSize = b.place defs wordSize)
    (halike : a.isTyped = true → b.isTyped = true → ReadAlike defs a b) {layout : Obj → Layout}
    {σ : State D Obj} (hσ : σ.Valid defs) (ha : Legal wordSize defs layout σ a)
    (hb : Legal wordSize defs layout σ b) : SameRead wordSize σ a b := by
  have hrece : a.receiver = b.receiver := Option.some.inj (congrArg receiver hplace)
  have hsele : a.selector defs = b.selector defs := congrArg selector hplace
  have hobj : σ.object a.receiver = σ.object b.receiver := by rw [hrece]
  obtain ⟨htyp, hwid⟩ := isTyped_eq ha hb hobj
  cases hat : a.isTyped with
  | false =>
    have hbt : b.isTyped = false := htyp.symm.trans hat
    refine sameRead_of_start hplace ?_ (hwid hat) (by rw [isSigned_of_not_isTyped hat, isSigned_of_not_isTyped hbt])
    obtain ⟨-, hbase, hsca⟩ := ha.untyped hat
    obtain ⟨-, hbase', hsca'⟩ := hb.untyped hbt
    cases hsel : a.selector defs with
    | indexed index =>
      have hind := (selector_indexed hsel).symm.trans (selector_indexed (hsele ▸ hsel))
      rw [State.start, State.start, hbase, hbase', hsca, hsca', hwid hat, Option.some.inj hind]
    | constantIndexed size offset =>
      rw [(start_constant hσ ha hsel).2 hat, (start_constant hσ hb (hsele ▸ hsel)).2 hbt, hwid hat]
  | true =>
    have hbt : b.isTyped = true := htyp.symm.trans hat
    rcases halike hat hbt with ⟨value, hvalue, hneg⟩ | ⟨hsize, hsigned, hsca⟩
    · have hnon := ha.nonneg
      rw [hσ _ _ hvalue] at hnon
      omega
    · refine sameRead_of_start hplace ?_ (by rw [width_typed hat, width_typed hbt, hsize]) hsigned
      cases hsel : a.selector defs with
      | constantIndexed size offset =>
        rw [(start_constant hσ ha hsel).1 hat, (start_constant hσ hb (hsele ▸ hsel)).1 hbt]
      | indexed index =>
        have hind := Option.some.inj ((selector_indexed hsel).symm.trans (selector_indexed (hsele ▸ hsel)))
        rw [hsel] at hsca
        rw [State.start, State.start, hrece, ← hind]
        rcases hsca with hsca | hsca | hzero
        · cases hsca
        · rw [hsca]
        · rw [hσ _ _ hzero]
          simp

lemma littleEndian_replicate (n : ℕ) : littleEndian (replicate n 255) + 1 = 256 ^ n := by
  induction n with
  | zero => rfl
  | succ n ih =>
    rw [replicate_succ, littleEndian, pow_succ]
    omega

lemma rank_of_multiplier (hsize : size ≠ .noSize) (hsize' : size' ≠ .noSize)
    (h : size.multiplier = size'.multiplier) : size = size' := by
  cases size <;> cases size' <;> first | rfl | exact absurd rfl hsize | exact absurd rfl hsize' | cases h

lemma integer_of_isSigned {c : ClassId} (h : c.isSigned = true) :
    c.representationOfArrayElement wordSize ∈ [Representation.unboxedInt32, .unboxedUint32, .unboxedInt64] := by
  by_cases hword : wordSize = 4 <;> cases c <;>
    simp_all [ClassId.isSigned, ClassId.representationOfArrayElement, Representation.unboxedIntPtr]

lemma isSigned_of_loadValue {r : Representation} {signed signed' : Bool} {n : ℕ} (hn : 0 < n)
    (hr : r ∈ [Representation.unboxedInt32, .unboxedUint32, .unboxedInt64])
    (h : loadValue r signed (replicate n 255) = loadValue r signed' (replicate n 255)) :
    signed = signed' := by
  have hall := littleEndian_replicate n
  have hpow : 256 ≤ 256 ^ n := le_self_pow hn.ne' 256
  have hle : 256 ^ n ≤ 2 * littleEndian (replicate n 255) := by omega
  have hload : ∀ signed, loadValue r signed (replicate n 255) =
      if signed then .int (littleEndian (replicate n 255) - 256 ^ n)
      else .int (littleEndian (replicate n 255)) := by
    intro signed
    rw [loadValue, if_pos hr]
    cases signed <;> simp [hle]
  have hpos : (0 : ℤ) < 256 ^ n := Int.pow_pos (by decide)
  rw [hload, hload] at h
  cases signed <;> cases signed' <;>
    simp only [if_true, Bool.false_eq_true, if_false, Value.int.injEq] at h
  · rfl
  · omega
  · omega
  · rfl

def fullState (defs : Definitions D) : State D D where
  object d := d
  base _ := 0
  index d := (defs.smiConstant d).getD 1
  bytes _ _ := 255

lemma fullState_valid : (fullState defs).Valid defs := by
  intro d value h
  show (defs.smiConstant d).getD 1 = value
  rw [h]
  rfl

lemma fullState_legal (htyp : a.isTyped = true) (hnon : 0 ≤ (fullState defs).index a.index) :
    Legal wordSize defs (fun _ : D => .typedData) (fullState defs) a :=
  ⟨hnon, fun _ => ⟨rfl, fun _ => rfl⟩, fun h => by rw [htyp] at h; cases h⟩

lemma isSigned_of_sameRead (hat : a.isTyped = true)
    (hrep : a.classId.representationOfArrayElement wordSize = b.classId.representationOfArrayElement wordSize)
    (hread : SameRead wordSize (fullState defs) a b) : a.classId.isSigned = b.classId.isSigned := by
  -- Without a signed class there is nothing to show.
  by_cases hsigned : a.classId.isSigned = true ∨ b.classId.isSigned = true
  · have hint : a.classId.representationOfArrayElement wordSize ∈
        [Representation.unboxedInt32, .unboxedUint32, .unboxedInt64] := by
      rcases hsigned with hsigned | hsigned
      · exact integer_of_isSigned hsigned
      · rw [hrep]
        exact integer_of_isSigned hsigned
    have hvalue := hread.value
    have hbyt : ∀ c : Access D, (range (c.classId.width wordSize)).map (fun k =>
        (fullState defs).bytes ((fullState defs).object c.receiver) ((fullState defs).start c + k)) =
          replicate (c.classId.width wordSize) 255 := by
      intro c
      rw [← length_range (n := c.classId.width wordSize), ← map_const, length_range]
      rfl
    rw [State.load, State.load, hbyt, hbyt, ← hrep, ← hread.width] at hvalue
    refine isSigned_of_loadValue ?_ hint hvalue
    rw [width_typed hat]
    exact Nat.two_pow_pos _
  · rw [not_or, Bool.not_eq_true, Bool.not_eq_true] at hsigned
    rw [hsigned.1, hsigned.2]

lemma scale_of_sameRead (hindex : a.index = b.index) (hnon : 0 ≤ (fullState defs).index a.index)
    (hread : SameRead wordSize (fullState defs) a b) : a.scale = b.scale ∨ defs.smiConstant a.index = some 0 := by
  have hsta := hread.start
  rw [State.start, State.start, ← hindex] at hsta
  have hmul : ((fullState defs).index a.index).toNat * a.scale = ((fullState defs).index a.index).toNat * b.scale := by
    rwa [show (fullState defs).base a.receiver = 0 from rfl, show (fullState defs).base b.receiver = 0 from rfl,
      zero_add, zero_add] at hsta
  rcases eq_or_lt_of_le (zero_le ((fullState defs).index a.index).toNat) with hzero | hpos
  · right
    cases hcon : defs.smiConstant a.index with
    | none =>
      rw [fullState] at hzero
      dsimp only at hzero
      rw [hcon] at hzero
      cases hzero
    | some value =>
      rw [fullState_valid _ _ hcon] at hzero hnon
      rw [show value = 0 by omega]
  · exact .inl (Nat.eq_of_mul_eq_mul_left hpos hmul)

lemma alike_of_sameRead (hplace : a.place defs wordSize = b.place defs wordSize) (hat : a.isTyped = true)
    (hbt : b.isTyped = true)
    (h : ∀ (Obj : Type) (layout : Obj → Layout) (σ : State D Obj), σ.Valid defs → Legal wordSize defs layout σ a →
    Legal wordSize defs layout σ b → SameRead wordSize σ a b) : ReadAlike defs a b := by
  have hsele : a.selector defs = b.selector defs := congrArg selector hplace
  have hindex {index : Option D} (hsel : a.selector defs = .indexed index) : a.index = b.index :=
    Option.some.inj ((selector_indexed hsel).symm.trans (selector_indexed (hsele ▸ hsel)))
  by_cases hneg : ∃ value, defs.smiConstant a.index = some value ∧ value < 0
  · exact .inl hneg
  · have hnon : 0 ≤ (fullState defs).index a.index := by
      rw [fullState]
      dsimp only
      cases hcon : defs.smiConstant a.index with
      | none => decide
      | some value => exact not_lt.1 fun hlt => hneg ⟨value, hcon, hlt⟩
    have hnon' : 0 ≤ (fullState defs).index b.index := by
      cases hsel : a.selector defs with
      | indexed index => rwa [← hindex hsel]
      | constantIndexed size offset =>
        obtain ⟨value, hvalue, hle, -⟩ := selector_constant (hsele ▸ hsel)
        rwa [fullState_valid _ _ hvalue]
    have hread := h D (fun _ => .typedData) (fullState defs) fullState_valid (fullState_legal hat hnon)
      (fullState_legal hbt hnon')
    have hsize : a.classId.elementSizeFor = b.classId.elementSizeFor := by
      have hwid := hread.width
      rw [width_typed hat, width_typed hbt] at hwid
      exact rank_of_multiplier (elementSizeFor_of_isTyped hat) (elementSizeFor_of_isTyped hbt) hwid
    refine .inr ⟨hsize, isSigned_of_sameRead hat (congrArg representation hplace) hread, ?_⟩
    cases hsel : a.selector defs with
    | constantIndexed size offset => exact .inl rfl
    | indexed index => exact .inr (scale_of_sameRead (hindex hsel) hnon hread)

end Equal

def PlacesSound [DecidableEq D] (wordSize : ℕ) (defs : Definitions D) (places : List (Place D)) (a b : Access D) : Prop :=
  (a.place defs wordSize = b.place defs wordSize → ∀ (Obj : Type) (layout : Obj → Layout) (σ : State D Obj), σ.Valid defs →
    Legal wordSize defs layout σ a → Legal wordSize defs layout σ b → SameRead wordSize σ a b) ∧
  (a.place defs wordSize ≠ b.place defs wordSize → CanTouch wordSize defs a b →
    b.place defs wordSize ∈ killed defs places ((a.place defs wordSize).toAlias defs))

theorem placesSound_iff [DecidableEq D] {wordSize : ℕ} {defs : Definitions D} {places : List (Place D)}
    {a b : Access D} (ha : a.place defs wordSize ∈ places) (hb : b.place defs wordSize ∈ places) :
    PlacesSound wordSize defs places a b ↔
      (a.place defs wordSize = b.place defs wordSize → a.isTyped = true → b.isTyped = true → ReadAlike defs a b) := by
  constructor
  · rintro ⟨hequal, -⟩ hplace hat hbt
    exact alike_of_sameRead hplace hat hbt (hequal hplace)
  · intro halike
    exact ⟨fun hplace Obj layout σ hσ hlegal hlegal' => sameRead_of_alike hplace (halike hplace) hσ hlegal hlegal',
      fun _ => killed_of_canTouch ha hb⟩

def byteDefinitions : Definitions ℕ where
  smiConstant d := if d = 1 then some 3 else none
  isAllocation _ := false
  isUntagged _ := false
  isNotAliased _ := false

def byteAccess (classId : ClassId) : Access ℕ := ⟨0, 1, 1, classId, one_pos⟩

theorem placesSound_iff_bytes : PlacesSound 8 byteDefinitions
    [(byteAccess .typedDataUint8Array).place byteDefinitions 8] (byteAccess .typedDataUint8Array)
    (byteAccess .typedDataUint8ClampedArray) := by
  apply (placesSound_iff (mem_singleton.2 rfl) (mem_singleton.2 (by decide))).2
  exact fun _ _ _ => .inr ⟨rfl, rfl, .inl (by decide)⟩

theorem placesSound_signed : ¬PlacesSound 8 byteDefinitions
    [(byteAccess .typedDataInt8Array).place byteDefinitions 8] (byteAccess .typedDataInt8Array)
    (byteAccess .typedDataUint8Array) := by
  rintro ⟨hequal, -⟩
  have halike := alike_of_sameRead (by decide) (by decide) (by decide) (hequal (by decide))
  rcases halike with ⟨value, hvalue, hneg⟩ | ⟨-, hsigned, -⟩
  · obtain rfl : 3 = value := by simpa [byteDefinitions, byteAccess] using hvalue
    exact absurd hneg (by decide)
  · exact absurd hsigned (by decide)

end DartSdk.LoadOptimizer.Indexed
