import DartSdk.Heap.Compactor
import Mathlib.Data.List.TakeWhile

namespace DartSdk.Heap.Compactor
open List Nat Page Region Cursor Prod
variable {l : Layout} {α : Type}
variable {os : List Obj} {xs : List (ℕ × ℕ)} {o : Obj}
variable {tiles : List (List (ℕ × ℕ))}

section

def Tiles : ℕ → List (ℕ × ℕ) → ℕ → Prop
  | a, [], b => a = b
  | a, (addr, size) :: rest, b => addr = a ∧ 0 < size ∧ Tiles (a + size) rest b

variable {a b : ℕ}

lemma tiles_append (xs ys : List (ℕ × ℕ)) : Tiles a (xs ++ ys) b ↔ ∃ m, Tiles a xs m ∧ Tiles m ys b := by
  induction xs generalizing a with
  | nil => simp [Tiles]
  | cons x xs ih => simp [Tiles, ih, and_assoc]

lemma Tiles.le (h : Tiles a xs b) : a ≤ b := by
  induction xs generalizing a with
  | nil => exact le_of_eq h
  | cons x xs ih =>
    have hle := ih h.2.2
    omega

lemma Tiles.mem (h : Tiles a xs b) {x : ℕ × ℕ} (hx : x ∈ xs) : a ≤ x.1 ∧ x.1 + x.2 ≤ b ∧ 0 < x.2 := by
  induction xs generalizing a with
  | nil => cases hx
  | cons y xs ih =>
    obtain ⟨hy, hpos, hrest⟩ := h
    have hle := hrest.le
    rcases mem_cons.1 hx with rfl | hx
    · omega
    · have hmem := ih hrest hx
      omega

def Tiled (a : ℕ) (os : List Obj) (b : ℕ) : Prop := Tiles a (os.map fun o => (o.addr, o.size)) b

lemma tiled_append (xs ys : List Obj) : Tiled a (xs ++ ys) b ↔ ∃ m, Tiled a xs m ∧ Tiled m ys b := by
  rw [Tiled, map_append, tiles_append]
  rfl

lemma Tiled.mem (h : Tiled a os b) (ho : o ∈ os) : a ≤ o.addr ∧ o.addr + o.size ≤ b ∧ 0 < o.size :=
  Tiles.mem h (mem_map_of_mem ho)

lemma tiled_place {os : List (ℕ × Bool)} (h : ∀ o ∈ os, 0 < o.1) : Tiled a (place a os) (a + (os.map fst).sum) := by
  induction os generalizing a with
  | nil => rfl
  | cons o os ih =>
    have hrest := ih (a := a + o.1) fun x hx => h x (mem_cons_of_mem _ hx)
    rw [map_cons, sum_cons, ← add_assoc]
    exact ⟨rfl, h o mem_cons_self, hrest⟩

lemma Page.tiled (p : Page l) : Tiled p.objectStart p.objs p.objectEnd := by
  have h := tiled_place (a := p.objectStart) p.pos
  have hend : p.objectStart + (p.objects.map fst).sum = p.objectEnd := by
    rw [objectStart, objectEnd, add_assoc, p.filled]
  rwa [hend] at h

lemma Page.div_eq (p : Page l) (h : p.objectStart ≤ a) (h' : a ≤ p.objectEnd) :
    a / (l.blocksPerPage * l.kBitsPerWord) = p.number := by
  have hend := l.forwardingPage
  rw [objectStart] at h
  rw [objectEnd] at h'
  rw [Nat.div_eq_iff (by omega)]
  omega

lemma liveSize_cons (o : Obj) (os : List Obj) :
    liveSize (o :: os) = (if o.marked then o.size else 0) + liveSize os := by
  rw [liveSize, liveSize, filter_cons]
  split_ifs <;> simp

lemma Tiled.liveSize_le (h : Tiled a os b) : a + liveSize os ≤ b := by
  induction os generalizing a with
  | nil => exact (show a = b from h).le
  | cons o os ih =>
    have hrest := ih h.2.2
    rw [liveSize_cons]
    split_ifs <;> omega

end

section

lemma flatMap_blocks (kBitsPerWord : ℕ) (os : List Obj) : (blocks kBitsPerWord os).flatMap snd = os := by
  fun_induction blocks kBitsPerWord os with
  | case1 => rfl
  | case2 o os ih => rw [flatMap_cons, ih, cons_append, takeWhile_append_dropWhile]

/-- The place of an address in its block: the form in which `omega` sees it. -/
lemma addr_eq (l : Layout) {x k : ℕ} (h : x / l.kBitsPerWord = k) :
    x = k * l.kBitsPerWord + x % l.kBitsPerWord ∧ x % l.kBitsPerWord < l.kBitsPerWord :=
  ⟨by rw [← h, Nat.div_add_mod'], mod_lt _ l.word⟩

variable {a b : ℕ}

lemma takeWhile_block (h : Tiled a os b) (k : ℕ) :
    ∀ x ∈ os.takeWhile (fun x => x.addr < k), a ≤ x.addr ∧ x.addr < k := by
  intro x hx
  exact ⟨(h.mem (takeWhile_subset _ hx)).1, by simpa using mem_takeWhile_imp hx⟩

variable {block : ℕ × List Obj}

lemma blocks_number (h : Tiled a os b) (hb : block ∈ blocks l.kBitsPerWord os) :
    a / l.kBitsPerWord ≤ block.1 ∧ ∀ o ∈ block.2, o.addr / l.kBitsPerWord = block.1 := by
  fun_induction blocks l.kBitsPerWord os generalizing a with
  | case1 => cases hb
  | case2 o os ih =>
    obtain ⟨rfl, hpos, hrest⟩ := h
    rcases mem_cons.1 hb with rfl | hb
    · refine ⟨le_rfl, fun x hx => ?_⟩
      rcases mem_cons.1 hx with rfl | hx
      · rfl
      · have hx := takeWhile_block hrest _ x hx
        refine le_antisymm (Nat.lt_succ_iff.1 ((Nat.div_lt_iff_lt_mul l.word).2 ?_)) (Nat.div_le_div_right (by omega))
        rw [Nat.succ_mul]
        exact hx.2
    · have hspl := takeWhile_append_dropWhile (p := fun x : Obj => x.addr < blockEnd l.kBitsPerWord o.addr) (l := os)
      rw [← hspl, map_append, tiles_append] at hrest
      obtain ⟨m, hm, hrest⟩ := hrest
      obtain ⟨hle, hnum⟩ := ih hrest hb
      have hmle := hm.le
      exact ⟨le_trans (Nat.div_le_div_right (by omega)) hle, hnum⟩

lemma blocks_pairwise (h : Tiled a os b) : (blocks l.kBitsPerWord os).Pairwise fun x y => x.1 < y.1 := by
  fun_induction blocks l.kBitsPerWord os generalizing a with
  | case1 => exact List.Pairwise.nil
  | case2 o os ih =>
    obtain ⟨rfl, hpos, hrest⟩ := h
    have hspl := takeWhile_append_dropWhile (p := fun x : Obj => x.addr < blockEnd l.kBitsPerWord o.addr) (l := os)
    rw [← hspl, map_append, tiles_append] at hrest
    obtain ⟨m, -, hrest⟩ := hrest
    refine pairwise_cons.2 ⟨fun y hy => ?_, ih hrest⟩
    have hle := (blocks_number hrest hy).1
    cases hdrop : os.dropWhile (fun x : Obj => x.addr < blockEnd l.kBitsPerWord o.addr) with
    | nil =>
      rw [hdrop, blocks] at hy
      cases hy
    | cons x xs =>
      have hx := head_dropWhile_not (fun x : Obj => decide (x.addr < blockEnd l.kBitsPerWord o.addr)) (l := os)
        (by simp [hdrop])
      rw [hdrop] at hrest
      simp only [hdrop, head_cons, decide_eq_false_iff_not] at hx
      have hm : x.addr = m := hrest.1
      refine lt_of_lt_of_le ((Nat.le_div_iff_mul_le l.word).2 ?_) hle
      rw [Nat.succ_mul, ← hm]
      exact not_lt.1 hx

lemma blocks_ne_nil (h : block ∈ blocks l.kBitsPerWord os) : block.2 ≠ [] := by
  fun_induction blocks l.kBitsPerWord os with
  | case1 => cases h
  | case2 o os ih =>
    rcases mem_cons.1 h with rfl | h
    · exact cons_ne_nil _ _
    · exact ih h

lemma Page.block_div (p : Page l) (h : block ∈ blocks l.kBitsPerWord p.objs) :
    block.1 / l.blocksPerPage = p.number := by
  obtain ⟨o, ho⟩ := exists_mem_of_ne_nil _ (blocks_ne_nil h)
  have hmem : o ∈ p.objs := by
    rw [← flatMap_blocks l.kBitsPerWord p.objs]
    exact mem_flatMap.2 ⟨block, h, ho⟩
  have hin := p.tiled.mem hmem
  rw [← (blocks_number p.tiled h).2 o ho, Nat.div_div_eq_div_mul, Nat.mul_comm, p.div_eq hin.1 (by omega)]

lemma blocks_distinct {pages : List (Page l)} (h : (pages.map number).Nodup) :
    (pages.flatMap fun p => blocks l.kBitsPerWord p.objs).Pairwise fun x y => x.1 ≠ y.1 := by
  refine pairwise_flatMap.2 ⟨fun p _ => (blocks_pairwise p.tiled).imp ne_of_lt, ?_⟩
  refine (pairwise_map.1 h).imp fun {p q} hpq x hx y hy hxy => hpq ?_
  rw [← p.block_div hx, ← q.block_div hy, hxy]

end

variable {b : ForwardingBlock}

section
variable {n k a e : ℕ} {pre post : List Obj}

lemma count_congr {p q : ℕ → Prop} [DecidablePred p] [DecidablePred q] (h : ∀ i < n, p i ↔ q i) :
    Nat.count p n = Nat.count q n := by
  rw [count_eq_card_filter_range, count_eq_card_filter_range]
  exact congrArg Finset.card (Finset.filter_congr fun i hi => h i (Finset.mem_range.1 hi))

lemma countOneBitsWord_mask (x : ℕ) (hn : n ≤ l.kBitsPerWord) :
    countOneBitsWord l.kBitsPerWord (x &&& (2 ^ n - 1)) = Nat.count (fun i => x.testBit i = true) n := by
  obtain ⟨m, hm⟩ := Nat.exists_eq_add_of_le hn
  have hhigh : Nat.count (fun i => (x &&& (2 ^ n - 1)).testBit (n + i) = true) m = 0 :=
    Nat.count_iff_forall_not.2 fun i _ => by simp
  rw [countOneBitsWord, hm, Nat.count_add, hhigh]
  exact count_congr fun i hi => by simp [hi]

lemma testBit_recordLive (b : ForwardingBlock) (addr size i : ℕ) :
    (b.recordLive l.kBitsPerWord addr size).liveBitvector.testBit i = true ↔
      i < l.kBitsPerWord ∧ (b.liveBitvector.testBit i = true ∨ addr % l.kBitsPerWord ≤ i ∧
        i - addr % l.kBitsPerWord < if l.kBitsPerWord ≤ size then l.kBitsPerWord - 1 else size) := by
  simp only [ForwardingBlock.recordLive, testBit_mod_two_pow, testBit_or, testBit_shiftLeft,
    testBit_two_pow_sub_one, Bool.and_eq_true, Bool.or_eq_true, decide_eq_true_eq]

variable (l) in
def RecordedBelow (k a : ℕ) (b : ForwardingBlock) : Prop :=
  ∀ i, b.liveBitvector.testBit i = true → i < l.kBitsPerWord ∧ k * l.kBitsPerWord + i < a

lemma RecordedBelow.step (h : RecordedBelow l k a b) (ha : o.addr = a) (hk : o.addr / l.kBitsPerWord = k) :
    RecordedBelow l k (a + o.size) (if o.marked then b.recordLive l.kBitsPerWord o.addr o.size else b) := by
  intro i hi
  have hat := addr_eq l hk
  split_ifs at hi
  · obtain ⟨hi64, hbit | ⟨hle, hlt⟩⟩ := (testBit_recordLive _ _ _ _).1 hi
    · have hbel := h i hbit
      omega
    · split_ifs at hlt <;> omega
  · have hbel := h i hi
    omega

lemma recordObjects_below (h : Tiled a os e) (hk : ∀ o ∈ os, o.addr / l.kBitsPerWord = k)
    (b : ForwardingBlock) {i : ℕ} (hi : i < l.kBitsPerWord) (hlt : k * l.kBitsPerWord + i < a) :
    (recordObjects l.kBitsPerWord b os).liveBitvector.testBit i = true ↔ b.liveBitvector.testBit i = true := by
  induction os generalizing a b with
  | nil => rfl
  | cons o os ih =>
    obtain ⟨rfl, hpos, hrest⟩ := h
    have ho := addr_eq l (hk o mem_cons_self)
    rw [recordObjects, foldl_cons]
    refine (ih hrest (fun x hx => hk x (mem_cons_of_mem _ hx)) _ (by omega)).trans ?_
    split_ifs
    · rw [testBit_recordLive]
      have hnot : ¬(o.addr % l.kBitsPerWord ≤ i) := by omega
      simp [hi, hnot]
    · rfl

section
variable (h : Tiled a (pre ++ o :: post) e) (hk : ∀ x ∈ pre ++ o :: post, x.addr / l.kBitsPerWord = k)
include h hk

lemma count_recordObjects (hb : RecordedBelow l k a b) (ha : k * l.kBitsPerWord ≤ a) :
    Nat.count (fun i => (recordObjects l.kBitsPerWord b (pre ++ o :: post)).liveBitvector.testBit i = true)
        (o.addr % l.kBitsPerWord) =
      Nat.count (fun i => b.liveBitvector.testBit i = true) (a - k * l.kBitsPerWord) + liveSize pre := by
  induction pre generalizing a b with
  | nil =>
    have ho := addr_eq l (hk o (by simp))
    have haddr : o.addr = a := h.1
    have hmod : o.addr % l.kBitsPerWord = a - k * l.kBitsPerWord := by omega
    rw [hmod]
    exact count_congr fun i hi => recordObjects_below h hk b (by omega) (by omega)
  | cons x pre ih =>
    obtain ⟨rfl, hpos, hrest⟩ := h
    have hx := addr_eq l (hk x (by simp))
    have ho := addr_eq l (hk o (by simp))
    have hin := Tiled.mem hrest (o := o) (by simp)
    -- the object ends in the block, so that all its units are recorded
    have hend : x.addr + x.size < k * l.kBitsPerWord + l.kBitsPerWord := by omega
    refine (ih hrest (fun y hy => hk y (mem_cons_of_mem _ hy)) (hb.step rfl (hk x (by simp))) (by omega)).trans ?_
    have hspl : x.addr + x.size - k * l.kBitsPerWord = (x.addr - k * l.kBitsPerWord) + x.size := by omega
    rw [hspl, Nat.count_add, liveSize_cons, ← add_assoc]
    congr 1
    split_ifs with hmarked
    · have hall : Nat.count (fun i => (b.recordLive l.kBitsPerWord x.addr x.size).liveBitvector.testBit
          (x.addr - k * l.kBitsPerWord + i) = true) x.size = x.size := by
        refine count_iff_forall.2 fun i hi => ?_
        rw [testBit_recordLive, if_neg (by omega)]
        omega
      congr 1
      refine count_congr fun i hi => ?_
      have hi64 : i < l.kBitsPerWord := by omega
      have hnot : ¬x.addr % l.kBitsPerWord ≤ i := by omega
      simp only [testBit_recordLive, hi64, hnot, true_and, false_and, or_false]
    · have hnone : Nat.count (fun i => b.liveBitvector.testBit (x.addr - k * l.kBitsPerWord + i) = true)
          x.size = 0 := by
        refine Nat.count_iff_forall_not.2 fun i _ hbit => ?_
        have hbel := hb _ hbit
        omega
      rw [hnone]

lemma lookup_recordObjects {new : ℕ} (ha : k * l.kBitsPerWord ≤ a) :
    ({ recordObjects l.kBitsPerWord {} (pre ++ o :: post) with newAddress := new } : ForwardingBlock).lookup
        l.kBitsPerWord o.addr = new + liveSize pre := by
  have hb : RecordedBelow l k a {} := fun i hi => by simp at hi
  rw [ForwardingBlock.lookup, countOneBitsWord_mask _ (mod_lt _ l.word).le, count_recordObjects h hk hb ha,
    Nat.count_iff_forall_not.2, zero_add]
  intro i _
  simp

end
end

variable {c : Cursor l} {q : Page l}

section

structure Behind (c : Cursor l) (cur : List (Page l)) (a : ℕ) : Prop where
  pages : ∃ mid, c.free = mid ++ cur ∧ (mid = [] → c.current ≤ a)
  head : ∃ q rest, c.free = q :: rest ∧ q.objectStart ≤ c.current ∧ c.current ≤ q.objectEnd
  distinct : (c.free.map number).Nodup

lemma freeEnd_cons {rest : List (Page l)} (h : c.free = q :: rest) : c.freeEnd = q.objectEnd := by simp [freeEnd, h]

variable {cur : List (Page l)}
variable {a n : ℕ} {p : Page l}

lemma Behind.mono {a' : ℕ} (h : Behind c cur a) (ha : a ≤ a') : Behind c cur a' := by
  obtain ⟨mid, hfree, hle⟩ := h.pages
  exact ⟨⟨mid, hfree, fun hmid => (hle hmid).trans ha⟩, h.head, h.distinct⟩

lemma Behind.leave (h : Behind c (p :: cur) a) (a' : ℕ) : Behind c cur a' := by
  obtain ⟨mid, hfree, -⟩ := h.pages
  exact ⟨⟨mid ++ [p], by simp [hfree], by simp⟩, h.head, h.distinct⟩

lemma Behind.advance (h : Behind c cur a) (hroom : c.current + n ≤ c.freeEnd) : Behind (c.advance n) cur (a + n) := by
  obtain ⟨mid, hfree, hle⟩ := h.pages
  obtain ⟨q, rest, hq, hstart, hend⟩ := h.head
  rw [freeEnd_cons hq] at hroom
  exact ⟨⟨mid, hfree, fun hmid => Nat.add_le_add_right (hle hmid) n⟩,
    ⟨q, rest, hq, Nat.le_add_right_of_le hstart, hroom⟩, h.distinct⟩

def Turns (cur : List (Page l)) (c c₁ : Cursor l) : Prop :=
  c₁.current ≠ c.current ∧ c.nextPage = some c₁ ∧ ∃ mid, c.free = mid ++ cur ∧ mid ≠ []

lemma Behind.move (h : Behind c (p :: cur) a) (hstart : p.objectStart ≤ a) (hend : a + n ≤ p.objectEnd) :
    ∃ c1, c.planMoveToContiguousSize n = some c1 ∧ Behind c1 (p :: cur) a ∧ c1.current + n ≤ c1.freeEnd ∧
    (c1 = c ∨ n ≠ 0 ∧ Turns (p :: cur) c c1) := by
  obtain ⟨mid, hfree, hle⟩ := h.pages
  have hdistinct := h.distinct
  by_cases hroom : c.freeEnd < c.current + n
  · obtain ⟨q, rest, hq, hqst, hqend⟩ := h.head
    cases mid with
    | nil =>
      rw [freeEnd_cons hfree] at hroom
      have hcurr := hle rfl
      omega
    | cons q' mid =>
      obtain ⟨rfl, rfl⟩ : q = q' ∧ rest = mid ++ p :: cur := by simpa [hq] using hfree
      obtain ⟨r, more, hr⟩ := exists_cons_of_ne_nil (l := mid ++ p :: cur) (by simp)
      have hnum : q.number ≠ r.number := by
        rw [hq, hr, map_cons, nodup_cons] at hdistinct
        exact fun heq => hdistinct.1 (heq ▸ mem_cons_self)
      have hlay := l.room
      have hrst : r.objectStart ≤ r.objectEnd := by
        rw [objectStart, objectEnd]
        omega
      have hnext : c.nextPage = some ⟨r :: more, r.objectStart⟩ := by simp [nextPage, hq, hr]
      refine ⟨⟨r :: more, r.objectStart⟩, by rw [planMoveToContiguousSize, if_pos hroom, hnext],
        ⟨⟨mid, hr.symm, fun hmid => ?_⟩, ⟨r, more, rfl, le_rfl, hrst⟩, ?_⟩, ?_,
        .inr ⟨?_, fun heq => ?_, hnext, q :: mid, hfree, by simp⟩⟩
      · subst hmid
        obtain ⟨rfl, -⟩ : r = p ∧ more = cur := by simpa using hr.symm
        exact hstart
      · rw [hq, hr, map_cons, nodup_cons] at hdistinct
        exact hdistinct.2
      · rw [freeEnd_cons rfl]
        rw [objectStart] at hstart ⊢
        rw [objectEnd] at hend ⊢
        dsimp only
        omega
      · rw [freeEnd_cons hq] at hroom
        omega
      · rw [← q.div_eq hqst hqend, ← r.div_eq le_rfl hrst, ← heq] at hnum
        exact hnum rfl
  · exact ⟨c, by rw [planMoveToContiguousSize, if_neg hroom], h, by omega, .inl rfl⟩

end

variable {w : Writes α} {mem : ℕ → α} {p : Page l} {s : Slide l α} {pages cur rest : List (Page l)} {a a' : ℕ}

section Slide

def Page.Has (p : Page l) (x : ℕ) : Prop := p.objectStart ≤ x ∧ x < p.objectEnd

variable {x : ℕ}

lemma Page.number_eq {q : Page l} (hp : p.Has x) (hq : q.Has x) : p.number = q.number := by
  rw [← p.div_eq hp.1 hp.2.le, ← q.div_eq hq.1 hq.2.le]

def Pending : List (Page l) → ℕ → ℕ → Prop
  | [], _, _ => False
  | p :: rest, a, x => (a ≤ x ∧ x < p.objectEnd) ∨ ∃ r ∈ rest, r.Has x

def Filled (pages : List (Page l)) (s : Slide l α) : Prop :=
  ∃ before tiles last q rest, pages = before ++ s.cursor.free ∧ s.cursor.free = q :: rest ∧
    List.Forall₂ (fun p tile => Tiles p.objectStart tile p.objectEnd) before tiles ∧
    Tiles q.objectStart last s.cursor.current ∧ s.regions.map extent = tiles.flatten ++ last

structure Intact (w : Writes α) (mem : ℕ → α) (pages cur : List (Page l)) (a : ℕ) (s : Slide l α) : Prop where
  pending : ∀ x, Pending cur a x → s.mem x = mem x
  moved : ∀ o new, .moved o new ∈ s.regions → ∃ m : ℕ → α, (∀ i < o.size, m (new + i) = mem (o.addr + i)) ∧
    ∀ i < o.size, s.mem (new + i) = w.visit new o.size m (new + i)
  outside : ∀ x, (∀ p ∈ pages, ¬p.Has x) → s.mem x = mem x
  seen : ∀ r ∈ s.seen, ∀ i < r.1.size, r.2 i = mem (r.1.addr + i)

lemma Filled.settled (h : Filled pages s)
    (hdistinct : (pages.map number).Nodup) {r : Region} (hr : r ∈ s.regions) (hx : r.extent.1 ≤ x)
    (hx' : x < r.extent.1 + r.extent.2) (hcurr : s.cursor.current ≤ x) : s.cursor.freeEnd ≤ x := by
  obtain ⟨before, tiles, last, q, rest, hpages, hq, hbefore, hlast, hregions⟩ := h
  have hmem : r.extent ∈ tiles.flatten ++ last := hregions ▸ mem_map_of_mem hr
  rcases mem_append.1 hmem with hmem | hmem
  · obtain ⟨tile, htile, hmem⟩ := mem_flatten.1 hmem
    obtain ⟨i, hi, rfl⟩ := mem_iff_getElem.1 htile
    have hlen := hbefore.length_eq
    have hin := (hbefore.get (by omega) hi).mem hmem
    rw [freeEnd_cons hq]
    by_contra hlt
    have hnum : (before.get ⟨i, by omega⟩).number = q.number :=
      number_eq ⟨by omega, by omega⟩ ⟨hlast.le.trans hcurr, by omega⟩
    rw [hpages, hq, map_append, nodup_append] at hdistinct
    exact hdistinct.2.2 _ (mem_map_of_mem (get_mem _ _)) _ (mem_map_of_mem mem_cons_self) hnum
  · have hin := hlast.mem hmem
    omega

lemma Intact.write {w : Writes α} {mem : ℕ → α}
    (h : Intact w mem pages cur a s) (hfil : Filled pages s) (hdistinct : (pages.map number).Nodup)
    {mem' : ℕ → α} {stop : ℕ} (hstop : stop ≤ s.cursor.freeEnd)
    (hmem : ∀ x, ¬(s.cursor.current ≤ x ∧ x < stop) → mem' x = s.mem x)
    (hpen : ∀ x, Pending cur a' x → Pending cur a x ∧ ¬(s.cursor.current ≤ x ∧ x < stop)) :
    Intact w mem pages cur a' { s with mem := mem' } := by
  refine ⟨fun x hx => ?_, fun o new hr => ?_, fun x hx => ?_, h.seen⟩
  · exact (hmem x (hpen x hx).2).trans (h.pending x (hpen x hx).1)
  · obtain ⟨m, hcopy, hvis⟩ := h.moved o new hr
    refine ⟨m, hcopy, fun i hi => (hmem _ fun hin => ?_).trans (hvis i hi)⟩
    have hset := hfil.settled hdistinct hr (x := new + i) (Nat.le_add_right _ _) (Nat.add_lt_add_left hi new) hin.1
    omega
  · refine (hmem x fun hin => ?_).trans (h.outside x hx)
    obtain ⟨before, tiles, last, q, rest, hpages, hq, -, hlast, -⟩ := hfil
    rw [freeEnd_cons hq] at hstop
    refine hx q ?_ ⟨hlast.le.trans hin.1, by omega⟩
    rw [hpages, hq]
    exact mem_append_right _ mem_cons_self

lemma has_ne (h : ((q :: rest).map number).Nodup) (hq : q.Has x) {r : Page l} (hr : r ∈ rest) : ¬r.Has x := by
  intro hx
  rw [map_cons, nodup_cons] at h
  exact h.1 (number_eq hq hx ▸ mem_map_of_mem hr)

lemma Behind.avoids_rest {b : ℕ} {mid : List (Page l)} (h : Behind c (p :: cur) a)
    (hstart : p.objectStart ≤ b) (hfree : c.free = mid ++ p :: cur) (hmid : mid ≠ [])
    (hx : Pending (p :: cur) b x) : ¬(c.current ≤ x ∧ x < c.freeEnd) := by
  rintro ⟨hlow, hhigh⟩
  obtain ⟨q, rest, hq, hqst, hqend⟩ := h.head
  rw [freeEnd_cons hq] at hhigh
  have hhas : q.Has x := ⟨by omega, hhigh⟩
  obtain ⟨q', mid, rfl⟩ := exists_cons_of_ne_nil hmid
  obtain ⟨rfl, rfl⟩ : q = q' ∧ rest = mid ++ p :: cur := by simpa [hq] using hfree
  have hdistinct := h.distinct
  rw [hq] at hdistinct
  rcases hx with hx | ⟨r, hr, hx⟩
  · exact has_ne hdistinct hhas (by simp) ⟨by omega, hx.2⟩
  · exact has_ne hdistinct hhas (by simp [hr]) hx

lemma Behind.avoids {n : ℕ} (h : Behind c (p :: cur) a) (hstart : p.objectStart ≤ a) (hroom : c.current + n ≤ c.freeEnd)
    (hx : Pending (p :: cur) (a + n) x) : ¬(c.current ≤ x ∧ x < c.current + n) := by
  rintro ⟨hlow, hhigh⟩
  obtain ⟨mid, hfree, hle⟩ := h.pages
  cases mid with
  | nil =>
    have hcurr := hle rfl
    rcases hx with hx | ⟨r, hr, hx⟩
    · omega
    · obtain ⟨q, rest, hq, hqst, hqend⟩ := h.head
      obtain ⟨rfl, rfl⟩ : q = p ∧ rest = cur := by simpa [hq] using hfree
      rw [freeEnd_cons hq] at hroom
      exact has_ne (hfree ▸ h.distinct) ⟨by omega, by omega⟩ hr hx
  | cons q mid => exact h.avoids_rest (by omega) hfree (cons_ne_nil q mid) hx ⟨hlow, by omega⟩

structure Slid (w : Writes α) (mem : ℕ → α) (pages cur : List (Page l)) (a : ℕ) (s : Slide l α) : Prop where
  behind : Behind s.cursor cur a
  filled : Filled pages s
  intact : Intact w mem pages cur a s

lemma Pending.of_le {x : ℕ} (hx : Pending (p :: cur) a' x) (h : a ≤ a') : Pending (p :: cur) a x :=
  hx.imp_left fun hx => ⟨h.trans hx.1, hx.2⟩

section
variable (h : Slid w mem pages (p :: cur) a s)
include h

lemma Slid.skip (n : ℕ) : Slid w mem pages (p :: cur) (a + n) s :=
  ⟨h.behind.mono (Nat.le_add_right a n), h.filled,
    ⟨fun x hx => h.intact.pending x (hx.of_le (Nat.le_add_right a n)), h.intact.moved, h.intact.outside, h.intact.seen⟩⟩

lemma Slid.see (ha : o.addr = a) (hend : a + o.size ≤ p.objectEnd) :
    Slid w mem pages (p :: cur) a { s with seen := s.seen ++ [(o, fun i => s.mem (o.addr + i))] } := by
  refine ⟨h.behind, h.filled, h.intact.pending, h.intact.moved, h.intact.outside, fun r hr i hi => ?_⟩
  rcases mem_append.1 hr with hr | hr
  · exact h.intact.seen r hr i hi
  · rw [mem_singleton.1 hr] at hi ⊢
    exact h.intact.pending _ (.inl ⟨by omega, by dsimp only at hi; omega⟩)

lemma Slid.move (hdistinct : (pages.map number).Nodup)
    (hstart : p.objectStart ≤ a) (ha : o.addr = a) (hpos : 0 < o.size) (hend : a + o.size ≤ p.objectEnd)
    (hroom : s.cursor.current + o.size ≤ s.cursor.freeEnd) : Slid w mem pages (p :: cur) (a + o.size) { s with
      mem := w.visit s.cursor.current o.size
        (if s.cursor.current = o.addr then s.mem else memmove s.cursor.current o.addr o.size s.mem)
      cursor := s.cursor.advance o.size
      regions := s.regions ++ [.moved o s.cursor.current] } := by
  obtain ⟨m, hm⟩ : ∃ m, m = if s.cursor.current = o.addr then s.mem else memmove s.cursor.current o.addr o.size s.mem :=
    ⟨_, rfl⟩
  have hcopy (i : ℕ) (hi : i < o.size) : m (s.cursor.current + i) = mem (o.addr + i) := by
    rw [← h.intact.pending (o.addr + i) (.inl ⟨by omega, by omega⟩), hm]
    split_ifs with heq
    · rw [heq]
    · simp [memmove, hi]
  have hsame (x : ℕ) (hx : ¬(s.cursor.current ≤ x ∧ x < s.cursor.current + o.size)) :
      w.visit s.cursor.current o.size m x = s.mem x := by
    rw [w.visit_outside _ _ _ _ hx, hm]
    split_ifs
    · rfl
    · rw [memmove, if_neg hx]
  have hintact : Intact w mem pages (p :: cur) (a + o.size) _ := h.intact.write h.filled hdistinct hroom hsame fun x hx =>
    ⟨hx.of_le (Nat.le_add_right a _), h.behind.avoids hstart hroom hx⟩
  rw [← hm]
  refine ⟨h.behind.advance hroom, ?_, hintact.pending, fun o' new hr => ?_, hintact.outside, hintact.seen⟩
  · obtain ⟨before, tiles, last, q, rest, hpages, hq, hbefore, hlast, hregions⟩ := h.filled
    refine ⟨before, tiles, last ++ [(s.cursor.current, o.size)], q, rest, hpages, hq, hbefore, ?_, ?_⟩
    · exact (tiles_append _ _).2 ⟨_, hlast, rfl, hpos, rfl⟩
    · simp [hregions, extent]
  · rcases mem_append.1 hr with hr | hr
    · exact hintact.moved o' new hr
    · obtain ⟨rfl, rfl⟩ : o' = o ∧ new = s.cursor.current := by simpa using hr
      exact ⟨m, hcopy, fun i _ => rfl⟩

end

lemma freeRemaining_filled {before : List (Page l)} {last : List (ℕ × ℕ)}
    (hq : s.cursor.free = q :: rest) (hend : s.cursor.current ≤ q.objectEnd)
    (hbefore : List.Forall₂ (fun p tile => Tiles p.objectStart tile p.objectEnd) before tiles)
    (hlast : Tiles q.objectStart last s.cursor.current) (hregions : s.regions.map extent = tiles.flatten ++ last) :
    ∃ tiles', List.Forall₂ (fun p tile => Tiles p.objectStart tile p.objectEnd) (before ++ [q]) tiles' ∧
      (freeRemaining w s).regions.map extent = tiles'.flatten := by
  rw [freeRemaining, freeEnd_cons hq]
  split_ifs with hlt
  · refine ⟨tiles ++ [last ++ [(s.cursor.current, q.objectEnd - s.cursor.current)]],
      rel_append hbefore (.cons ?_ .nil), by simp [hregions, extent]⟩
    refine (tiles_append _ _).2 ⟨_, hlast, rfl, by omega, ?_⟩
    exact Nat.add_sub_cancel' hend
  · refine ⟨tiles ++ [last], rel_append hbefore (.cons ?_ .nil), by simp [hregions]⟩
    rwa [Nat.le_antisymm hend (Nat.le_of_not_lt hlt)] at hlast

lemma freeRemaining_intact (h : Intact w mem pages cur a s) (hfil : Filled pages s)
    (hdistinct : (pages.map number).Nodup)
    (hpen : ∀ x, Pending cur a' x → Pending cur a x ∧ ¬(s.cursor.current ≤ x ∧ x < s.cursor.freeEnd)) :
    Intact w mem pages cur a' (freeRemaining w s) := by
  rw [freeRemaining]
  split_ifs with hlt
  · have hintact : Intact w mem pages cur a' { s with
        mem := w.free s.cursor.current (s.cursor.freeEnd - s.cursor.current) s.mem } := h.write hfil hdistinct le_rfl
      (fun x hx => w.free_outside _ _ _ _ (by omega)) hpen
    refine ⟨hintact.pending, fun o new hr => hintact.moved o new ?_, hintact.outside, hintact.seen⟩
    simpa using hr
  · exact ⟨fun x hx => h.pending x (hpen x hx).1, h.moved, h.outside, h.seen⟩

lemma Slid.turn (h : Slid w mem pages (p :: cur) a s) (hdistinct : (pages.map number).Nodup)
    (hstart : p.objectStart ≤ a) (hc : Behind c (p :: cur) a)
    (htur : Turns (p :: cur) s.cursor c) : Slid w mem pages (p :: cur) a { freeRemaining w s with cursor := c } := by
  obtain ⟨-, hnext, mid, hfree, hmid⟩ := htur
  have hintact : Intact w mem pages (p :: cur) a _ := freeRemaining_intact h.intact h.filled hdistinct fun x hx =>
    ⟨hx, h.behind.avoids_rest hstart hfree hmid hx⟩
  refine ⟨hc, ?_, hintact.pending, hintact.moved, hintact.outside, hintact.seen⟩
  obtain ⟨before, tiles, last, q, rest, hpages, hq, hbefore, hlast, hregions⟩ := h.filled
  obtain ⟨q', rest', hq', -, hend⟩ := h.behind.head
  obtain ⟨rfl, rfl⟩ : q' = q ∧ rest' = rest := by simpa [hq] using hq'.symm
  obtain ⟨tiles', hbefore', hregions'⟩ := freeRemaining_filled (w := w) hq hend hbefore hlast hregions
  rw [nextPage, hq] at hnext
  cases rest' with
  | nil => cases hnext
  | cons r more =>
    obtain rfl := Option.some.inj hnext
    exact ⟨before ++ [q'], tiles', [], r, more, by simp [hpages, hq], rfl, hbefore', rfl, by simpa using hregions'⟩

end Slide

section

lemma liveSize_append (os os' : List Obj) : liveSize (os ++ os') = liveSize os + liveSize os' := by simp [liveSize]

def Logs (fwd : Obj → ℕ) (s s' : Slide l α) (os : List Obj) : Prop :=
  s'.seen.map fst = s.seen.map fst ++ os ∧ s'.regions.filterMap object =
    s.regions.filterMap object ++ (os.filter Obj.marked).map fun o => (o, fwd o)

variable {fwd : Obj → ℕ} {a1 : ℕ} {c1 c : Cursor l} {f : Forwarding} {bs : List (ℕ × List Obj)} {cur1 : List (Page l)}

lemma Logs.append {s1 s2 : Slide l α} {os' : List Obj} (h : Logs fwd s s1 os)
    (h' : Logs fwd s1 s2 os') : Logs fwd s s2 (os ++ os') := by
  refine ⟨?_, ?_⟩
  · rw [h'.1, h.1, append_assoc]
  · rw [h'.2, h.2, append_assoc, filter_append, map_append]

lemma Logs.congr {fwd' : Obj → ℕ} {s' : Slide l α} (h : Logs fwd s s' os)
    (hfwd : ∀ o ∈ os, fwd' o = fwd o) : Logs fwd' s s' os := by
  refine ⟨h.1, h.2.trans (congrArg _ (map_congr_left fun o ho => ?_))⟩
  rw [hfwd o (mem_filter.1 ho).1]

def Ready (cur : List (Page l)) (c₁ c : Cursor l) (n total : ℕ) : Prop :=
  c = c₁.advance n ∨ n = 0 ∧ total ≠ 0 ∧ Turns cur c c₁

lemma turnPage_ready {n total : ℕ} (h : Slid w mem pages (p :: cur) a s)
    (hdistinct : (pages.map number).Nodup) (hstart : p.objectStart ≤ a) (hc : Behind c1 (p :: cur) a)
    (hrea : Ready (p :: cur) c1 s.cursor n total) :
    ∃ s1, turnPage w s (c1.current + n) = some s1 ∧ s1.cursor = c1.advance n ∧ Slid w mem pages (p :: cur) a s1 ∧
    s1.seen = s.seen ∧ s1.regions.filterMap object = s.regions.filterMap object := by
  rw [turnPage]
  rcases hrea with hcur | ⟨rfl, -, htur⟩
  · exact ⟨s, if_pos (by rw [hcur]; rfl), hcur, h, rfl, rfl⟩
  · refine ⟨{ freeRemaining w s with cursor := c1 }, ?_, rfl, h.turn hdistinct hstart hc htur, ?_, ?_⟩
    · rw [Nat.add_zero, if_neg htur.1, htur.2.1]
      rfl
    · rw [freeRemaining]
      split_ifs <;> rfl
    · rw [freeRemaining]
      split_ifs
      · simp [object]
      · rfl

lemma slideObjects {k a0 e : ℕ} {block pre : List Obj}
    (hdistinct : (pages.map number).Nodup)
    (hb : b = { recordObjects l.kBitsPerWord {} block with newAddress := c1.current }) (hblo : block = pre ++ os)
    (htil : Tiled a0 block e) (hk : ∀ o ∈ block, o.addr / l.kBitsPerWord = k) (hle : k * l.kBitsPerWord ≤ a0)
    (hstart : p.objectStart ≤ a0) (hend : e ≤ p.objectEnd) (hc : Behind c1 (p :: cur) a0)
    (hroom : c1.current + liveSize block ≤ c1.freeEnd) (hos : Tiled a os e) (ha : a0 ≤ a)
    (h : Slid w mem pages (p :: cur) a s) (hrea : Ready (p :: cur) c1 s.cursor (liveSize pre) (liveSize block)) :
    ∃ s', os.foldlM (slideObject w b) s = some s' ∧ Slid w mem pages (p :: cur) e s' ∧
      s'.cursor = c1.advance (liveSize block) ∧ Logs (fun o => b.lookup l.kBitsPerWord o.addr) s s' os := by
  induction os generalizing pre a s with
  | nil =>
    obtain rfl : a = e := hos
    rw [append_nil] at hblo
    subst hblo
    exact ⟨s, rfl, h, hrea.resolve_right fun hturn => hturn.2.1 hturn.1, by simp [Logs]⟩
  | cons o os ih =>
    obtain ⟨haddr, hpos, hrest⟩ := hos
    have hsize : a + o.size ≤ p.objectEnd := hrest.le.trans hend
    have hloo : b.lookup l.kBitsPerWord o.addr = c1.current + liveSize pre := by
      subst hblo
      rw [hb, lookup_recordObjects htil hk hle]
    have hpre : block = (pre ++ [o]) ++ os := by simp [hblo]
    have hlive : liveSize (pre ++ [o]) = liveSize pre + if o.marked then o.size else 0 := by
      rw [liveSize_append, liveSize_cons]
      simp [liveSize]
    have hsee := h.see haddr hsize
    rw [foldlM_cons, slideObject]
    split_ifs with hmarked
    · obtain ⟨s1, hturn, hcur, hs1, hseen, hregions⟩ :=
        turnPage_ready hsee hdistinct (hstart.trans ha) (hc.mono ha) hrea
      rw [if_pos hmarked] at hlive
      have hcurr : s1.cursor.current = c1.current + liveSize pre := by rw [hcur]; rfl
      have hmove := hs1.move hdistinct (hstart.trans ha) haddr hpos hsize (by
        have hfree : s1.cursor.freeEnd = c1.freeEnd := by rw [hcur]; rfl
        rw [hpre, liveSize_append] at hroom
        omega)
      obtain ⟨s', hrun, hs', hcur', hlogs⟩ := ih hpre hrest (by omega) hmove (.inl (by
        rw [hlive]
        rw [hcur, advance, advance, advance, add_assoc]))
      refine ⟨s', ?_, hs', hcur', ?_⟩
      · rw [hcurr] at hrun
        rw [hloo]
        dsimp only
        rw [hturn]
        exact hrun
      · refine Logs.append (⟨?_, ?_⟩ : Logs _ s _ [o]) hlogs
        · simp [hseen]
        · simp [hregions, hmarked, object, hloo, hcurr]
    · rw [if_neg hmarked] at hlive
      obtain ⟨s', hrun, hs', hcur', hlogs⟩ := ih hpre hrest (by omega) (hsee.skip o.size) (by rw [hlive]; exact hrea)
      refine ⟨s', hrun, hs', hcur', Logs.append (⟨?_, ?_⟩ : Logs _ s _ [o]) hlogs⟩
      · simp
      · simp [hmarked]

variable (w mem) in
def Compacts (pages cur : List (Page l)) (a : ℕ) (cur' : List (Page l)) (a' : ℕ) (bs : List (ℕ × List Obj))
    (f : Forwarding) (c : Cursor l) (f' : Forwarding) (c' : Cursor l) : Prop :=
  bs.foldlM planBlock (f, c) = some (f', c') ∧ Behind c' cur' a' ∧ (∀ k, (∀ b ∈ bs, b.1 ≠ k) → f' k = f k) ∧
    ∀ fwd s, (∀ b ∈ bs, fwd b.1 = f' b.1) → s.cursor = c → Slid w mem pages cur a s →
      ∃ s', bs.foldlM (slideBlock w fwd) s = some s' ∧ s'.cursor = c' ∧ Slid w mem pages cur' a' s' ∧
        Logs (fun o => lookup l.kBitsPerWord fwd o.addr) s s' (bs.flatMap snd)

variable (w mem) in
lemma compacts_block {a e k : ℕ} {block : List Obj} (hdistinct : (pages.map number).Nodup)
    (htil : Tiled a block e) (hk : ∀ o ∈ block, o.addr / l.kBitsPerWord = k) (hne : block ≠ [])
    (hstart : p.objectStart ≤ a)
    (hend : e ≤ p.objectEnd) (f : Forwarding) (hc : Behind c (p :: cur) a) :
    ∃ f' c', Compacts w mem pages (p :: cur) a (p :: cur) e [(k, block)] f c f' c' := by
  have hlive := htil.liveSize_le
  obtain ⟨c1, hplan, hc1, hroom, hturn⟩ := hc.move hstart (hlive.trans hend)
  have hle : k * l.kBitsPerWord ≤ a := by
    obtain ⟨o, os, rfl⟩ := exists_cons_of_ne_nil hne
    have ho := addr_eq l (hk o mem_cons_self)
    have haddr : o.addr = a := htil.1
    omega
  refine ⟨Function.update f k { recordObjects l.kBitsPerWord {} block with newAddress := c1.current },
    c1.advance (liveSize block), ?_, (hc1.advance hroom).mono hlive, fun x hx => ?_, fun fwd s hfwd hs h => ?_⟩
  · simp [planBlock, hplan]
  · exact Function.update_of_ne (Ne.symm (hx _ mem_cons_self)) _ _
  · have hb : fwd k = { recordObjects l.kBitsPerWord {} block with newAddress := c1.current } := by
      rw [hfwd (k, block) mem_cons_self, Function.update_self]
    have hrea : Ready (p :: cur) c1 s.cursor (liveSize []) (liveSize block) := by
      rcases hturn with rfl | ⟨hpos, hturn⟩
      · exact .inl hs
      · exact .inr ⟨rfl, hpos, hs ▸ hturn⟩
    obtain ⟨s', hrun, hs', hcur, hlogs⟩ :=
      slideObjects hdistinct hb rfl htil hk hle hstart hend hc1 hroom htil le_rfl h hrea
    refine ⟨s', by simpa [slideBlock] using hrun, hcur, hs', ?_⟩
    rw [flatMap_singleton]
    exact hlogs.congr fun o ho => by rw [lookup, hk o ho]

lemma Compacts.append {cur2 cur3 : List (Page l)} {a2 a3 : ℕ} {bs' : List (ℕ × List Obj)}
    {f1 f2 : Forwarding} {c2 : Cursor l} (h : Compacts w mem pages cur1 a1 cur2 a2 bs f c f1 c1)
    (h' : Compacts w mem pages cur2 a2 cur3 a3 bs' f1 c1 f2 c2) (hne : ∀ b ∈ bs, ∀ b' ∈ bs', b.1 ≠ b'.1) :
    Compacts w mem pages cur1 a1 cur3 a3 (bs ++ bs') f c f2 c2 := by
  obtain ⟨hplan, -, hoth, hslide⟩ := h
  obtain ⟨hplan', hc', hoth', hslide'⟩ := h'
  refine ⟨by simp [hplan, hplan'], hc', fun k hk => ?_, fun fwd s hfwd hs h => ?_⟩
  · rw [hoth' k fun b hb => hk b (mem_append_right _ hb), hoth k fun b hb => hk b (mem_append_left _ hb)]
  · obtain ⟨s1, hrun, hcur, hs1, hlogs⟩ := hslide fwd s (fun b hb => by
      rw [hfwd b (mem_append_left _ hb), hoth' b.1 fun b' hb' => (hne b hb b' hb').symm]) hs h
    obtain ⟨s2, hrun', hcur', hs2, hlogs'⟩ := hslide' fwd s1 (fun b hb => hfwd b (mem_append_right _ hb)) hcur hs1
    exact ⟨s2, by simp [hrun, hrun'], hcur', hs2, by
      rw [flatMap_append]
      exact hlogs.append hlogs'⟩

variable (w mem) in
lemma compacts_blocks {a : ℕ} {bs : List (ℕ × List Obj)} (hdistinct : (pages.map number).Nodup)
    (htil : Tiled a (bs.flatMap snd) p.objectEnd) (hk : ∀ b ∈ bs, b.2 ≠ [] ∧ ∀ o ∈ b.2, o.addr / l.kBitsPerWord = b.1)
    (hne : bs.Pairwise fun b b' => b.1 ≠ b'.1) (hstart : p.objectStart ≤ a) (f : Forwarding)
    (hc : Behind c (p :: cur) a) : ∃ f' c', Compacts w mem pages (p :: cur) a (p :: cur) p.objectEnd bs f c f' c' := by
  induction bs generalizing a f c with
  | nil =>
    obtain rfl : a = p.objectEnd := htil
    exact ⟨f, c, rfl, hc, fun _ _ => rfl, fun fwd s _ hs h => ⟨s, rfl, hs, h, by simp [Logs]⟩⟩
  | cons b bs ih =>
    rw [flatMap_cons, tiled_append] at htil
    obtain ⟨m, hm, hrest⟩ := htil
    obtain ⟨hbne, hbk⟩ := hk b mem_cons_self
    obtain ⟨f1, c1, hfir⟩ := compacts_block w mem hdistinct hm hbk hbne hstart hrest.le f hc
    obtain ⟨f2, c2, hmore⟩ := ih hrest (fun b' hb' => hk b' (mem_cons_of_mem _ hb')) (pairwise_cons.1 hne).2
      (hstart.trans hm.le) f1 hfir.2.1
    exact ⟨f2, c2, hfir.append hmore (by simpa using (pairwise_cons.1 hne).1)⟩

lemma Compacts.leave {f' : Forwarding} {c' : Cursor l} (h : Compacts w mem pages cur1 a1 (p :: cur) a bs f c f' c') :
    Compacts w mem pages cur1 a1 cur (start cur).current bs f c f' c' := by
  obtain ⟨hplan, hc, hoth, hslide⟩ := h
  refine ⟨hplan, hc.leave _, hoth, fun fwd s hfwd hs h => ?_⟩
  obtain ⟨s', hrun, hcur, hs', hlogs⟩ := hslide fwd s hfwd hs h
  refine ⟨s', hrun, hcur, ⟨hs'.behind.leave _, hs'.filled, fun x hx => hs'.intact.pending x (.inr ?_),
    hs'.intact.moved, hs'.intact.outside, hs'.intact.seen⟩, hlogs⟩
  cases cur with
  | nil => cases hx
  | cons r rest =>
    rcases hx with hx | ⟨r', hr', hx⟩
    · exact ⟨r, mem_cons_self, hx⟩
    · exact ⟨r', mem_cons_of_mem _ hr', hx⟩

variable (w mem) in
lemma compacts_pages (hdistinct : (pages.map number).Nodup)
    (hne : (cur.flatMap fun p => blocks l.kBitsPerWord p.objs).Pairwise fun b b' => b.1 ≠ b'.1) (f : Forwarding)
    (hc : Behind c cur (start cur).current) :
    ∃ f' c', Compacts w mem pages cur (start cur).current [] 0
      (cur.flatMap fun p => blocks l.kBitsPerWord p.objs) f c f' c' := by
  induction cur generalizing f c with
  | nil => exact ⟨f, c, rfl, hc, fun _ _ => rfl, fun fwd s _ hs h => ⟨s, rfl, hs, h, by simp [Logs]⟩⟩
  | cons p cur ih =>
    rw [flatMap_cons, pairwise_append] at hne
    have htil := p.tiled
    rw [← flatMap_blocks l.kBitsPerWord p.objs] at htil
    obtain ⟨f1, c1, hfir⟩ := compacts_blocks w mem hdistinct htil
      (fun b hb => ⟨blocks_ne_nil hb, (blocks_number p.tiled hb).2⟩) hne.1 le_rfl f hc
    obtain ⟨f2, c2, hmore⟩ := ih hne.2.1 f1 hfir.leave.2.1
    exact ⟨f2, c2, hfir.leave.append hmore hne.2.2⟩

end

section

lemma foldlM_pages {σ : Type} (step : σ → ℕ × List Obj → Option σ) (s : σ) :
    pages.foldlM (fun s p => (blocks l.kBitsPerWord p.objs).foldlM step s) s =
      (pages.flatMap fun p => blocks l.kBitsPerWord p.objs).foldlM step s := by
  induction pages generalizing s with
  | nil => rfl
  | cons p pages ih => simp [ih]

lemma Tiles.pairwise {a b : ℕ} (h : Tiles a xs b) : xs.Pairwise fun x y => x.1 + x.2 ≤ y.1 := by
  induction xs generalizing a with
  | nil => exact List.Pairwise.nil
  | cons x xs ih =>
    obtain ⟨hx, -, hrest⟩ := h
    refine pairwise_cons.2 ⟨fun y hy => ?_, ih hrest⟩
    have hmem := hrest.mem hy
    omega

def Apart (x y : ℕ × ℕ) : Prop := x.1 + x.2 ≤ y.1 ∨ y.1 + y.2 ≤ x.1

lemma tiles_apart {used : List (Page l)} (hdistinct : (used.map number).Nodup)
    (h : List.Forall₂ (fun p tile => Tiles p.objectStart tile p.objectEnd) used tiles) :
    tiles.flatten.Pairwise Apart := by
  induction h with
  | nil => exact List.Pairwise.nil
  | @cons p tile used tiles htile hrest ih =>
    rw [map_cons, nodup_cons] at hdistinct
    rw [flatten_cons, pairwise_append]
    refine ⟨htile.pairwise.imp .inl, ih hdistinct.2, fun x hx y hy => ?_⟩
    obtain ⟨tile', htile', hy⟩ := mem_flatten.1 hy
    obtain ⟨i, hi, rfl⟩ := mem_iff_getElem.1 htile'
    have hlen := hrest.length_eq
    have hin := htile.mem hx
    have hin' := (hrest.get (by omega) hi).mem hy
    by_contra hapart
    rw [Apart] at hapart
    have hnum : p.number = (used.get ⟨i, by omega⟩).number :=
      number_eq (x := max x.1 y.1) ⟨by omega, by omega⟩ ⟨by omega, by omega⟩
    exact hdistinct.1 (hnum ▸ mem_map_of_mem (get_mem _ _))

structure Relocated (w : Writes α) (mem : ℕ → α) (pages : List (Page l)) (fwd : Forwarding) (s : Slide l α) : Prop where
  /-- Sliding comes to every object, and finds it as it was. -/
  visits : s.seen.map fst = pages.flatMap objs
  found : ∀ r ∈ s.seen, ∀ i < r.1.size, r.2 i = mem (r.1.addr + i)
  /-- The marked objects are moved in their order. -/
  moved : s.regions.filterMap object =
    ((pages.flatMap objs).filter Obj.marked).map fun o => (o, lookup l.kBitsPerWord fwd o.addr)
  /-- What lies at the new address is what `visit` made of the unmodified object. -/
  contents : ∀ o ∈ pages.flatMap objs, o.marked = true → ∃ m : ℕ → α,
    (∀ i < o.size, m (lookup l.kBitsPerWord fwd o.addr + i) = mem (o.addr + i)) ∧
      ∀ i < o.size, s.mem (lookup l.kBitsPerWord fwd o.addr + i) =
        w.visit (lookup l.kBitsPerWord fwd o.addr) o.size m (lookup l.kBitsPerWord fwd o.addr + i)
  /-- The pages up to the last used one consist of the objects and of what was given to the free list. -/
  tiled : ∃ used tiles, used ≠ [] ∧ pages = used ++ s.cursor.free.tail ∧
    List.Forall₂ (fun p tile => Tiles p.objectStart tile p.objectEnd) used tiles ∧
    s.regions.map extent = tiles.flatten
  apart : (s.regions.map extent).Pairwise Apart
  outside : ∀ x, (∀ p ∈ pages, ¬p.Has x) → s.mem x = mem x

lemma slid_start (hne : pages ≠ []) (hdistinct : (pages.map number).Nodup) :
    Slid w mem pages pages (start pages).current ⟨mem, .start pages, [], []⟩ := by
  obtain ⟨p, rest, rfl⟩ := exists_cons_of_ne_nil hne
  have hroom := l.room
  refine ⟨⟨⟨[], rfl, fun _ => le_rfl⟩, ⟨p, rest, rfl, le_rfl, ?_⟩, hdistinct⟩,
      ⟨[], [], [], p, rest, rfl, rfl, .nil, rfl, rfl⟩,
    fun x _ => rfl, by simp, fun x _ => rfl, by simp⟩
  simp only [start, List.head?_cons, Option.map_some, Option.getD_some, objectStart, objectEnd]
  omega

theorem compaction_relocates (w : Writes α) (mem : ℕ → α) (pages : List (Page l)) (hne : pages ≠ [])
    (hdistinct : (pages.map number).Nodup) :
    ∃ fwd c s, plan pages = some (fwd, c) ∧ slide w fwd mem pages = some s ∧ Relocated w mem pages fwd s := by
  have hstart : Slid w mem pages _ _ _ := slid_start hne hdistinct
  obtain ⟨fwd, c, hplan, -, -, hslide⟩ :=
    compacts_pages w mem hdistinct (blocks_distinct hdistinct) (fun _ => {}) hstart.behind
  obtain ⟨s, hrun, -, hs, hlogs⟩ := hslide fwd _ (fun _ _ => rfl) rfl hstart
  have hintact : Intact w mem pages [] 0 (freeRemaining w s) :=
    freeRemaining_intact hs.intact hs.filled hdistinct fun x hx => hx.elim
  have hfree : (freeRemaining w s).cursor = s.cursor ∧ (freeRemaining w s).seen = s.seen ∧
      (freeRemaining w s).regions.filterMap object = s.regions.filterMap object := by
    rw [freeRemaining]
    split_ifs
    · simp [object]
    · exact ⟨rfl, rfl, rfl⟩
  have hobjs : (pages.flatMap fun p => blocks l.kBitsPerWord p.objs).flatMap snd = pages.flatMap objs := by
    rw [flatMap_assoc]
    exact flatMap_congr fun p _ => flatMap_blocks l.kBitsPerWord p.objs
  rw [hobjs] at hlogs
  obtain ⟨before, tiles, last, q, rest, hpages, hq, hbefore, hlast, hregions⟩ := hs.filled
  obtain ⟨q', rest', hq', -, hend⟩ := hs.behind.head
  obtain ⟨rfl, rfl⟩ : q' = q ∧ rest' = rest := by simpa [hq] using hq'.symm
  obtain ⟨tiles', htiles, hextents⟩ := freeRemaining_filled hq hend hbefore hlast hregions
  have hused : pages = (before ++ [q']) ++ rest' := by simp [hpages, hq]
  have hmoved : (freeRemaining w s).regions.filterMap object =
      ((pages.flatMap objs).filter Obj.marked).map fun o => (o, lookup l.kBitsPerWord fwd o.addr) :=
    hfree.2.2.trans hlogs.2
  refine ⟨fwd, c, freeRemaining w s, (foldlM_pages planBlock _).trans hplan, ?_, ?_, hintact.seen, hmoved,
    fun o ho hmarked => hintact.moved o _ ?_, ⟨before ++ [q'], tiles', by simp, ?_, htiles, hextents⟩, ?_,
    hintact.outside⟩
  · exact congrArg (· >>= fun s => some (freeRemaining w s)) ((foldlM_pages (slideBlock w fwd) _).trans hrun)
  · rw [hfree.2.1]
    exact hlogs.1
  · have hmem : (o, lookup l.kBitsPerWord fwd o.addr) ∈ (freeRemaining w s).regions.filterMap object := by
      rw [hmoved]
      exact mem_map_of_mem (mem_filter.2 ⟨ho, hmarked⟩)
    obtain ⟨r, hr, hobject⟩ := mem_filterMap.1 hmem
    cases r with
    | moved o' new =>
      obtain ⟨rfl, rfl⟩ : o' = o ∧ new = lookup l.kBitsPerWord fwd o.addr := by simpa [object] using hobject
      exact hr
    | freed addr size => cases hobject
  · rw [hfree.1, hq]
    exact hused
  · rw [hextents]
    refine tiles_apart ?_ htiles
    rw [hused, map_append] at hdistinct
    exact (nodup_append.1 hdistinct).1

def smallLayout : Layout := ⟨64, 1, 1, 9, by decide, by decide, by decide, by decide⟩

def smallPages : List (Page smallLayout) :=
  [⟨5, [(2, false), (3, true), (3, false)], by decide, rfl⟩, ⟨2, [(1, true), (6, true), (1, false)], by decide, rfl⟩]

theorem compaction_smallPages : ∃ fwd c s, plan smallPages = some (fwd, c) ∧
    slide ⟨fun _ _ m => m, fun _ _ m => m, fun _ _ _ _ _ => rfl, fun _ _ _ _ _ => rfl⟩ fwd id smallPages = some s ∧
    Relocated ⟨fun _ _ m => m, fun _ _ m => m, fun _ _ _ _ _ => rfl, fun _ _ _ _ _ => rfl⟩ id smallPages fwd s :=
  compaction_relocates _ id smallPages (by simp [smallPages]) (by decide)

end
end DartSdk.Heap.Compactor
