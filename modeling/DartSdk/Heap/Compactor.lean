import Mathlib.Algebra.BigOperators.Group.List.Basic
import Mathlib.Algebra.Ring.Nat
import Mathlib.Data.Nat.Count

/-!
The planning and sliding of `compactor.cc`.  Every address and every size is a multiple of
`kObjectAlignment`; both are counted in such allocation units.
-/

namespace DartSdk.Heap.Compactor

structure Obj where
  addr : ℕ
  size : ℕ
  marked : Bool
  deriving DecidableEq

structure ForwardingBlock where
  newAddress : ℕ := 0
  liveBitvector : ℕ := 0

def countOneBitsWord (kBitsPerWord x : ℕ) : ℕ := Nat.count (fun i => x.testBit i = true) kBitsPerWord

namespace ForwardingBlock

def lookup (b : ForwardingBlock) (kBitsPerWord oldAddr : ℕ) : ℕ :=
  b.newAddress + countOneBitsWord kBitsPerWord (b.liveBitvector &&& (2 ^ (oldAddr % kBitsPerWord) - 1))

def recordLive (b : ForwardingBlock) (kBitsPerWord oldAddr size : ℕ) : ForwardingBlock :=
  let sizeInUnits := if kBitsPerWord ≤ size then kBitsPerWord - 1 else size
  { b with
    liveBitvector :=
      (b.liveBitvector ||| (2 ^ sizeInUnits - 1) <<< (oldAddr % kBitsPerWord)) % 2 ^ kBitsPerWord }

end ForwardingBlock

/-- The sizes of the target: a block is the `kBitsPerWord` allocation units that one word has bits for. -/
structure Layout where
  kBitsPerWord : ℕ
  blocksPerPage : ℕ
  objectStart : ℕ
  objectEnd : ℕ
  word : 0 < kBitsPerWord
  header : 0 < objectStart
  room : objectStart < objectEnd
  forwardingPage : objectEnd < blocksPerPage * kBitsPerWord

structure Page (l : Layout) where
  number : ℕ
  objects : List (ℕ × Bool)
  pos : ∀ o ∈ objects, 0 < o.1
  filled : l.objectStart + (objects.map Prod.fst).sum = l.objectEnd

def place : ℕ → List (ℕ × Bool) → List Obj
  | _, [] => []
  | addr, (size, marked) :: rest => ⟨addr, size, marked⟩ :: place (addr + size) rest

variable {l : Layout} {α : Type}

namespace Page

def objectStart (p : Page l) : ℕ := p.number * (l.blocksPerPage * l.kBitsPerWord) + l.objectStart

def objectEnd (p : Page l) : ℕ := p.number * (l.blocksPerPage * l.kBitsPerWord) + l.objectEnd

def objs (p : Page l) : List Obj := place p.objectStart p.objects

end Page

def blockEnd (kBitsPerWord addr : ℕ) : ℕ := addr / kBitsPerWord * kBitsPerWord + kBitsPerWord

def blocks (kBitsPerWord : ℕ) : List Obj → List (ℕ × List Obj)
  | [] => []
  | o :: os =>
    (o.addr / kBitsPerWord, o :: os.takeWhile fun x => x.addr < blockEnd kBitsPerWord o.addr) ::
      blocks kBitsPerWord (os.dropWhile fun x => x.addr < blockEnd kBitsPerWord o.addr)
termination_by os => os.length
decreasing_by exact Nat.lt_succ_of_le (List.dropWhile_suffix _).length_le

abbrev Forwarding := ℕ → ForwardingBlock

def lookup (kBitsPerWord : ℕ) (fwd : Forwarding) (oldAddr : ℕ) : ℕ :=
  (fwd (oldAddr / kBitsPerWord)).lookup kBitsPerWord oldAddr

structure Cursor (l : Layout) where
  free : List (Page l)
  current : ℕ

namespace Cursor

def start (pages : List (Page l)) : Cursor l := ⟨pages, (pages.head?.map Page.objectStart).getD 0⟩

def freeEnd (c : Cursor l) : ℕ := (c.free.head?.map Page.objectEnd).getD 0

def nextPage (c : Cursor l) : Option (Cursor l) :=
  match c.free with
  | _ :: page :: rest => some ⟨page :: rest, page.objectStart⟩
  | _ => none

def planMoveToContiguousSize (c : Cursor l) (size : ℕ) : Option (Cursor l) :=
  if c.freeEnd < c.current + size then c.nextPage else some c

def advance (c : Cursor l) (size : ℕ) : Cursor l := { c with current := c.current + size }

end Cursor

def liveSize (os : List Obj) : ℕ := ((os.filter Obj.marked).map Obj.size).sum

def recordObjects (kBitsPerWord : ℕ) (b : ForwardingBlock) (os : List Obj) : ForwardingBlock :=
  os.foldl (fun b o => if o.marked then b.recordLive kBitsPerWord o.addr o.size else b) b

def planBlock (s : Forwarding × Cursor l) (block : ℕ × List Obj) : Option (Forwarding × Cursor l) := do
  let c ← s.2.planMoveToContiguousSize (liveSize block.2)
  some (Function.update s.1 block.1 { recordObjects l.kBitsPerWord {} block.2 with newAddress := c.current },
    c.advance (liveSize block.2))

def planPage (s : Forwarding × Cursor l) (p : Page l) : Option (Forwarding × Cursor l) :=
  (blocks l.kBitsPerWord p.objs).foldlM planBlock s

def plan (pages : List (Page l)) : Option (Forwarding × Cursor l) :=
  pages.foldlM planPage (fun _ => {}, .start pages)

/-- What else is written: `visit` clears the mark bit and forwards the pointers of an object, and `free` makes a
free list element.  Neither writes outside. -/
structure Writes (α : Type) where
  visit : ℕ → ℕ → (ℕ → α) → ℕ → α
  free : ℕ → ℕ → (ℕ → α) → ℕ → α
  visit_outside : ∀ addr size mem a, ¬(addr ≤ a ∧ a < addr + size) → visit addr size mem a = mem a
  free_outside : ∀ addr size mem a, ¬(addr ≤ a ∧ a < addr + size) → free addr size mem a = mem a

def memmove (new old size : ℕ) (mem : ℕ → α) (a : ℕ) : α :=
  if new ≤ a ∧ a < new + size then mem (old + (a - new)) else mem a

inductive Region
  | moved (o : Obj) (new : ℕ)
  | freed (addr size : ℕ)

namespace Region

def extent : Region → ℕ × ℕ
  | moved o new => (new, o.size)
  | freed addr size => (addr, size)

def object : Region → Option (Obj × ℕ)
  | moved o new => some (o, new)
  | freed _ _ => none

end Region

structure Slide (l : Layout) (α : Type) where
  mem : ℕ → α
  cursor : Cursor l
  regions : List Region
  seen : List (Obj × (ℕ → α))

def freeRemaining (w : Writes α) (s : Slide l α) : Slide l α :=
  if s.cursor.current < s.cursor.freeEnd then
    { s with
      mem := w.free s.cursor.current (s.cursor.freeEnd - s.cursor.current) s.mem
      regions := s.regions ++ [.freed s.cursor.current (s.cursor.freeEnd - s.cursor.current)] }
  else s

def turnPage (w : Writes α) (s : Slide l α) (newAddr : ℕ) : Option (Slide l α) :=
  if newAddr = s.cursor.current then some s
  else do
    let c ← s.cursor.nextPage
    some { freeRemaining w s with cursor := c }

def slideObject (w : Writes α) (b : ForwardingBlock) (s : Slide l α) (o : Obj) : Option (Slide l α) :=
  let s := { s with seen := s.seen ++ [(o, fun i => s.mem (o.addr + i))] }
  if o.marked then do
    let newAddr := b.lookup l.kBitsPerWord o.addr
    let s ← turnPage w s newAddr
    some { s with
      mem := w.visit newAddr o.size (if newAddr = o.addr then s.mem else memmove newAddr o.addr o.size s.mem)
      cursor := s.cursor.advance o.size
      regions := s.regions ++ [.moved o newAddr] }
  else some s

def slideBlock (w : Writes α) (fwd : Forwarding) (s : Slide l α) (block : ℕ × List Obj) : Option (Slide l α) :=
  block.2.foldlM (slideObject w (fwd block.1)) s

def slidePage (w : Writes α) (fwd : Forwarding) (s : Slide l α) (p : Page l) : Option (Slide l α) :=
  (blocks l.kBitsPerWord p.objs).foldlM (slideBlock w fwd) s

def slide (w : Writes α) (fwd : Forwarding) (mem : ℕ → α) (pages : List (Page l)) : Option (Slide l α) := do
  let s ← pages.foldlM (slidePage w fwd) ⟨mem, .start pages, [], []⟩
  some (freeRemaining w s)

end DartSdk.Heap.Compactor
