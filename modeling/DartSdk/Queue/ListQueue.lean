import Mathlib.Data.Int.Bitwise

/-!
`ListQueue` of `queue.dart`.  A slot of the table is `none` for `null`; a result `none` stands for a
`RangeError`, or for a `null` where an element is expected.
-/

namespace DartSdk.Queue
variable {E : Type}

structure ListQueue (E : Type) where
  table : List (Option E)
  head : ℕ
  tail : ℕ
  modificationCount : ℕ

def isPowerOf2 (number : ℕ) : Bool := number &&& (number - 1) = 0

def nextPowerOf2Loop : ℕ → ℕ → Option ℕ
  | 0, _ => none
  | fuel + 1, number =>
    let nextNumber := number &&& (number - 1)
    if nextNumber = 0 then some number else nextPowerOf2Loop fuel nextNumber

def nextPowerOf2 (number : ℕ) : Option ℕ :=
  let number := (number <<< 1) - 1
  nextPowerOf2Loop (number + 1) number

def calculateCapacity (initialCapacity : Option ℤ) : Option ℕ :=
  match initialCapacity with
  | none => some 8
  | some initialCapacity =>
    if initialCapacity < 8 then some 8
    else if !isPowerOf2 initialCapacity.toNat then nextPowerOf2 initialCapacity.toNat
    else some initialCapacity.toNat

def mask (length : ℕ) (x : ℤ) : ℕ := (x.land (length - 1)).toNat

def setAt (table : List (Option E)) (i : ℕ) (value : Option E) : Option (List (Option E)) :=
  if i < table.length then some (table.set i value) else none

def setRange (table : List (Option E)) (start : ℕ) (source : List (Option E)) : Option (List (Option E)) :=
  if start + source.length ≤ table.length then
    some (table.take start ++ source ++ table.drop (start + source.length))
  else none

namespace ListQueue

def new (initialCapacity : Option ℤ) : Option (ListQueue E) := do
  let capacity ← calculateCapacity initialCapacity
  some ⟨List.replicate capacity none, 0, 0, 0⟩

variable (q : ListQueue E)

def isEmpty : Bool := q.head = q.tail

def length : ℕ := mask q.table.length (q.tail - q.head)

def read (i : ℕ) : Option E := q.table[i]?.join

def first : Option (Option E) :=
  if q.head = q.tail then some none else (q.read q.head).map some

def last : Option (Option E) :=
  if q.head = q.tail then some none
  else (q.read (mask q.table.length (q.tail - 1))).map some

def elementAt (index : ℕ) : Option (Option E) :=
  if q.length ≤ index then some none
  else (q.read (mask q.table.length (q.head + index))).map some

def toList : Option (List E) :=
  let length := mask q.table.length (q.tail - q.head)
  if length = 0 then some []
  else do
    let _ ← q.first
    (List.range length).mapM fun (i : ℕ) => q.read (mask q.table.length (q.head + i))

def grow : Option (ListQueue E) := do
  let newTable := List.replicate (q.table.length * 2) none
  let split := q.table.length - q.head
  let newTable ← setRange newTable 0 ((q.table.drop q.head).take split)
  let newTable ← setRange newTable split (q.table.take q.head)
  some { q with head := 0, tail := q.table.length, table := newTable }

def writeToList (target : List (Option E)) : Option (List (Option E) × ℕ) :=
  if q.head ≤ q.tail then do
    let length := q.tail - q.head
    let target ← setRange target 0 ((q.table.drop q.head).take length)
    some (target, length)
  else do
    let firstPartSize := q.table.length - q.head
    let target ← setRange target 0 ((q.table.drop q.head).take firstPartSize)
    let target ← setRange target firstPartSize (q.table.take q.tail)
    some (target, q.tail + firstPartSize)

def preGrow (newElementCount : ℕ) : Option (ListQueue E) := do
  let newElementCount := newElementCount + newElementCount >>> 1
  let newCapacity ← nextPowerOf2 newElementCount
  let (newTable, tail) ← q.writeToList (List.replicate newCapacity none)
  some { q with table := newTable, head := 0, tail := tail }

def growIfFull : Option (ListQueue E) := if q.head = q.tail then q.grow else some q

def add (element : E) : Option (ListQueue E) := do
  let table ← setAt q.table q.tail (some element)
  let tail := mask table.length (q.tail + 1)
  let q ← { q with table := table, tail := tail : ListQueue E }.growIfFull
  some { q with modificationCount := q.modificationCount + 1 }

def addFirst (value : E) : Option (ListQueue E) := do
  let head := mask q.table.length (q.head - 1)
  let table ← setAt q.table head (some value)
  let q ← { q with table := table, head := head : ListQueue E }.growIfFull
  some { q with modificationCount := q.modificationCount + 1 }

def writeAll (list : List E) : Option (ListQueue E) :=
  let source := list.map some
  let addCount := list.length
  let length := q.length
  if q.table.length ≤ length + addCount then do
    let q ← q.preGrow (length + addCount)
    let table ← setRange q.table length source
    some { q with table := table, tail := q.tail + addCount }
  else
    let endSpace := q.table.length - q.tail
    if addCount < endSpace then do
      let table ← setRange q.table q.tail source
      some { q with table := table, tail := q.tail + addCount }
    else do
      let preSpace := addCount - endSpace
      let table ← setRange q.table q.tail (source.take endSpace)
      let table ← setRange table 0 ((source.drop endSpace).take preSpace)
      some { q with table := table, tail := preSpace }

def addAll (list : List E) : Option (ListQueue E) := do
  let q ← q.writeAll list
  some { q with modificationCount := q.modificationCount + 1 }

def addEach (elements : List E) : Option (ListQueue E) := elements.foldlM add q

def moveFromStart (head : ℕ) : ℕ → List (Option E) → ℕ → Option (List (Option E))
  | 0, _, _ => none
  | fuel + 1, table, i =>
    if i = head then some table
    else do
      let prevOffset := mask table.length (i - 1)
      let element ← table[prevOffset]?
      let table ← setAt table i element
      moveFromStart head fuel table prevOffset

def moveFromEnd (tail : ℕ) : ℕ → List (Option E) → ℕ → Option (List (Option E))
  | 0, _, _ => none
  | fuel + 1, table, i =>
    if i = tail then some table
    else do
      let nextOffset := mask table.length (i + 1)
      let element ← table[nextOffset]?
      let table ← setAt table i element
      moveFromEnd tail fuel table nextOffset

def removeAt (offset : ℕ) : Option (ListQueue E × ℕ) :=
  let startDistance := mask q.table.length (offset - q.head)
  let endDistance := mask q.table.length (q.tail - offset)
  if startDistance < endDistance then do
    let table ← moveFromStart q.head (q.table.length + 1) q.table offset
    let table ← setAt table q.head none
    some ({ q with table := table, head := mask q.table.length (q.head + 1) }, mask q.table.length (offset + 1))
  else do
    let tail := mask q.table.length (q.tail - 1)
    let table ← moveFromEnd tail (q.table.length + 1) q.table offset
    let table ← setAt table tail none
    some ({ q with table := table, tail := tail }, offset)

def removeLoop (isValue : E → Bool) : ℕ → ℕ → Option (ListQueue E × Bool)
  | 0, _ => none
  | fuel + 1, i =>
    if i = q.tail then some (q, false)
    else do
      let element ← q.read i
      if isValue element then do
        let (q, _) ← q.removeAt i
        some ({ q with modificationCount := q.modificationCount + 1 }, true)
      else removeLoop isValue fuel (mask q.table.length (i + 1))

def remove (isValue : E → Bool) : Option (ListQueue E × Bool) :=
  q.removeLoop isValue (q.table.length + 1) q.head

def filterLoop (test : E → Bool) (removeMatching : Bool) : ℕ → ListQueue E → ℕ → ℕ → Option (ListQueue E)
  | 0, _, _, _ => none
  | fuel + 1, q, modificationCount, i =>
    if i = q.tail then some q
    else do
      let element ← q.read i
      let remove := removeMatching == test element
      if modificationCount ≠ q.modificationCount then none
      else if remove then do
        let (q, i) ← q.removeAt i
        let q := { q with modificationCount := q.modificationCount + 1 }
        filterLoop test removeMatching fuel q q.modificationCount i
      else
        filterLoop test removeMatching fuel q modificationCount (mask q.table.length (i + 1))

def filterWhere (test : E → Bool) (removeMatching : Bool) : Option (ListQueue E) :=
  filterLoop test removeMatching (q.table.length + 1) q q.modificationCount q.head

def removeWhere (test : E → Bool) : Option (ListQueue E) := q.filterWhere test true

def retainWhere (test : E → Bool) : Option (ListQueue E) := q.filterWhere test false

def clearLoop (tail : ℕ) : ℕ → List (Option E) → ℕ → Option (List (Option E))
  | 0, _, _ => none
  | fuel + 1, table, i =>
    if i = tail then some table
    else do
      let table ← setAt table i none
      clearLoop tail fuel table (mask table.length (i + 1))

def clear : Option (ListQueue E) :=
  if q.head ≠ q.tail then do
    let table ← clearLoop q.tail (q.table.length + 1) q.table q.head
    some ⟨table, 0, 0, q.modificationCount + 1⟩
  else some q

def removeFirst : Option (ListQueue E × Option E) :=
  if q.head = q.tail then some (q, none)
  else do
    let result ← q.read q.head
    let table ← setAt q.table q.head none
    some (⟨table, mask table.length (q.head + 1), q.tail, q.modificationCount + 1⟩, some result)

def removeLast : Option (ListQueue E × Option E) :=
  if q.head = q.tail then some (q, none)
  else do
    let tail := mask q.table.length (q.tail - 1)
    let result ← q.read tail
    let table ← setAt q.table tail none
    some (⟨table, q.head, tail, q.modificationCount + 1⟩, some result)

/-- `moveNext` of an iterator with the given `_end` and `_modificationCount` until it returns
`false`, with the elements that it gives. -/
def iterateFrom (stop modificationCount : ℕ) : ℕ → ℕ → Option (List E)
  | 0, _ => none
  | fuel + 1, position =>
    if modificationCount ≠ q.modificationCount then none
    else if position = stop then some []
    else do
      let current ← q.read position
      let rest ← iterateFrom stop modificationCount fuel (mask q.table.length (position + 1))
      some (current :: rest)

def iterate : Option (List E) :=
  q.iterateFrom q.tail q.modificationCount (q.table.length + 1) q.head

end ListQueue
end DartSdk.Queue
