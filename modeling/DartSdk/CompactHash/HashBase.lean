import Mathlib.Data.Nat.Bitwise

/-!
`_HashBase` of `compact_hash.dart`: the words of the index and the probe loop.  A hash code is its
two's complement bit pattern; only the bits below a mask are ever used.
-/

namespace DartSdk.CompactHash

structure EqualsAndHashCode (K : Type) where
  equals : K → K → Bool
  hashCode : K → ℕ
  refl : ∀ a, equals a a = true
  symm : ∀ {a b}, equals a b = true → equals b a = true
  trans : ∀ {a b c}, equals a b = true → equals b c = true → equals a c = true
  consistent : ∀ {a b}, equals a b = true → hashCode a = hashCode b

def initialIndexSize : ℕ := 1 <<< (2 + 1)

def uninitializedIndexSize : ℕ := 1

def uninitializedHashMask : ℕ := 0

def unusedPair : ℕ := 0

def deletedPair : ℕ := 1

def uninitializedIndex : List ℕ := List.replicate uninitializedIndexSize unusedPair

def indexSizeToHashMask (has63BitSmis : Bool) (indexSize : ℕ) : ℕ :=
  if indexSize = uninitializedIndexSize then uninitializedHashMask
  else
    let indexBits := indexSize.size - 2
    if has63BitSmis then (1 <<< (32 - indexBits)) - 1 else (1 <<< (30 - indexBits)) - 1

def initSize (has63BitSmis : Bool) (size hashMask : ℕ) : ℕ × ℕ :=
  if size < initialIndexSize then
    (initialIndexSize, indexSizeToHashMask has63BitSmis initialIndexSize)
  else (size, hashMask)

def hashPattern (fullHash hashMask size : ℕ) : ℕ :=
  let maskedHash := fullHash &&& hashMask
  if maskedHash = 0 then size >>> 1 else maskedHash * (size >>> 1)

def firstProbe (fullHash sizeMask : ℕ) : ℕ :=
  let i := fullHash &&& sizeMask
  ((i <<< 1) + i) &&& sizeMask

def nextProbe (i sizeMask : ℕ) : ℕ := (i + 1) &&& sizeMask

structure Probe where
  slot : ℕ
  entry : Option ℕ
  firstDeleted : ℤ

/-- The loop `while (pair != _UNUSED_PAIR)` of all the operations.  `isKey` compares the key of an
entry.  A loop that has seen every slot does not end. -/
def probe (index : List ℕ) (hashPattern : ℕ) (isKey : ℕ → Bool) : ℕ → ℕ → ℤ → Option Probe
  | 0, _, _ => none
  | fuel + 1, i, firstDeleted =>
    match index[i]? with
    | none => none
    | some pair =>
      if pair = unusedPair then some ⟨i, none, firstDeleted⟩
      else if pair = deletedPair then
        probe index hashPattern isKey fuel (nextProbe i (index.length - 1))
          (if firstDeleted < 0 then i else firstDeleted)
      else
        let entry := hashPattern ^^^ pair
        if entry < index.length >>> 1 && isKey entry then some ⟨i, some entry, firstDeleted⟩
        else probe index hashPattern isKey fuel (nextProbe i (index.length - 1)) firstDeleted

def search (index : List ℕ) (hashPattern fullHash : ℕ) (isKey : ℕ → Bool) : Option Probe :=
  probe index hashPattern isKey index.length (firstProbe fullHash (index.length - 1)) (-1)

def Probe.insertionPoint (p : Probe) : ℕ :=
  if 0 ≤ p.firstDeleted then p.firstDeleted.toNat else p.slot

def storePair (index : List ℕ) (i hashPattern entry : ℕ) : Option (List ℕ) := do
  guard (1 ≤ hashPattern ∧ hashPattern < 1 <<< 32)
  guard (entry &&& hashPattern = 0)
  some (index.set i ((hashPattern ||| entry) % 2 ^ 32))

/-- The fields of `_HashAbstractBase`.  `dataId` is the identity of the list `_data`, `0` that of
`_uninitializedData`; `allocated` counts the lists allocated so far. -/
structure HashFieldBase (S : Type) where
  index : List ℕ
  hashMask : ℕ
  data : List S
  dataId : ℕ
  usedData : ℕ
  deletedKeys : ℕ
  allocated : ℕ

inductive Slot (K V : Type)
  | null
  | deleted
  | key (k : K)
  | value (v : V)
deriving DecidableEq

namespace HashFieldBase
variable {S : Type}

def uninitialized (allocated : ℕ) : HashFieldBase S where
  index := uninitializedIndex
  hashMask := uninitializedHashMask
  data := []
  dataId := 0
  usedData := 0
  deletedKeys := 0
  allocated := allocated

def checkSum (s : HashFieldBase S) : ℕ := s.usedData + s.deletedKeys

def isModifiedSince (s : HashFieldBase S) (oldData oldCheckSum : ℕ) : Bool :=
  s.dataId ≠ oldData || s.checkSum ≠ oldCheckSum

def quickCopy (s other : HashFieldBase S) : Option (HashFieldBase S × Bool) :=
  if s.index ≠ uninitializedIndex then some (s, false)
  else if other.usedData = 0 then some (s, true)
  else if other.deletedKeys ≠ 0 then some (s, false)
  else do
    guard (other.index ≠ uninitializedIndex)
    guard (other.dataId ≠ 0)
    some ({
      index := other.index
      hashMask := other.hashMask
      data := other.data
      dataId := s.allocated + 1
      usedData := other.usedData
      deletedKeys := other.deletedKeys
      allocated := s.allocated + 1 }, true)

end HashFieldBase
end DartSdk.CompactHash
