import DartSdk.CompactHash.HashBase

namespace DartSdk.CompactHash
variable {K : Type}

abbrev LinkedHashSet (K : Type) := HashFieldBase (Slot K Empty)

namespace LinkedHashSet
variable (H : EqualsAndHashCode K) (has63BitSmis : Bool)

def empty : LinkedHashSet K := .uninitialized 0

def length (s : LinkedHashSet K) : ℕ := s.usedData - s.deletedKeys

def isEmpty (s : LinkedHashSet K) : Bool := s.length = 0

def clear (s : LinkedHashSet K) : LinkedHashSet K :=
  if s.isEmpty then s else .uninitialized s.allocated

def firstAt (s : LinkedHashSet K) : List ℕ → Option K
  | [] => none
  | offset :: offsets =>
    match s.data[offset]? with
    | some (.key k) => some k
    | _ => s.firstAt offsets

def first (s : LinkedHashSet K) : Option K := s.firstAt (List.range s.usedData)

def last (s : LinkedHashSet K) : Option K := s.firstAt (List.range s.usedData).reverse

def isKey (s : LinkedHashSet K) (key : K) (d : ℕ) : Bool :=
  match s.data[d]? with
  | some (.key k) => H.equals key k
  | _ => false

def copyEntries (addKey : LinkedHashSet K → K → ℕ → Option (LinkedHashSet K × Bool))
    (oldData : List (Slot K Empty)) (oldUsed : ℕ) (s : LinkedHashSet K) :
    Option (LinkedHashSet K) :=
  (List.range oldUsed).foldlM (fun s (i : ℕ) =>
      match oldData[i]? with
      | some .deleted => some s
      | some (.key k) => (addKey s k (H.hashCode k)).map Prod.fst
      | _ => none)
    s

def init (addKey : LinkedHashSet K → K → ℕ → Option (LinkedHashSet K × Bool))
    (size hashMask : ℕ) (s : LinkedHashSet K) : Option (LinkedHashSet K) :=
  let (size, hashMask) := initSize has63BitSmis size hashMask
  copyEntries H addKey s.data s.usedData {
    index := List.replicate size unusedPair
    hashMask := hashMask
    data := List.replicate (size >>> 1) .null
    dataId := s.allocated + 1
    usedData := 0
    deletedKeys := 0
    allocated := s.allocated + 1 }

def rehash (addKey : LinkedHashSet K → K → ℕ → Option (LinkedHashSet K × Bool))
    (s : LinkedHashSet K) : Option (LinkedHashSet K) :=
  if s.deletedKeys <<< 1 > s.usedData then init H has63BitSmis addKey s.index.length s.hashMask s
  else init H has63BitSmis addKey (s.index.length <<< 1) (s.hashMask >>> 1) s

def addWithHash : ℕ → LinkedHashSet K → K → ℕ → Option (LinkedHashSet K × Bool)
  | 0, _, _, _ => none
  | fuel + 1, s, key, fullHash => do
    let hashPattern := hashPattern fullHash s.hashMask s.index.length
    let p ← search s.index hashPattern fullHash (s.isKey H key)
    match p.entry with
    | some _ => some (s, false)
    | none =>
      if s.usedData = s.data.length then do
        let s ← s.rehash H has63BitSmis (addWithHash fuel)
        let (s, _) ← addWithHash fuel s key fullHash
        some (s, true)
      else do
        let index ← storePair s.index p.insertionPoint hashPattern s.usedData
        some ({ s with
          index := index
          data := s.data.set s.usedData (.key key)
          usedData := s.usedData + 1 }, true)

def add (s : LinkedHashSet K) (key : K) : Option (LinkedHashSet K × Bool) :=
  s.addWithHash H has63BitSmis 2 key (H.hashCode key)

def getKeyOrData (s : LinkedHashSet K) (key : K) : Option (Option K) := do
  let fullHash := H.hashCode key
  let p ← search s.index (hashPattern fullHash s.hashMask s.index.length) fullHash (s.isKey H key)
  match p.entry with
  | none => some none
  | some d =>
    match s.data[d]? with
    | some (.key k) => some (some k)
    | _ => none

def lookup (s : LinkedHashSet K) (key : K) : Option (Option K) := s.getKeyOrData H key

def contains (s : LinkedHashSet K) (key : K) : Option Bool :=
  (s.getKeyOrData H key).map Option.isSome

def remove (s : LinkedHashSet K) (key : K) : Option (LinkedHashSet K × Bool) := do
  let fullHash := H.hashCode key
  let p ← search s.index (hashPattern fullHash s.hashMask s.index.length) fullHash (s.isKey H key)
  match p.entry with
  | none => some (s, false)
  | some d =>
    some ({ s with
      index := s.index.set p.slot deletedPair
      data := s.data.set d .deleted
      deletedKeys := s.deletedKeys + 1 }, true)

end LinkedHashSet
end DartSdk.CompactHash
