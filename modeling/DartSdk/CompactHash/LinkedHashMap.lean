import DartSdk.CompactHash.HashBase

namespace DartSdk.CompactHash
variable {K V : Type}

abbrev LinkedHashMap (K V : Type) := HashFieldBase (Slot K V)

namespace LinkedHashMap
variable (H : EqualsAndHashCode K) (has63BitSmis : Bool)

def empty : LinkedHashMap K V := .uninitialized 0

def length (s : LinkedHashMap K V) : ℕ := (s.usedData >>> 1) - s.deletedKeys

def isEmpty (s : LinkedHashMap K V) : Bool := s.length = 0

def clear (s : LinkedHashMap K V) : LinkedHashMap K V :=
  if s.isEmpty then s else .uninitialized s.allocated

def isKey (s : LinkedHashMap K V) (key : K) (entry : ℕ) : Bool :=
  match s.data[entry <<< 1]? with
  | some (.key k) => H.equals key k
  | _ => false

def findValueOrInsertPoint (key : K) (fullHash hashPattern : ℕ) (s : LinkedHashMap K V) :
    Option ℤ := do
  let p ← search s.index hashPattern fullHash (s.isKey H key)
  match p.entry with
  | some entry => some ((entry <<< 1 : ℕ) + 1)
  | none => some (-(p.insertionPoint : ℤ))

def copyEntries (setEntry : LinkedHashMap K V → K → V → ℕ → Option (LinkedHashMap K V))
    (oldData : List (Slot K V)) (oldUsed : ℕ) (s : LinkedHashMap K V) :
    Option (LinkedHashMap K V) :=
  (List.range (oldUsed / 2)).foldlM (fun s (j : ℕ) =>
      match oldData[2 * j]?, oldData[2 * j + 1]? with
      | some .deleted, _ => some s
      | some (.key k), some (.value v) => setEntry s k v (H.hashCode k)
      | _, _ => none)
    s

def init (setEntry : LinkedHashMap K V → K → V → ℕ → Option (LinkedHashMap K V))
    (size hashMask : ℕ) (s : LinkedHashMap K V) : Option (LinkedHashMap K V) := do
  let (size, hashMask) := initSize has63BitSmis size hashMask
  guard (size &&& (size - 1) = 0)
  copyEntries H setEntry s.data s.usedData {
    index := List.replicate size unusedPair
    hashMask := hashMask
    data := List.replicate size .null
    dataId := s.allocated + 1
    usedData := 0
    deletedKeys := 0
    allocated := s.allocated + 1 }

def rehash (setEntry : LinkedHashMap K V → K → V → ℕ → Option (LinkedHashMap K V))
    (s : LinkedHashMap K V) : Option (LinkedHashMap K V) :=
  if s.deletedKeys <<< 2 > s.usedData then init H has63BitSmis setEntry s.index.length s.hashMask s
  else init H has63BitSmis setEntry (s.index.length <<< 1) (s.hashMask >>> 1) s

def insert (setEntry : LinkedHashMap K V → K → V → ℕ → Option (LinkedHashMap K V))
    (key : K) (value : V) (fullHash hashPattern i : ℕ) (s : LinkedHashMap K V) :
    Option (LinkedHashMap K V) :=
  if s.usedData = s.data.length then do
    let s ← rehash H has63BitSmis setEntry s
    setEntry s key value fullHash
  else do
    let index ← storePair s.index i hashPattern (s.usedData >>> 1)
    some { s with
      index := index
      data := (s.data.set s.usedData (.key key)).set (s.usedData + 1) (.value value)
      usedData := s.usedData + 2 }

def setWithHash : ℕ → LinkedHashMap K V → K → V → ℕ → Option (LinkedHashMap K V)
  | 0, _, _, _, _ => none
  | fuel + 1, s, key, value, fullHash => do
    let hashPattern := hashPattern fullHash s.hashMask s.index.length
    let d ← s.findValueOrInsertPoint H key fullHash hashPattern
    if d > 0 then some { s with data := s.data.set d.toNat (.value value) }
    else s.insert H has63BitSmis (setWithHash fuel) key value fullHash hashPattern (-d).toNat

def set (s : LinkedHashMap K V) (key : K) (value : V) : Option (LinkedHashMap K V) :=
  s.setWithHash H has63BitSmis 2 key value (H.hashCode key)

def putIfAbsent (s : LinkedHashMap K V) (key : K) (value : V) : Option (LinkedHashMap K V × V) := do
  let fullHash := H.hashCode key
  let hashPattern := hashPattern fullHash s.hashMask s.index.length
  let d ← s.findValueOrInsertPoint H key fullHash hashPattern
  if d > 0 then
    match s.data[d.toNat]? with
    | some (.value v) => some (s, v)
    | _ => none
  else if s.isModifiedSince s.dataId s.checkSum then do
    let s ← s.set H has63BitSmis key value
    some (s, value)
  else do
    let s ← s.insert H has63BitSmis (setWithHash H has63BitSmis 1) key value fullHash hashPattern (-d).toNat
    some (s, value)

def remove (s : LinkedHashMap K V) (key : K) : Option (LinkedHashMap K V × Option V) := do
  let fullHash := H.hashCode key
  let p ← search s.index (hashPattern fullHash s.hashMask s.index.length) fullHash (s.isKey H key)
  match p.entry with
  | none => some (s, none)
  | some entry =>
    let d := entry <<< 1
    match s.data[d + 1]? with
    | some (.value v) =>
      some ({ s with
        index := s.index.set p.slot deletedPair
        data := (s.data.set d .deleted).set (d + 1) .deleted
        deletedKeys := s.deletedKeys + 1 }, some v)
    | _ => none

def getValueOrData (s : LinkedHashMap K V) (key : K) : Option (Option V) := do
  let fullHash := H.hashCode key
  let p ← search s.index (hashPattern fullHash s.hashMask s.index.length) fullHash (s.isKey H key)
  match p.entry with
  | none => some none
  | some entry =>
    match s.data[(entry <<< 1) + 1]? with
    | some (.value v) => some (some v)
    | _ => none

def containsKey (s : LinkedHashMap K V) (key : K) : Option Bool :=
  (s.getValueOrData H key).map Option.isSome

def get (s : LinkedHashMap K V) (key : K) : Option (Option V) := s.getValueOrData H key

def forEach (s : LinkedHashMap K V) : Option (List (K × V)) :=
  (List.range (s.usedData / 2)).foldlM (fun calls (j : ℕ) =>
      match s.data[2 * j]?, s.data[2 * j + 1]? with
      | some .deleted, _ => some calls
      | some (.key k), some (.value v) => some (calls ++ [(k, v)])
      | _, _ => none)
    []

def addAll (s other : LinkedHashMap K V) : Option (LinkedHashMap K V) := do
  let (s, copied) ← if s.isEmpty then s.quickCopy other else some (s, false)
  if copied then some s
  else do
    let entries ← other.forEach
    entries.foldlM (fun s x => s.set H has63BitSmis x.1 x.2) s

end LinkedHashMap
end DartSdk.CompactHash
