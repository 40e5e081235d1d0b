import Mathlib.Data.List.Dedup
import Mathlib.Order.WellFounded

/-!
The exhaustiveness check of switches: spaces, the pattern rows they are turned into, and the search
for a value that no row matches.
-/

namespace DartSdk.Exhaustiveness

structure StaticTypes (T Name : Type) where
  isSealed : T → Bool
  subtypes : T → List T
  isSubtypeOf : T → T → Bool
  fields : T → Name → Option T
  /-- The type of all values, `Object?`. -/
  nullableObject : T
  /-- A sealed type is expanded into its subtypes, those of them that are sealed into theirs, and so on: the declared
  types are finitely many and a class is no supertype of its own supertypes, so the expansion ends. -/
  acyclic : WellFounded fun s t => isSealed t = true ∧ s ∈ subtypes t

section

mutual

inductive ExtractSpace (T Name : Type) where
  | mk (type : T) (fields : List (Name × Space T Name))

inductive Space (T Name : Type) where
  | extract (space : ExtractSpace T Name)
  | union (arms : List (ExtractSpace T Name))

end

/-- The types that `Space.union` knows by name. -/
structure NullTypes (T : Type) where
  neverType : T
  nullType : T
  nullable : T → T

namespace Space
variable {T Name : Type}

def arms : Space T Name → List (ExtractSpace T Name)
  | .extract space => [space]
  | .union arms => arms

variable (types : NullTypes T) [DecidableEq T]

def empty : Space T Name := .extract (.mk types.neverType [])

def addSpace (equal : ExtractSpace T Name → ExtractSpace T Name → Bool) (allArms : List (ExtractSpace T Name))
    (space : ExtractSpace T Name) : List (ExtractSpace T Name) :=
  if allArms.any (equal · space) then allArms else allArms ++ [space]

/-- The factory `Space.union`. `isEmpty` is the identity with `Space.empty`, `equal` the comparison of arms. -/
def ofArms (isEmpty : Space T Name → Bool) (equal : ExtractSpace T Name → ExtractSpace T Name → Bool)
    (arms : List (Space T Name)) : Space T Name :=
  let allArms := (arms.filter fun space => !isEmpty space).foldl (fun all space => space.arms.foldl (addSpace equal) all) []
  match allArms with
  | [] => empty types
  | [arm] => .extract arm
  | [.mk type fields, .mk type' fields'] =>
    if type = types.nullType ∧ fields.isEmpty ∧ fields'.isEmpty then .extract (.mk (types.nullable type') [])
    else if type' = types.nullType ∧ fields'.isEmpty ∧ fields.isEmpty then .extract (.mk (types.nullable type) [])
    else .union allArms
  | _ => .union allArms

end Space

inductive Pattern (T Name : Type) where
  | mk (type : T) (fields : List (Name × List (Pattern T Name))) (path : List Name)

variable {T Name : Type}

abbrev Patterns (T Name : Type) := List (Pattern T Name)

def Pattern.type : Pattern T Name → T
  | .mk type _ _ => type

def Pattern.fields : Pattern T Name → List (Name × Patterns T Name)
  | .mk _ fields _ => fields

def Pattern.path : Pattern T Name → List Name
  | .mk _ _ path => path

mutual

def spaceToPatterns : Space T Name → List Name → Patterns T Name
  | .extract space, path => [extractSpaceToPattern space path]
  | .union arms, path => armsToPatterns arms path

def armsToPatterns : List (ExtractSpace T Name) → List Name → Patterns T Name
  | [], _ => []
  | arm :: arms, path => extractSpaceToPattern arm path :: armsToPatterns arms path

def extractSpaceToPattern : ExtractSpace T Name → List Name → Pattern T Name
  | .mk type fields, path => .mk type (fieldsToPatterns fields path) path

def fieldsToPatterns : List (Name × Space T Name) → List Name → List (Name × Patterns T Name)
  | [], _ => []
  | (name, space) :: fields, path => (name, spaceToPatterns space (path ++ [name])) :: fieldsToPatterns fields path

end
end

structure Predicate (T Name : Type) where
  path : List Name
  type : T

inductive ExhaustivenessError (T Name : Type) where
  | unreachableCase (valueType : T) (cases : List (Space T Name)) (index : ℕ)
  | nonExhaustive (valueType : T) (cases : List (Space T Name)) (witness : List (Predicate T Name))

def ExhaustivenessError.isNonExhaustive {T Name : Type} : ExhaustivenessError T Name → Bool
  | .unreachableCase .. => false
  | .nonExhaustive .. => true

def firstWitness {α W : Type*} (search : α → Option (Option W)) : List α → Option (Option W)
  | [] => some none
  | a :: as => do
    let result ← search a
    if result.isSome then some result else firstWitness search as

section
variable {T Name : Type} [DecidableEq T] [LinearOrder Name] (S : StaticTypes T Name)

def expandSealedSubtypes : ℕ → T → Option (List T)
  | 0, _ => none
  | fuel + 1, type =>
    if S.isSealed type then do
      let subtypes ← (S.subtypes type).mapM (expandSealedSubtypes fuel)
      some subtypes.flatten.eraseDups
    else some [type]

def expandFields (fieldNames : List Name) (pattern : Pattern T Name) (type : T) : List (Patterns T Name) :=
  fieldNames.map fun fieldName =>
    match pattern.fields.lookup fieldName with
    | some field => field
    | none => [.mk ((S.fields type fieldName).getD S.nullableObject) [] (pattern.path ++ [fieldName])]

def remainingRows (type : T) : List (List (Patterns T Name)) → Option (List (Pattern T Name × List (Patterns T Name)))
  | [] => some []
  | [] :: _ => none
  | (firstPatterns :: rest) :: caseRows => do
    let remaining ← remainingRows type caseRows
    some ((firstPatterns.filter fun p => S.isSubtypeOf type p.type).map (fun p => (p, rest)) ++ remaining)

def sortedFieldNames (firstValuePattern : Pattern T Name)
    (remaining : List (Pattern T Name × List (Patterns T Name))) : List Name :=
  (firstValuePattern.fields.map Prod.fst ++
    remaining.flatMap fun row => row.1.fields.map Prod.fst).dedup.mergeSort fun a b => decide (a ≤ b)

abbrev Search (T Name : Type) :=
  List (List (Patterns T Name)) → List (Patterns T Name) → List (Predicate T Name) →
    Option (Option (List (Predicate T Name)))

def filterByType (unmatched : Search T Name) (type : T) (caseRows : List (List (Patterns T Name)))
    (firstValuePattern : Pattern T Name) (rest : List (Patterns T Name)) (witness : List (Predicate T Name)) :
    Option (Option (List (Predicate T Name))) := do
  let remaining ← remainingRows S type caseRows
  let sorted := sortedFieldNames firstValuePattern remaining
  unmatched (remaining.map fun row => expandFields S sorted row.1 row.1.type ++ row.2)
    (expandFields S sorted firstValuePattern type ++ rest) (witness ++ [⟨firstValuePattern.path, type⟩])

def unmatched : ℕ → Search T Name
  | 0, _, _, _ => none
  | _ + 1, caseRows, [], witness => some (if caseRows.isEmpty then some witness else none)
  | fuel + 1, caseRows, firstValuePatterns :: rest, witness =>
    firstWitness (fun firstValuePattern => do
      let subtypes ← expandSealedSubtypes S fuel firstValuePattern.type
      firstWitness (fun subtype => filterByType S (unmatched fuel) subtype caseRows firstValuePattern rest witness)
        subtypes) firstValuePatterns

def unreachableCases (fuel : ℕ) (valueType : T) (caseSpaces : List (Space T Name))
    (cases : List (Patterns T Name)) : List ℕ → Option (List (ExhaustivenessError T Name))
  | [] => some []
  | index :: indices => do
    let result ← unmatched S fuel ((cases.take index).map fun patterns => [patterns]) [cases.getD index []] []
    let errors ← unreachableCases fuel valueType caseSpaces cases indices
    some (if result.isSome then errors else .unreachableCase valueType caseSpaces index :: errors)

def reportErrors (fuel : ℕ) (valueType : T) (caseSpaces : List (Space T Name)) :
    Option (List (ExhaustivenessError T Name)) := do
  let cases := caseSpaces.map fun space => spaceToPatterns space []
  let errors ← unreachableCases S fuel valueType caseSpaces cases (List.range' 1 (cases.length - 1))
  let witness ← unmatched S fuel (cases.map fun patterns => [patterns]) [[.mk valueType [] []]] []
  match witness with
  | some witness => some (errors ++ [.nonExhaustive valueType caseSpaces witness])
  | none => some errors

end
end DartSdk.Exhaustiveness
