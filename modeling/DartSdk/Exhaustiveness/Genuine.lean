import DartSdk.Exhaustiveness.Sound

namespace DartSdk.Exhaustiveness
open List Option Function
variable {T Name V : Type} {S : StaticTypes T Name} {U : Values S V} {fuel : ℕ}

section
variable (U)

/-- Values can be chosen freely: a type that is not sealed has either no value, as `Never`, or with any values of its
fields one that belongs to no other type than its supertypes. -/
structure Free : Prop where
  subtype : ∀ {t s}, S.isSealed t = true → s ∈ S.subtypes t → S.isSubtypeOf s t = true
  value : ∀ {t}, S.isSealed t = false → (∃ v, U.Mem t v) → ∀ f : Name → V,
    (∀ name, U.Mem ((S.fields t name).getD S.nullableObject) (f name)) →
      ∃ v, U.field v = f ∧ U.Mem t v ∧ ∀ s, U.Mem s v → S.isSubtypeOf t s = true

def fieldAt (v : V) (path : List Name) : V := path.foldl U.field v

/-- The predicate is about one of the values, each with its path. -/
def Holds (columns : List ((T × List Name) × V)) (predicate : Predicate T Name) : Prop :=
  ∃ c ∈ columns, ∃ path, predicate.path = c.1.2 ++ path ∧ U.Mem predicate.type (fieldAt U c.2 path)

end

lemma firstWitness_some {α W : Type} {search : α → Option (Option W)} {as : List α} {w : W}
    (h : firstWitness search as = some (some w)) : ∃ a ∈ as, search a = some (some w) := by
  induction as with
  | nil => cases h
  | cons a as ih =>
    rw [firstWitness] at h
    obtain ⟨r, hr, h⟩ := bind_eq_some_iff.1 h
    cases r with
    | some w' => exact ⟨a, mem_cons_self, hr.trans h⟩
    | none =>
      obtain ⟨b, hb, hw⟩ := ih h
      exact ⟨b, mem_cons_of_mem _ hb, hw⟩

lemma mem_expandSealedSubtypes [DecidableEq T] (hfree : Free U) {t s : T} {subtypes : List T}
    (h : expandSealedSubtypes S fuel t = some subtypes) (hs : s ∈ subtypes) :
    S.isSealed s = false ∧ ∀ v, U.Mem s v → U.Mem t v := by
  induction fuel generalizing t subtypes with
  | zero => cases h
  | succ fuel ih =>
    rw [expandSealedSubtypes] at h
    split_ifs at h with hsea
    · obtain ⟨lists, hlists, h⟩ := bind_eq_some_iff.1 h
      obtain rfl : lists.flatten.eraseDups = subtypes := by simpa using h
      obtain ⟨list, hlist, hs⟩ := mem_flatten.1 (mem_eraseDups.1 hs)
      obtain ⟨t', ht', hexp⟩ := List.mem_map.1 (map_eq_of_mapM hlists ▸ mem_map_of_mem hlist)
      obtain ⟨hleaf, hmem⟩ := ih hexp hs
      exact ⟨hleaf, fun v hv => U.mem_of_isSubtypeOf t' t v (hfree.subtype hsea ht') (hmem v hv)⟩
    · obtain rfl : [t] = subtypes := by simpa using h
      obtain rfl := mem_singleton.1 hs
      exact ⟨eq_false_of_ne_true hsea, fun _ hv => hv⟩

/-- Values for distinct names, as one function with a default. -/
lemma exists_map_eq [DecidableEq Name] {names : List Name} (hn : names.Nodup) (g : Name → V) {vs : List V}
    (h : vs.length = names.length) : ∃ f, names.map f = vs ∧ ∀ name ∉ names, f name = g name := by
  induction names generalizing vs with
  | nil => exact ⟨g, (length_eq_zero_iff.1 h).symm, fun _ _ => rfl⟩
  | cons name names ih =>
    cases vs with
    | nil => cases h
    | cons v vs =>
      obtain ⟨hname, hn⟩ := nodup_cons.1 hn
      obtain ⟨f, hf, hg⟩ := ih hn (Nat.succ.inj h)
      refine ⟨update f name v, ?_, fun other hother => ?_⟩
      · rw [map_cons, update_self, ← hf]
        exact congrArg _ (map_congr_left fun a ha => update_of_ne (ne_of_mem_of_not_mem ha hname) v f)
      · obtain ⟨hne, hother⟩ := not_or.1 (mt mem_cons.2 hother)
        rw [update_of_ne hne, hg other hother]

section
variable [DecidableEq T] [LinearOrder Name]

def column (c : T × List Name) : Patterns T Name := [.mk c.1 [] c.2]

/-- The predicates collected so far stay in the witness. -/
lemma subset_of_unmatched {caseRows : List (List (Patterns T Name))} {valuePatterns : List (Patterns T Name)}
    {w w' : List (Predicate T Name)} (h : unmatched S fuel caseRows valuePatterns w = some (some w')) : w ⊆ w' := by
  induction fuel generalizing caseRows valuePatterns w with
  | zero => cases h
  | succ fuel ih =>
    cases valuePatterns with
    | nil =>
      rw [unmatched] at h
      split_ifs at h with hrows
      · obtain rfl := some.inj (some.inj h)
        exact Subset.refl _
      · cases h
    | cons first rest =>
      obtain ⟨p, -, h⟩ := firstWitness_some h
      obtain ⟨subtypes, -, h⟩ := bind_eq_some_iff.1 h
      obtain ⟨s, -, h⟩ := firstWitness_some h
      obtain ⟨remaining, -, h⟩ := bind_eq_some_iff.1 h
      exact fun predicate hin => ih h (mem_append_left _ hin)

/-- A failed search whose witness names no empty type has values for its columns that no row matches. -/
lemma unmatched_genuine (hfree : Free U) {caseRows : List (List (Patterns T Name))} {cols : List (T × List Name)}
    {w w' : List (Predicate T Name)} (h : unmatched S fuel caseRows (cols.map column) w = some (some w'))
    (hw : ∀ predicate ∈ w', ∃ v, U.Mem predicate.type v) :
    ∃ vs, List.Forall₂ (fun c v => U.Mem c.1 v) cols vs ∧ (∀ row ∈ caseRows, ¬List.Forall₂ (Matches U) row vs) ∧
      ∀ predicate ∈ w', predicate ∈ w ∨ Holds U (cols.zip vs) predicate := by
  induction fuel generalizing caseRows cols w with
  | zero => cases h
  | succ fuel ih =>
    cases cols with
    | nil =>
      rw [map_nil, unmatched] at h
      split_ifs at h with hrows
      · obtain rfl := some.inj (some.inj h)
        rw [isEmpty_iff.1 hrows]
        exact ⟨[], .nil, fun _ hrow => absurd hrow not_mem_nil, fun _ => .inl⟩
      · cases h
    | cons c cols =>
      obtain ⟨t, path⟩ := c
      rw [map_cons, unmatched] at h
      obtain ⟨p, hp, h⟩ := firstWitness_some h
      obtain rfl := mem_singleton.1 hp
      obtain ⟨subtypes, hsubs, h⟩ := bind_eq_some_iff.1 h
      obtain ⟨s, hs, h⟩ := firstWitness_some h
      obtain ⟨hleaf, hmem⟩ := mem_expandSealedSubtypes hfree hsubs hs
      obtain ⟨remaining, hrem, h⟩ := bind_eq_some_iff.1 h
      dsimp only at h
      generalize hnames : sortedFieldNames (.mk t [] path) remaining = names at h
      have hnodup : names.Nodup := by
        rw [← hnames, sortedFieldNames, (mergeSort_perm _ _).nodup_iff]
        exact nodup_dedup _
      let field := fun name => ((S.fields s name).getD S.nullableObject, path ++ [name])
      have hexp : expandFields S names (.mk t [] path) s ++ cols.map column = (names.map field ++ cols).map column := by
        rw [map_append, List.map_map]
        rfl
      rw [hexp] at h
      obtain ⟨values, hvalues, hrows, hpred⟩ := ih h
      obtain ⟨us, vs, rfl, hus, hvs⟩ : ∃ us vs, values = us ++ vs ∧
          List.Forall₂ (fun c v => U.Mem c.1 v) (names.map field) us ∧ List.Forall₂ (fun c v => U.Mem c.1 v) cols vs :=
        ⟨_, _, (take_append_drop _ values).symm, (forall₂_take_append _ _ _ hvalues.flip).flip,
          (forall₂_drop_append _ _ _ hvalues.flip).flip⟩
      -- The fields that no row tests keep the values they have in some value of the type.
      obtain ⟨v0, hv0⟩ : ∃ v, U.Mem s v := hw _ (subset_of_unmatched h (mem_append_right _ mem_cons_self))
      obtain ⟨f, rfl, hf⟩ := exists_map_eq hnodup (U.field v0) (by simpa using hus.length_eq.symm)
      rw [forall₂_map_left_iff, forall₂_map_right_iff, forall₂_same] at hus
      have hfmem : ∀ name, U.Mem ((S.fields s name).getD S.nullableObject) (f name) := by
        intro name
        by_cases hname : name ∈ names
        · exact hus name hname
        · rw [hf name hname]
          cases hfs : S.fields s name with
          | none => exact U.mem_nullableObject _
          | some r => exact U.field_mem s name r v0 hfs hv0
      obtain ⟨v, rfl, hv, honly⟩ := hfree.value hleaf ⟨v0, hv0⟩ f hfmem
      refine ⟨v :: vs, .cons (hmem v hv) hvs, fun row hrow hmatch => ?_, fun predicate hin => ?_⟩
      · cases hmatch with
        | @cons first _ rest _ hfirst hrest =>
          obtain ⟨hp, hpv, hfie⟩ := hfirst
          have hkept : (_, rest) ∈ remaining := (mem_remainingRows hrem).2 ⟨first, hrow, hp, honly _ hpv⟩
          exact hrows _ (mem_map.2 ⟨_, hkept, rfl⟩) (rel_append (expandFields_matches hpv hfie names) hrest)
      · rcases hpred predicate hin with hin | ⟨c, hc, rest, hpath, hty⟩
        · rcases mem_append.1 hin with hin | hin
          · exact .inl hin
          · obtain rfl := mem_singleton.1 hin
            exact .inr ⟨_, mem_cons_self, [], (append_nil _).symm, hv⟩
        · rw [zip_append (by simp), mem_append, zip_map', List.mem_map] at hc
          rcases hc with ⟨name, -, rfl⟩ | hc
          · exact .inr ⟨_, mem_cons_self, name :: rest, by simpa [field] using hpath, hty⟩
          · exact .inr ⟨c, mem_cons_of_mem _ hc, rest, hpath, hty⟩

/-- The value is in none of the cases, and the predicates of the witness hold of it. -/
def Genuine (U : Values S V) (valueType : T) (caseSpaces : List (Space T Name)) (witness : List (Predicate T Name))
    (v : V) : Prop :=
  U.Mem valueType v ∧ (∀ space ∈ caseSpaces, ¬Contains U space v) ∧
    ∀ p ∈ witness, U.Mem p.type (fieldAt U v p.path)

end

/-- A sealed `shape` with the subtypes `square` and `circle`, whose one field is a square. -/
inductive ShapeType
  | never | shape | circle | square | object
  deriving DecidableEq

open ShapeType

def shapeTypes : StaticTypes ShapeType Unit where
  isSealed t := t = shape
  subtypes t := if t = shape then [circle, square] else []
  isSubtypeOf s t := s = t || s = never || t = object || (t = shape && (s = circle || s = square))
  fields t _ := if t = circle then some square else none
  nullableObject := object
  acyclic := by
    refine Subrelation.wf (r := InvImage (· < ·) fun t => if t = shape then 1 else 0) (fun {s t} => ?_)
      (InvImage.wf _ wellFounded_lt)
    cases s <;> cases t <;> simp [InvImage]

/-- The class of a value, of its field, of the field of that, and so on. -/
abbrev ShapeValue := ℕ → ShapeType

def ShapeType.Mem (v : ShapeValue) : ShapeType → Prop
  | never => False
  | shape => v 0 = circle ∧ v 1 = square ∨ v 0 = square
  | circle => v 0 = circle ∧ v 1 = square
  | square => v 0 = square
  | object => True

def shapeValues : Values shapeTypes ShapeValue where
  Mem t v := t.Mem v
  field v _ n := v (n + 1)
  covered t v := by cases t <;> simp [shapeTypes, ShapeType.Mem]
  mem_of_isSubtypeOf s t v := by cases s <;> cases t <;> simp +contextual [shapeTypes, ShapeType.Mem]
  field_mem t name fieldType v := by cases t <;> cases fieldType <;> simp +contextual [shapeTypes, ShapeType.Mem]
  mem_nullableObject _ := trivial

lemma shapeValues_free : Free shapeValues where
  subtype {t s} := by cases t <;> cases s <;> simp [shapeTypes]
  value {t} hleaf hv f hf := by
    refine ⟨fun n => n.casesOn t (f ()), ?_, ?_, ?_⟩
    · funext name n
      rfl
    · have hf := hf ()
      cases t <;> simp_all [shapeTypes, shapeValues, ShapeType.Mem]
    · intro s
      cases t <;> cases s <;> simp_all [shapeTypes, shapeValues, ShapeType.Mem]

def shapeCases : List (Space ShapeType Unit) :=
  [.extract (.mk square []), .extract (.mk circle [((), .extract (.mk never []))])]

lemma reportErrors_shape : reportErrors shapeTypes 4 shape shapeCases =
    some [.nonExhaustive shape shapeCases [⟨[], circle⟩, ⟨[()], square⟩]] := by
  simp [reportErrors, unreachableCases, unmatched, firstWitness, expandSealedSubtypes, shapeTypes, shapeCases,
    filterByType, remainingRows, sortedFieldNames, expandFields, spaceToPatterns, extractSpaceToPattern,
    fieldsToPatterns, Pattern.type, Pattern.fields, Pattern.path, eraseDups_cons]

end DartSdk.Exhaustiveness
