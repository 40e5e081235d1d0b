import DartSdk.Exhaustiveness.Witness
import Mathlib.Logic.Hydra

namespace DartSdk.Exhaustiveness
open List Option
variable {T Name V : Type}
variable {valuePatterns : List (Patterns T Name)} {cases : List (Patterns T Name)} {v : V} {fuel : ℕ} {type : T}

section

structure Values (S : StaticTypes T Name) (V : Type) where
  Mem : T → V → Prop
  field : V → Name → V
  covered : ∀ t v, S.isSealed t = true → Mem t v → ∃ s ∈ S.subtypes t, Mem s v
  mem_of_isSubtypeOf : ∀ s t v, S.isSubtypeOf s t = true → Mem s v → Mem t v
  field_mem : ∀ t name fieldType v, S.fields t name = some fieldType → Mem t v → Mem fieldType (field v name)
  mem_nullableObject : ∀ v, Mem S.nullableObject v

variable {path : List Name}

lemma mem_armsToPatterns {arms : List (ExtractSpace T Name)} {p : Pattern T Name} :
    p ∈ armsToPatterns arms path ↔ ∃ arm ∈ arms, p = extractSpaceToPattern arm path := by
  induction arms with
  | nil => simp [armsToPatterns]
  | cons arm arms ih => simp [armsToPatterns, ih]

variable {S : StaticTypes T Name} [DecidableEq Name] (U : Values S V)

inductive Contains : Space T Name → V → Prop
  | extract {type : T} {fields : List (Name × Space T Name)} {v : V} : U.Mem type v →
      (∀ name space, fields.lookup name = some space → Contains space (U.field v name)) →
      Contains (.extract (.mk type fields)) v
  | union {arm : ExtractSpace T Name} {arms : List (ExtractSpace T Name)} {v : V} : arm ∈ arms →
      Contains (.extract arm) v → Contains (.union arms) v

inductive Matches : Patterns T Name → V → Prop
  | intro {p : Pattern T Name} {ps : Patterns T Name} {v : V} : p ∈ ps → U.Mem p.type v →
      (∀ name qs, p.fields.lookup name = some qs → Matches qs (U.field v name)) → Matches ps v

lemma lookup_fieldsToPatterns (fields : List (Name × Space T Name)) (path : List Name) (name : Name) :
    (fieldsToPatterns fields path).lookup name =
      (fields.lookup name).map fun space => spaceToPatterns space (path ++ [name]) := by
  induction fields with
  | nil => rfl
  | cons field fields ih =>
    obtain ⟨other, space⟩ := field
    rw [fieldsToPatterns, lookup_cons, lookup_cons]
    by_cases h : name = other
    · subst h
      simp
    · rw [beq_false_of_ne h]
      exact ih

variable {U}
variable {space : Space T Name}

lemma Contains.matches (h : Contains U space v) (path : List Name) : Matches U (spaceToPatterns space path) v := by
  induction h generalizing path with
  | @extract type fields v hmem _ ih =>
    refine .intro mem_cons_self ?_ ?_
    · rwa [extractSpaceToPattern]
    · intro name qs hqs
      rw [extractSpaceToPattern, Pattern.fields, lookup_fieldsToPatterns] at hqs
      obtain ⟨space, hspace, rfl⟩ := map_eq_some_iff.1 hqs
      exact ih name space hspace _
  | @union arm arms v harm _ ih =>
    obtain ⟨hp, hmem, hfie⟩ := ih path
    rw [mem_singleton.1 hp] at hmem hfie
    exact .intro (mem_armsToPatterns.2 ⟨arm, harm, rfl⟩) hmem hfie

lemma contains_of_matches {ps : Patterns T Name} (h : Matches U ps v)
    (hps : ps = spaceToPatterns space path) : Contains U space v := by
  induction h generalizing space path with
  | @intro p ps v hp hmem _ ih =>
    have hext : ∀ arm, p = extractSpaceToPattern arm path → Contains U (.extract arm) v := by
      rintro ⟨type, fields⟩ rfl
      refine .extract hmem fun name space hspace => ih name (spaceToPatterns space (path ++ [name])) ?_ rfl
      rw [extractSpaceToPattern, Pattern.fields, lookup_fieldsToPatterns, hspace]
      rfl
    cases space with
    | extract arm =>
      rw [hps] at hp
      exact hext arm (mem_singleton.1 hp)
    | union arms =>
      rw [hps] at hp
      obtain ⟨arm, harm, heq⟩ := mem_armsToPatterns.1 hp
      exact .union harm (hext arm heq)

lemma matches_spaceToPatterns : Matches U (spaceToPatterns space path) v ↔ Contains U space v :=
  ⟨fun h => contains_of_matches h rfl, fun h => h.matches path⟩

/-- What `Space.union` relies on: `Never` has no value, a nullable type those of the type and `null`, and its tests find
only spaces without values and arms with the same values. -/
structure UnionTests (U : Values S V) (types : NullTypes T) (isEmpty : Space T Name → Bool)
    (equal : ExtractSpace T Name → ExtractSpace T Name → Bool) : Prop where
  never : ∀ v, ¬U.Mem types.neverType v
  nullable : ∀ t v, U.Mem (types.nullable t) v ↔ U.Mem t v ∨ U.Mem types.nullType v
  isEmpty : ∀ space v, isEmpty space = true → ¬Contains U space v
  equal : ∀ arm arm' v, equal arm arm' = true → (Contains U (.extract arm) v ↔ Contains U (.extract arm') v)

lemma contains_arms : Contains U space v ↔ ∃ arm ∈ space.arms, Contains U (.extract arm) v := by
  cases space with
  | extract arm => simp [Space.arms]
  | union arms =>
    constructor
    · rintro ⟨⟩
      next arm harm h => exact ⟨arm, harm, h⟩
    · rintro ⟨arm, harm, h⟩
      exact .union harm h

lemma contains_type {t : T} : Contains U (.extract (.mk t [])) v ↔ U.Mem t v := by
  constructor
  · rintro ⟨⟩
    assumption
  · exact fun h => .extract h nofun

section
variable {types : NullTypes T} {isEmpty : Space T Name → Bool} {equal : ExtractSpace T Name → ExtractSpace T Name → Bool}
  (h : UnionTests U types isEmpty equal)
include h

lemma UnionTests.addSpace (all : List (ExtractSpace T Name)) (arm : ExtractSpace T Name) :
    (∃ a ∈ Space.addSpace equal all arm, Contains U (.extract a) v) ↔
      (∃ a ∈ all, Contains U (.extract a) v) ∨ Contains U (.extract arm) v := by
  rw [Space.addSpace]
  split_ifs with hany
  · obtain ⟨a, ha, heq⟩ := any_eq_true.1 hany
    exact ⟨.inl, fun hc => hc.elim id fun hc => ⟨a, ha, (h.equal a arm v heq).2 hc⟩⟩
  · simp [or_and_right, exists_or]

lemma UnionTests.addArms (all arms : List (ExtractSpace T Name)) :
    (∃ a ∈ arms.foldl (Space.addSpace equal) all, Contains U (.extract a) v) ↔
      (∃ a ∈ all, Contains U (.extract a) v) ∨ ∃ a ∈ arms, Contains U (.extract a) v := by
  induction arms generalizing all with
  | nil => simp
  | cons arm arms ih =>
    rw [foldl_cons, ih, h.addSpace, exists_mem_cons_iff]
    exact Iff.of_eq (Std.Associative.assoc ..)

lemma UnionTests.addSpaces (all : List (ExtractSpace T Name)) (spaces : List (Space T Name)) :
    (∃ a ∈ spaces.foldl (fun all space => space.arms.foldl (Space.addSpace equal) all) all, Contains U (.extract a) v) ↔
      (∃ a ∈ all, Contains U (.extract a) v) ∨ ∃ space ∈ spaces, Contains U space v := by
  induction spaces generalizing all with
  | nil => simp
  | cons space spaces ih =>
    rw [foldl_cons, ih, h.addArms, exists_mem_cons_iff, ← contains_arms]
    exact Iff.of_eq (Std.Associative.assoc ..)

/-- A union holds the values of its arms. -/
theorem UnionTests.contains_ofArms [DecidableEq T] (arms : List (Space T Name)) :
    Contains U (Space.ofArms types isEmpty equal arms) v ↔ ∃ space ∈ arms, Contains U space v := by
  have hkept : (∃ space ∈ arms.filter fun space => !isEmpty space, Contains U space v) ↔
      ∃ space ∈ arms, Contains U space v := by
    refine ⟨fun ⟨space, hs, hc⟩ => ⟨space, mem_of_mem_filter hs, hc⟩,
      fun ⟨space, hs, hc⟩ => ⟨space, mem_filter.2 ⟨hs, ?_⟩, hc⟩⟩
    cases he : isEmpty space with
    | true => exact absurd hc (h.isEmpty space v he)
    | false => rfl
  have hall := h.addSpaces (v := v) [] (arms.filter fun space => !isEmpty space)
  rw [hkept] at hall
  simp only [not_mem_nil, false_and, exists_false, false_or] at hall
  rw [← hall, Space.ofArms]
  generalize foldl _ _ (arms.filter fun space => !isEmpty space) = all
  split
  · simp [Space.empty, contains_type, h.never]
  · simp
  · next type fields type' fields' =>
    split_ifs with h1 h2
    · obtain ⟨rfl, hf, hf'⟩ := h1
      rw [List.isEmpty_iff.1 hf, List.isEmpty_iff.1 hf']
      simp [contains_type, h.nullable, or_comm]
    · obtain ⟨rfl, hf', hf⟩ := h2
      rw [List.isEmpty_iff.1 hf, List.isEmpty_iff.1 hf']
      simp [contains_type, h.nullable]
    · exact contains_arms
  · exact contains_arms

end

end

section
variable {α β : Type}

def Converges (f : ℕ → Option α) (a : α) : Prop := ∃ bound, ∀ fuel ≥ bound, f fuel = some a

lemma Converges.const (a : α) : Converges (fun _ => some a) a := ⟨0, fun _ _ => rfl⟩

lemma Converges.bind {f : ℕ → Option α} {g : ℕ → α → Option β} {a : α} {b : β} (hf : Converges f a)
    (hg : Converges (fun fuel => g fuel a) b) : Converges (fun fuel => f fuel >>= g fuel) b := by
  obtain ⟨m, hm⟩ := hf
  obtain ⟨n, hn⟩ := hg
  refine ⟨max m n, fun fuel hfuel => ?_⟩
  dsimp only
  rw [hm fuel (le_of_max_le_left hfuel)]
  exact hn fuel (le_of_max_le_right hfuel)

lemma Converges.succ {f g : ℕ → Option α} {a : α} (hf : Converges f a) (h : ∀ fuel, g (fuel + 1) = f fuel) :
    Converges g a := by
  obtain ⟨bound, hbound⟩ := hf
  refine ⟨bound + 1, fun fuel hfuel => ?_⟩
  obtain ⟨n, rfl⟩ : ∃ n, fuel = n + 1 := ⟨fuel - 1, by omega⟩
  rw [h]
  exact hbound n (by omega)

variable {as : List α}

lemma converges_mapM {f : ℕ → α → Option β} (h : ∀ a ∈ as, ∃ b, Converges (fun fuel => f fuel a) b) :
    ∃ bs, Converges (fun fuel => as.mapM (f fuel)) bs := by
  induction as with
  | nil => exact ⟨[], 0, fun _ _ => rfl⟩
  | cons a as ih =>
    obtain ⟨b, hb⟩ := h a mem_cons_self
    obtain ⟨bs, hbs⟩ := ih fun a ha => h a (mem_cons_of_mem _ ha)
    simp only [mapM_cons]
    exact ⟨b :: bs, hb.bind (hbs.bind (.const _))⟩

lemma converges_firstWitness {search : ℕ → α → Option (Option β)}
    (h : ∀ a ∈ as, ∃ r, Converges (fun fuel => search fuel a) r) :
    ∃ r, Converges (fun fuel => firstWitness (search fuel) as) r := by
  induction as with
  | nil => exact ⟨none, .const _⟩
  | cons a as ih =>
    obtain ⟨r, hr⟩ := h a mem_cons_self
    obtain ⟨rest, hrest⟩ := ih fun a ha => h a (mem_cons_of_mem _ ha)
    cases r with
    | none => exact ⟨rest, hr.bind hrest⟩
    | some witness => exact ⟨some witness, hr.bind (.const _)⟩

lemma firstWitness_none {search : α → Option (Option β)}
    (h : firstWitness search as = some none) {a : α} (ha : a ∈ as) : search a = some none := by
  induction as with
  | nil => exact absurd ha not_mem_nil
  | cons b as ih =>
    obtain ⟨r, hr, h⟩ := bind_eq_some_iff.1 h
    cases r with
    | some witness => simp at h
    | none =>
      rcases mem_cons.1 ha with rfl | ha
      · exact hr
      · exact ih (by simpa using h) ha

lemma map_eq_of_mapM {f : α → Option β} {bs : List β} (h : as.mapM f = some bs) : as.map f = bs.map some := by
  induction as generalizing bs with
  | nil =>
    obtain rfl : [] = bs := by simpa using h
    rfl
  | cons a as ih =>
    rw [mapM_cons] at h
    obtain ⟨b, hb, h⟩ := bind_eq_some_iff.1 h
    obtain ⟨rest, hrest, h⟩ := bind_eq_some_iff.1 h
    obtain rfl : b :: rest = bs := by simpa using h
    rw [map_cons, map_cons, hb, ih hrest]

end

variable {S : StaticTypes T Name} {U : Values S V}

section
variable [DecidableEq T]

lemma expandSealedSubtypes_converges (S : StaticTypes T Name) (type : T) :
    ∃ subtypes, Converges (fun fuel => expandSealedSubtypes S fuel type) subtypes := by
  induction type using S.acyclic.induction with
  | _ type ih =>
    by_cases hsea : S.isSealed type = true
    · obtain ⟨lists, hlis⟩ := converges_mapM fun s hs => ih s ⟨hsea, hs⟩
      have hfla : Converges (fun fuel => (S.subtypes type).mapM (expandSealedSubtypes S fuel) >>=
        fun lists => some lists.flatten.eraseDups) lists.flatten.eraseDups := hlis.bind (.const _)
      exact ⟨lists.flatten.eraseDups, hfla.succ fun fuel => if_pos hsea⟩
    · exact ⟨[type], (Converges.const _).succ fun fuel => if_neg hsea⟩

lemma expandSealedSubtypes_covers {subtypes : List T}
    (h : expandSealedSubtypes S fuel type = some subtypes) (hv : U.Mem type v) : ∃ s ∈ subtypes, U.Mem s v := by
  induction fuel generalizing type subtypes with
  | zero => cases h
  | succ fuel ih =>
    rw [expandSealedSubtypes] at h
    split_ifs at h with hsea
    · obtain ⟨lists, hlis, h⟩ := bind_eq_some_iff.1 h
      obtain rfl : lists.flatten.eraseDups = subtypes := by simpa using h
      obtain ⟨t, ht, htv⟩ := U.covered type v hsea hv
      obtain ⟨list, hlist, hexpa⟩ := List.mem_map.1 (map_eq_of_mapM hlis ▸ mem_map_of_mem ht)
      obtain ⟨s, hs, hsv⟩ := ih hexpa.symm htv
      exact ⟨s, mem_eraseDups.2 (mem_flatten.2 ⟨list, hlist, hs⟩), hsv⟩
    · obtain rfl : [type] = subtypes := by simpa using h
      exact ⟨type, mem_singleton.2 rfl, hv⟩

end

section
variable {caseRows : List (List (Patterns T Name))}

lemma remainingRows_eq_some (S : StaticTypes T Name) (type : T)
    (h : ∀ row ∈ caseRows, row ≠ []) : ∃ remaining, remainingRows S type caseRows = some remaining := by
  induction caseRows with
  | nil => exact ⟨[], rfl⟩
  | cons row caseRows ih =>
    obtain ⟨remaining, hrem⟩ := ih fun row hrow => h row (mem_cons_of_mem _ hrow)
    cases row with
    | nil => exact absurd rfl (h [] mem_cons_self)
    | cons first rest =>
      rw [remainingRows, hrem]
      exact ⟨_, rfl⟩

variable {remaining : List (Pattern T Name × List (Patterns T Name))}

lemma mem_remainingRows (h : remainingRows S type caseRows = some remaining)
    {row : Pattern T Name × List (Patterns T Name)} : row ∈ remaining ↔
    ∃ first, first :: row.2 ∈ caseRows ∧ row.1 ∈ first ∧ S.isSubtypeOf type row.1.type = true := by
  induction caseRows generalizing remaining with
  | nil =>
    obtain rfl : [] = remaining := by simpa [remainingRows] using h
    simp
  | cons head caseRows ih =>
    cases head with
    | nil => cases h
    | cons first rest =>
      obtain ⟨others, hoth, h⟩ := bind_eq_some_iff.1 h
      obtain rfl := Option.some.inj h
      obtain ⟨p, tail⟩ := row
      rw [mem_append, ih hoth]
      constructor
      · rintro (hmem | ⟨first', hfir, hp⟩)
        · obtain ⟨p', hp, heq⟩ := List.mem_map.1 hmem
          obtain ⟨rfl, rfl⟩ := Prod.mk.inj heq
          exact ⟨first, mem_cons_self, mem_filter.1 hp⟩
        · exact ⟨first', mem_cons_of_mem _ hfir, hp⟩
      · rintro ⟨first', hfir, hp⟩
        rcases mem_cons.1 hfir with heq | hfir
        · obtain ⟨rfl, rfl⟩ := cons.inj heq
          exact .inl (mem_map_of_mem (mem_filter.2 hp))
        · exact .inr ⟨first', hfir, hp⟩

variable [LinearOrder Name]
variable {p : Pattern T Name}

lemma mem_sortedFieldNames {name : Name} : name ∈ sortedFieldNames p remaining ↔
    name ∈ p.fields.map Prod.fst ∨ ∃ row ∈ remaining, name ∈ row.1.fields.map Prod.fst := by
  rw [sortedFieldNames, mem_mergeSort, mem_dedup, mem_append, mem_flatMap]

lemma length_expandFields (names : List Name) (p : Pattern T Name) (type : T) :
    (expandFields S names p type).length = names.length := by
  rw [expandFields, length_map]

lemma mem_keys_of_lookup {α : Type*} {fields : List (Name × α)} {name : Name} {a : α}
    (h : fields.lookup name = some a) : (name, a) ∈ fields := by
  induction fields with
  | nil => cases h
  | cons field fields ih =>
    obtain ⟨other, b⟩ := field
    rw [lookup_cons] at h
    by_cases heq : name = other
    · subst heq
      obtain rfl : b = a := by simpa using h
      exact mem_cons_self
    · rw [beq_false_of_ne heq] at h
      exact mem_cons_of_mem _ (ih h)

lemma expandFields_matches (hv : U.Mem type v)
    (hfie : ∀ name qs, p.fields.lookup name = some qs → Matches U qs (U.field v name)) (names : List Name) :
    List.Forall₂ (Matches U) (expandFields S names p type) (names.map (U.field v)) := by
  rw [expandFields, forall₂_map_left_iff, forall₂_map_right_iff, forall₂_same]
  intro name _
  cases hloo : p.fields.lookup name with
  | some qs => exact hfie name qs hloo
  | none =>
    refine .intro mem_cons_self ?_ nofun
    cases hfield : S.fields type name with
    | some fieldType => exact U.field_mem type name fieldType v hfield hv
    | none => exact U.mem_nullableObject _

lemma matches_of_expandFields {names : List Name} (hnam : ∀ name ∈ p.fields.map Prod.fst, name ∈ names)
    (h : List.Forall₂ (Matches U) (expandFields S names p type) (names.map (U.field v))) (name : Name)
    (qs : Patterns T Name) (hqs : p.fields.lookup name = some qs) : Matches U qs (U.field v name) := by
  rw [expandFields, forall₂_map_left_iff, forall₂_map_right_iff, forall₂_same] at h
  have hmatch := h name (hnam name (mem_map.2 ⟨_, mem_keys_of_lookup hqs, rfl⟩))
  rwa [hqs] at hmatch

lemma forall₂_append_inv {α β : Type*} {R : α → β → Prop} {as as' : List α} {bs bs' : List β}
    (hlen : as.length = bs.length) (h : List.Forall₂ R (as ++ as') (bs ++ bs')) :
    List.Forall₂ R as bs ∧ List.Forall₂ R as' bs' := by
  induction as generalizing bs with
  | nil =>
    obtain rfl : bs = [] := length_eq_zero_iff.1 hlen.symm
    exact ⟨.nil, h⟩
  | cons a as ih =>
    cases bs with
    | nil => cases hlen
    | cons b bs =>
      obtain ⟨hab, h⟩ := forall₂_cons.1 h
      obtain ⟨h1, h2⟩ := ih (Nat.succ.inj hlen) h
      exact ⟨.cons hab h1, h2⟩

lemma unmatched_sound [DecidableEq T] {witness : List (Predicate T Name)}
    (hlen : ∀ row ∈ caseRows, row.length = valuePatterns.length)
    (h : unmatched S fuel caseRows valuePatterns witness = some none) {vs : List V}
    (hvs : List.Forall₂ (Matches U) valuePatterns vs) : ∃ row ∈ caseRows, List.Forall₂ (Matches U) row vs := by
  induction fuel generalizing caseRows valuePatterns witness vs with
  | zero => cases h
  | succ fuel ih =>
    cases valuePatterns with
    | nil =>
      obtain rfl := forall₂_nil_left_iff.1 hvs
      cases caseRows with
      | nil => cases h
      | cons row caseRows =>
        obtain rfl : row = [] := length_eq_zero_iff.1 (hlen row mem_cons_self)
        exact ⟨[], mem_cons_self, .nil⟩
    | cons first rest =>
      obtain ⟨v, vs, hv, hrest, rfl⟩ := forall₂_cons_left_iff.1 hvs
      obtain @⟨p, _, _, hp, hmem, hfie⟩ := hv
      obtain ⟨subtypes, hsubt, h⟩ := bind_eq_some_iff.1 (firstWitness_none h hp)
      obtain ⟨s, hs, hsv⟩ := expandSealedSubtypes_covers hsubt hmem
      have hfil := firstWitness_none h hs
      obtain ⟨remaining, hrem, hsear⟩ := bind_eq_some_iff.1 hfil
      have hlen' : ∀ row ∈ remaining.map fun row => expandFields S (sortedFieldNames p remaining) row.1 row.1.type ++ row.2,
          row.length = (expandFields S (sortedFieldNames p remaining) p s ++ rest).length := by
        intro row hrow
        obtain ⟨⟨q, tail⟩, hq, rfl⟩ := mem_map.1 hrow
        obtain ⟨firstPatterns, hcase, -, -⟩ := (mem_remainingRows hrem).1 hq
        have htail := hlen _ hcase
        simp only [length_append, length_expandFields, length_cons] at htail ⊢
        omega
      -- The fields of `v` are matched by an expanded row, hence `v` by the row it comes from.
      obtain ⟨row, hrow, hmatch⟩ := ih hlen' hsear (rel_append (expandFields_matches hsv hfie _) hrest)
      obtain ⟨⟨q, tail⟩, hq, rfl⟩ := mem_map.1 hrow
      obtain ⟨firstPatterns, hcase, hqmem, hsub⟩ := (mem_remainingRows hrem).1 hq
      obtain ⟨hexp, htail⟩ := forall₂_append_inv (by rw [length_expandFields, length_map]) hmatch
      refine ⟨_, hcase, .cons (.intro hqmem (U.mem_of_isSubtypeOf _ _ v hsub hsv) ?_) htail⟩
      exact matches_of_expandFields (fun name hname => mem_sortedFieldNames.2 (.inr ⟨_, hq, hname⟩)) hexp

end

section

def HeightLe : ℕ → Patterns T Name → Prop
  | 0, ps => ∀ p ∈ ps, p.fields = []
  | n + 1, ps => ∀ p ∈ ps, ∀ field ∈ p.fields, HeightLe n field.2

lemma heightLe_untested (n : ℕ) (type : T) (path : List Name) : HeightLe n [.mk type [] path] := by
  cases n with
  | zero => exact fun p hp => by rw [mem_singleton.1 hp]; rfl
  | succ n =>
    intro p hp field hfield
    rw [mem_singleton.1 hp] at hfield
    exact absurd hfield not_mem_nil

variable {ps : Patterns T Name}
variable {p : Pattern T Name}

lemma sizeOf_lt_of_field (hp : p ∈ ps)
    {field : Name × Patterns T Name} (hfield : field ∈ p.fields) : sizeOf field.2 < sizeOf ps := by
  obtain ⟨type, fields, path⟩ := p
  obtain ⟨name, qs⟩ := field
  have h1 := sizeOf_lt_of_mem hp
  have h2 := sizeOf_lt_of_mem (show (name, qs) ∈ fields from hfield)
  simp only [Pattern.mk.sizeOf_spec, Prod.mk.sizeOf_spec] at h1 h2 ⊢
  omega

lemma heightLe_of_sizeOf {n : ℕ} (h : sizeOf ps ≤ n) : HeightLe n ps := by
  induction n generalizing ps with
  | zero =>
    cases ps with
    | nil => exact nofun
    | cons p ps => simp at h
  | succ n ih =>
    intro p hp field hfield
    apply ih
    have := sizeOf_lt_of_field hp hfield
    omega

lemma HeightLe.no_names {n : ℕ} (h : HeightLe n ps) (hn : n = 0) (hp : p ∈ ps) : p.fields = [] := by
  subst hn
  exact h p hp

variable [LinearOrder Name]

lemma expandFields_heightLe {n : ℕ} (h : HeightLe n ps) (hp : p ∈ ps) (names : List Name) (type : T) :
    List.Forall₂ HeightLe (replicate names.length (n - 1)) (expandFields S names p type) := by
  rw [← map_const, expandFields, forall₂_map_left_iff, forall₂_map_right_iff, forall₂_same]
  intro name _
  cases hloo : p.fields.lookup name with
  | none => exact heightLe_untested _ _ _
  | some qs =>
    have hmem := mem_keys_of_lookup hloo
    cases n with
    | zero =>
      rw [h p hp] at hmem
      exact absurd hmem not_mem_nil
    | succ n => exact h p hp _ hmem

abbrev Fits (heights : List ℕ) (row : List (Patterns T Name)) : Prop := List.Forall₂ HeightLe heights row

lemma cutExpand_replicate {n k : ℕ} (h : n = 0 → k = 0) (heights : List ℕ) :
    Relation.CutExpand (· < ·) (replicate k (n - 1) ++ heights : Multiset ℕ) ((n :: heights : List ℕ) : Multiset ℕ) := by
  refine ⟨(replicate k (n - 1) : Multiset ℕ), n, fun m hm => ?_, ?_⟩
  · rw [Multiset.mem_coe, mem_replicate] at hm
    omega
  · rw [← Multiset.coe_singleton, Multiset.coe_add, Multiset.coe_add, Multiset.coe_eq_coe]
    exact (perm_append_singleton n _).trans (perm_append_comm.cons n)

lemma unmatched_converges [DecidableEq T] (heights : List ℕ) {caseRows : List (List (Patterns T Name))}
    (hrows : ∀ row ∈ caseRows, Fits heights row)
    (hvalue : Fits heights valuePatterns) (witness : List (Predicate T Name)) :
    ∃ r, Converges (fun fuel => unmatched S fuel caseRows valuePatterns witness) r := by
  induction heights using (InvImage.wf (fun l : List ℕ => (l : Multiset ℕ)) wellFounded_lt.cutExpand).induction
    generalizing caseRows valuePatterns witness with
  | _ heights ih =>
    cases hvalue with
    | nil => exact ⟨_, (Converges.const _).succ fun _ => rfl⟩
    | @cons n first heights rest hfir hrest =>
      have hne : ∀ row ∈ caseRows, row ≠ [] := by
        rintro row hrow rfl
        cases hrows [] hrow
      have hsear : ∀ p ∈ first, ∃ r, Converges (fun fuel => expandSealedSubtypes S fuel p.type >>= fun subtypes =>
          firstWitness (fun subtype => filterByType S (unmatched S fuel) subtype caseRows p rest witness)
            subtypes) r := by
        intro p hp
        obtain ⟨subtypes, hsubt⟩ := expandSealedSubtypes_converges S p.type
        have hfir' : ∃ r, Converges (fun fuel => firstWitness (fun subtype =>
            filterByType S (unmatched S fuel) subtype caseRows p rest witness) subtypes) r := by
          apply converges_firstWitness
          intro s _
          obtain ⟨remaining, hrem⟩ := remainingRows_eq_some S s hne
          simp only [filterByType, hrem]
          -- The names come from the first column, so there are none if its height is zero.
          have hnam : n = 0 → (sortedFieldNames p remaining).length = 0 := by
            intro hn
            rw [length_eq_zero_iff, eq_nil_iff_forall_not_mem]
            intro name hname
            rcases mem_sortedFieldNames.1 hname with hname | ⟨row, hrow, hname⟩
            · rw [hfir.no_names hn hp] at hname
              exact absurd hname not_mem_nil
            · obtain ⟨column, hcase, hq, -⟩ := (mem_remainingRows hrem).1 hrow
              rw [(forall₂_cons.1 (hrows _ hcase)).1.no_names hn hq] at hname
              exact absurd hname not_mem_nil
          apply ih _ (cutExpand_replicate hnam heights)
          · intro row hrow
            obtain ⟨⟨q, tail⟩, hq, rfl⟩ := mem_map.1 hrow
            obtain ⟨column, hcase, hqmem, -⟩ := (mem_remainingRows hrem).1 hq
            obtain ⟨hcol, htail⟩ := forall₂_cons.1 (hrows _ hcase)
            exact rel_append (expandFields_heightLe hcol hqmem _ _) htail
          · exact rel_append (expandFields_heightLe hfir hp _ _) hrest
        obtain ⟨r, hr⟩ := hfir'
        exact ⟨r, hsubt.bind hr⟩
      obtain ⟨r, hr⟩ := converges_firstWitness hsear
      exact ⟨r, hr.succ fun _ => rfl⟩

end

section
variable [DecidableEq T] [LinearOrder Name]

lemma column_converges (cases : List (Patterns T Name)) (value : Patterns T Name) :
    ∃ r, Converges (fun fuel => unmatched S fuel (cases.map fun patterns => [patterns]) [value] []) r := by
  have hbound : ∃ n, ∀ ps ∈ value :: cases, sizeOf ps ≤ n := by
    generalize value :: cases = columns
    induction columns with
    | nil => exact ⟨0, nofun⟩
    | cons ps columns ih =>
      obtain ⟨n, hn⟩ := ih
      refine ⟨max (sizeOf ps) n, fun qs hqs => ?_⟩
      rcases mem_cons.1 hqs with rfl | hqs
      · exact le_max_left _ _
      · exact (hn qs hqs).trans (le_max_right _ _)
  obtain ⟨n, hn⟩ := hbound
  apply unmatched_converges [n]
  · intro row hrow
    obtain ⟨ps, hps, rfl⟩ := mem_map.1 hrow
    exact .cons (heightLe_of_sizeOf (hn ps (mem_cons_of_mem _ hps))) .nil
  · exact .cons (heightLe_of_sizeOf (hn value mem_cons_self)) .nil

lemma column_sound {value : Patterns T Name}
    (h : unmatched S fuel (cases.map fun patterns => [patterns]) [value] [] = some none)
    (hv : Matches U value v) : ∃ ps ∈ cases, Matches U ps v := by
  have hlen : ∀ row ∈ cases.map fun patterns => [patterns], row.length = [value].length := by
    intro row hrow
    obtain ⟨ps, -, rfl⟩ := mem_map.1 hrow
    rfl
  obtain ⟨row, hrow, hmatch⟩ := unmatched_sound hlen h (.cons hv .nil)
  obtain ⟨ps, hps, rfl⟩ := mem_map.1 hrow
  exact ⟨ps, hps, (forall₂_cons.1 hmatch).1⟩

lemma unreachableCases_converges (valueType : T) (caseSpaces : List (Space T Name))
    (cases : List (Patterns T Name)) (indices : List ℕ) :
    ∃ errors, Converges (fun fuel => unreachableCases S fuel valueType caseSpaces cases indices) errors := by
  induction indices with
  | nil => exact ⟨[], .const _⟩
  | cons index indices ih =>
    obtain ⟨errors, herrors⟩ := ih
    obtain ⟨r, hr⟩ := column_converges (cases.take index) (cases.getD index [])
    exact ⟨_, hr.bind (herrors.bind (.const _))⟩

lemma mem_unreachableCases {valueType : T} {caseSpaces : List (Space T Name)} {indices : List ℕ}
    {errors : List (ExhaustivenessError T Name)}
    (h : unreachableCases S fuel valueType caseSpaces cases indices = some errors) {e : ExhaustivenessError T Name}
    (he : e ∈ errors) : ∃ index ∈ indices, e = .unreachableCase valueType caseSpaces index ∧
      unmatched S fuel ((cases.take index).map fun patterns => [patterns]) [cases.getD index []] [] = some none := by
  induction indices generalizing errors with
  | nil =>
    obtain rfl : [] = errors := by simpa [unreachableCases] using h
    exact absurd he not_mem_nil
  | cons index indices ih =>
    obtain ⟨r, hr, h⟩ := bind_eq_some_iff.1 h
    obtain ⟨rest, hrest, h⟩ := bind_eq_some_iff.1 h
    obtain rfl := Option.some.inj h
    obtain ⟨rfl, rfl⟩ | he : (r = none ∧ e = .unreachableCase valueType caseSpaces index) ∨ e ∈ rest := by
      cases r with
      | some witness => exact .inr he
      | none => exact (mem_cons.1 he).imp_left fun he => ⟨rfl, he⟩
    · exact ⟨index, mem_cons_self, rfl, hr⟩
    · obtain ⟨i, hi, heq, hnone⟩ := ih hrest he
      exact ⟨i, mem_cons_of_mem _ hi, heq, hnone⟩

end

theorem reportErrors_sound [DecidableEq T] [LinearOrder Name] (S : StaticTypes T Name) (U : Values S V)
    (valueType : T) (caseSpaces : List (Space T Name)) :
    ∃ errors, (∃ bound, ∀ fuel ≥ bound, reportErrors S fuel valueType caseSpaces = some errors) ∧
      ((∀ e ∈ errors, e.isNonExhaustive = false) → ∀ v, U.Mem valueType v → ∃ space ∈ caseSpaces, Contains U space v) ∧
      ∀ i, .unreachableCase valueType caseSpaces i ∈ errors → ∃ space, caseSpaces[i]? = some space ∧
        ∀ v, Contains U space v → ∃ j < i, ∃ earlier, caseSpaces[j]? = some earlier ∧ Contains U earlier v := by
  let cases := caseSpaces.map fun space => spaceToPatterns space []
  obtain ⟨errors, herrors⟩ :=
    unreachableCases_converges valueType caseSpaces cases (range' 1 (cases.length - 1))
  obtain ⟨r, hr⟩ := column_converges cases [.mk valueType [] []]
  -- One run with enough fuel shows what the errors are.
  have hunreachable : ∀ e ∈ errors, ∃ index ∈ range' 1 (cases.length - 1),
      e = .unreachableCase valueType caseSpaces index ∧ ∃ fuel, unmatched S fuel
        ((cases.take index).map fun patterns => [patterns]) [cases.getD index []] [] = some none := by
    intro e he
    obtain ⟨bound, hbound⟩ := herrors
    obtain ⟨index, hindex, heq, hnone⟩ := mem_unreachableCases (hbound bound le_rfl) he
    exact ⟨index, hindex, heq, bound, hnone⟩
  have hcase : ∀ index, .unreachableCase valueType caseSpaces index ∈ errors → ∃ space,
      caseSpaces[index]? = some space ∧ ∀ v, Contains U space v →
        ∃ j < index, ∃ earlier, caseSpaces[j]? = some earlier ∧ Contains U earlier v := by
    intro index hmem
    obtain ⟨index', hindex, heq, fuel, hnone⟩ := hunreachable _ hmem
    obtain rfl : index = index' := by
      injection heq
    have hlt : index < caseSpaces.length := by
      have := mem_range'_1.1 hindex
      rw [length_map] at this
      omega
    refine ⟨caseSpaces[index], getElem?_eq_getElem hlt, fun v hv => ?_⟩
    have hvalue : cases.getD index [] = spaceToPatterns caseSpaces[index] [] := by
      simp [cases, getD_eq_getElem?_getD, hlt]
    rw [hvalue] at hnone
    obtain ⟨ps, hps, hmatch⟩ := column_sound hnone (matches_spaceToPatterns.2 hv)
    obtain ⟨j, hj, rfl⟩ := mem_take_iff_getElem.1 hps
    obtain ⟨hearlier, hlength⟩ : j < index ∧ j < caseSpaces.length := by
      omega
    refine ⟨j, hearlier, caseSpaces[j], getElem?_eq_getElem hlength, ?_⟩
    rw [getElem_map] at hmatch
    exact matches_spaceToPatterns.1 hmatch
  cases r with
  | some witness =>
    refine ⟨errors ++ [.nonExhaustive valueType caseSpaces witness], herrors.bind (hr.bind (.const _)), ?_, ?_⟩
    · intro hnone
      exact absurd (hnone _ (mem_append_right _ (mem_singleton.2 rfl))) (by simp [ExhaustivenessError.isNonExhaustive])
    · intro i hi
      rcases mem_append.1 hi with hi | hi
      · exact hcase i hi
      · cases mem_singleton.1 hi
  | none =>
    refine ⟨errors, herrors.bind (hr.bind (.const _)), fun _ v hv => ?_, hcase⟩
    obtain ⟨bound, hbound⟩ := hr
    have hvalue : Matches U [.mk valueType [] []] v :=
      .intro mem_cons_self hv nofun
    obtain ⟨ps, hps, hmatch⟩ := column_sound (hbound bound le_rfl) hvalue
    obtain ⟨space, hspace, rfl⟩ := mem_map.1 hps
    exact ⟨space, hspace, matches_spaceToPatterns.1 hmatch⟩

def boolTypes : StaticTypes (Fin 3) (Fin 2) where
  isSealed t := t = 0
  subtypes t := if t = 0 then [1, 2] else []
  isSubtypeOf s t := s = t || t = 0
  fields _ _ := some 0
  nullableObject := 0
  acyclic := by
    refine Subrelation.wf (r := InvImage (· < ·) fun t : Fin 3 => 3 - t.val) ?_ (InvImage.wf _ wellFounded_lt)
    have hlt : ∀ s t : Fin 3, t = 0 → s ∈ [1, 2] → 3 - s.val < 3 - t.val := by decide
    rintro s t ⟨ht, hs⟩
    rw [if_pos (of_decide_eq_true ht)] at hs
    exact hlt s t (of_decide_eq_true ht) hs

def boolValues : Values boolTypes Bool where
  Mem t v := t = 0 ∨ t = (if v then 1 else 2)
  field v _ := v
  covered := by decide
  mem_of_isSubtypeOf := by decide
  field_mem := by decide
  mem_nullableObject := by decide

def boolCases : List (Space (Fin 3) (Fin 2)) := [.extract (.mk 1 [(0, .extract (.mk 0 []))]), .extract (.mk 2 [])]

theorem reportErrors_sound_bool : ∀ v, boolValues.Mem 0 v → ∃ space ∈ boolCases, Contains boolValues space v := by
  obtain ⟨errors, ⟨bound, hbound⟩, hsound, -⟩ := reportErrors_sound boolTypes boolValues 0 boolCases
  have herrors : reportErrors boolTypes (bound + 5) 0 boolCases = some [] := by
    simp [reportErrors, unreachableCases, unmatched, firstWitness, expandSealedSubtypes, boolTypes, boolCases,
      filterByType, remainingRows, sortedFieldNames, expandFields, spaceToPatterns, extractSpaceToPattern,
      fieldsToPatterns, Pattern.type, Pattern.fields, eraseDups_cons]
  rw [hbound (bound + 5) (Nat.le_add_right _ _)] at herrors
  obtain rfl := Option.some.inj herrors
  exact hsound nofun

end DartSdk.Exhaustiveness
