import Mathlib.Data.Finset.Sort
import Mathlib.Data.Fintype.EquivFin
import Mathlib.Data.String.Basic
import Mathlib.Order.Lattice
import IntegratedCLI.Orquesta.Merging

/-!
# Schemas of specifications

A class of specifications has a schema, and its schema in full is merged from those of the
classes it is derived from.  `merge_object_schema` puts the constraints of two schemas
together: all required names, the larger minimum and the smaller maximum.  A limit that is
absent counts as zero there, which is right for the minimum only: of a maximum and none
the merged schema has none.

`LimitsAgree` says that both have a maximum that is not zero, or neither has one.  Exactly
then the merged schema is as strict as both (`limits_enforced`).
-/

namespace IntegratedCLI
namespace Orquesta

/-- The value of a property in a schema: a schema, or a class of specifications. -/
inductive PropertySchema where
  | doc (j : Json)
  | spec (name : String)

/-- A schema of type `object`, with the fields that are merged. -/
structure ObjectSchema where
  properties : Option (List (String × PropertySchema))
  required : Option (List String)
  additionalProperties : Option Bool
  patternProperties : Option (List (String × PropertySchema))
  minProperties : Option ℕ
  maxProperties : Option ℕ

namespace PropertySchema

/-- What a property has that both schemas have. -/
def merge (overwrite : Bool) : PropertySchema → PropertySchema → PropertySchema
  | .doc l, .doc r => .doc (Json.mergeValue overwrite l r)
  | l, r => if overwrite then r else l

end PropertySchema

namespace ObjectSchema

/-- The schema with nothing but its type. -/
def blank : ObjectSchema := ⟨none, none, none, none, none, none⟩

/-- Whether the schema is a blank template. -/
def isBlank (s : ObjectSchema) : Bool :=
  s.properties.isNone && s.required.isNone && s.additionalProperties.isNone
    && s.patternProperties.isNone && s.minProperties.isNone && s.maxProperties.isNone

/-- An entry that is left out when it has nothing. -/
def unlessEmpty {α : Type} (xs : List α) : Option (List α) := if xs.isEmpty then none else some xs

/-- A limit that is left out when it is zero. -/
def unlessZero (n : ℕ) : Option ℕ := if 0 < n then some n else none

def mergeObjectSchema (s1 s2 : ObjectSchema) (overwrite : Bool) : ObjectSchema where
  properties := unlessEmpty (Dict.mergeWith (PropertySchema.merge overwrite)
    (s1.properties.getD []) (s2.properties.getD []))
  required := unlessEmpty
    (((s1.required.getD []).toFinset ∪ (s2.required.getD []).toFinset).sort (· ≤ ·))
  additionalProperties :=
    if s1.additionalProperties.getD true && s2.additionalProperties.getD true then none
    else some false
  patternProperties := unlessEmpty (Dict.mergeWith (PropertySchema.merge overwrite)
    (s1.patternProperties.getD []) (s2.patternProperties.getD []))
  minProperties := unlessZero
    (if overwrite then max (s1.minProperties.getD 0) (s2.minProperties.getD 0)
     else s1.minProperties.getD 0)
  maxProperties := unlessZero
    (if overwrite then min (s1.maxProperties.getD 0) (s2.maxProperties.getD 0)
     else s1.maxProperties.getD 0)

/-- A mapping with the keys meets the constraints on which keys, and how many, it has. -/
structure Satisfies (s : ObjectSchema) (keys : Finset String) : Prop where
  required : ∀ name ∈ s.required.getD [], name ∈ keys
  least : ∀ n ∈ s.minProperties, n ≤ keys.card
  most : ∀ n ∈ s.maxProperties, keys.card ≤ n

end ObjectSchema

/-- A schema, or the empty dictionary. -/
abbrev Schema := Option ObjectSchema

/-- Merge two schemas.  One that is empty or a blank template gives way to the other. -/
def mergeSchema (s1 s2 : Schema) (overwrite : Bool) : Schema :=
  match s1, s2 with
  | some s1, none => if s1.isBlank then none else some s1
  | none, some s2 => if s2.isBlank then none else some s2
  | none, none => none
  | some s1, some s2 =>
    if s1.isBlank then if s2.isBlank then none else some s2
    else if s2.isBlank then some s1
    else some (s1.mergeObjectSchema s2 overwrite)

/-! ## Two schemas -/

namespace ObjectSchema

/-- A mapping that satisfies the merged schema satisfies both. -/
def Strict (s1 s2 : ObjectSchema) : Prop :=
  ∀ keys, (s1.mergeObjectSchema s2 true).Satisfies keys → s1.Satisfies keys ∧ s2.Satisfies keys

/-- Both have a maximum that is not zero, or neither has one. -/
def LimitsAgree (s1 s2 : ObjectSchema) : Prop :=
  (s1.maxProperties = none ∧ s2.maxProperties = none)
    ∨ (0 < s1.maxProperties.getD 0 ∧ 0 < s2.maxProperties.getD 0)

/-- The schemas have the same constraints on the keys. -/
def SameLimits (s1 s2 : ObjectSchema) : Prop :=
  s1.required = s2.required ∧ s1.minProperties = s2.minProperties
    ∧ s1.maxProperties = s2.maxProperties

variable {s1 s2 s3 : ObjectSchema} {keys : Finset String} {n : ℕ}

@[simp] theorem getD_unlessEmpty {α : Type} (xs : List α) : (unlessEmpty xs).getD [] = xs := by
  cases xs <;> rfl

@[simp] theorem getD_unlessZero (n : ℕ) : (unlessZero n).getD 0 = n := by
  rw [unlessZero]
  split
  · rfl
  · simp only [Option.getD_none]
    omega

@[simp] theorem mem_unlessZero {m : ℕ} : m ∈ unlessZero n ↔ 0 < n ∧ n = m := by
  rw [unlessZero]
  split <;> simp_all

theorem satisfies_iff : s1.Satisfies keys ↔ (∀ name ∈ s1.required.getD [], name ∈ keys)
    ∧ s1.minProperties.getD 0 ≤ keys.card ∧ ∀ n ∈ s1.maxProperties, keys.card ≤ n := by
  constructor
  · intro h
    refine ⟨h.required, ?_, h.most⟩
    cases hmin : s1.minProperties with
    | none => exact Nat.zero_le _
    | some n => exact h.least n hmin
  · rintro ⟨hrequired, hleast, hmost⟩
    refine ⟨hrequired, fun n hn => ?_, hmost⟩
    rwa [hn] at hleast

/-- What the merged schema asks for. -/
theorem satisfies_merge_iff : (s1.mergeObjectSchema s2 true).Satisfies keys ↔
    ((∀ name ∈ s1.required.getD [], name ∈ keys) ∧ ∀ name ∈ s2.required.getD [], name ∈ keys)
    ∧ (s1.minProperties.getD 0 ≤ keys.card ∧ s2.minProperties.getD 0 ≤ keys.card)
    ∧ (0 < min (s1.maxProperties.getD 0) (s2.maxProperties.getD 0) →
        keys.card ≤ min (s1.maxProperties.getD 0) (s2.maxProperties.getD 0)) := by
  rw [satisfies_iff]
  simp only [mergeObjectSchema, getD_unlessEmpty, getD_unlessZero, if_true, mem_unlessZero,
    Finset.mem_sort, Finset.mem_union, List.mem_toFinset, or_imp, forall_and, max_le_iff]
  refine and_congr_right fun _ => and_congr_right fun _ => ⟨fun h hpos => h _ ⟨hpos, rfl⟩, ?_⟩
  rintro h n ⟨hpos, rfl⟩
  exact h hpos

/-- There are mappings with many keys. -/
theorem exists_keys (names : Finset String) (n : ℕ) : ∃ keys, names ⊆ keys ∧ n ≤ keys.card := by
  obtain ⟨keys, hsub, hcard⟩ :=
    Infinite.exists_superset_card_eq names (max names.card n) (le_max_left _ _)
  exact ⟨keys, hsub, hcard ▸ le_max_right _ _⟩

/-- **The merged schema is as strict as both** exactly if their limits agree. -/
theorem strict_iff_limitsAgree : Strict s1 s2 ↔ LimitsAgree s1 s2 := by
  constructor
  · intro h
    by_contra hdiff
    rw [LimitsAgree, not_or, not_and_or, not_and_or] at hdiff
    obtain ⟨hsome, hzero⟩ := hdiff
    -- there is no maximum for a mapping with too many keys for one of the two
    obtain ⟨keys, hsub, hcard⟩ := exists_keys
      ((s1.required.getD []).toFinset ∪ (s2.required.getD []).toFinset)
      (s1.minProperties.getD 0 + s2.minProperties.getD 0 + s1.maxProperties.getD 0
        + s2.maxProperties.getD 0 + 1)
    have hsat : (s1.mergeObjectSchema s2 true).Satisfies keys := by
      rw [satisfies_merge_iff]
      refine ⟨⟨fun name hname => hsub ?_, fun name hname => hsub ?_⟩, ⟨by omega, by omega⟩, ?_⟩
      · exact Finset.mem_union_left _ (List.mem_toFinset.mpr hname)
      · exact Finset.mem_union_right _ (List.mem_toFinset.mpr hname)
      · intro hpos
        exact absurd hpos (by omega)
    obtain ⟨h1, h2⟩ := h keys hsat
    rcases hsome with hsome | hsome
    · obtain ⟨m, hm⟩ := Option.ne_none_iff_exists'.mp hsome
      have := h1.most m hm
      rw [hm, Option.getD_some] at hcard
      omega
    · obtain ⟨m, hm⟩ := Option.ne_none_iff_exists'.mp hsome
      have := h2.most m hm
      rw [hm, Option.getD_some] at hcard
      omega
  · intro h keys hsat
    rw [satisfies_merge_iff] at hsat
    obtain ⟨⟨hreq1, hreq2⟩, ⟨hmin1, hmin2⟩, hmax⟩ := hsat
    rw [satisfies_iff, satisfies_iff]
    rcases h with ⟨h1, h2⟩ | ⟨h1, h2⟩
    · rw [h1, h2]
      exact ⟨⟨hreq1, hmin1, by simp⟩, hreq2, hmin2, by simp⟩
    · have hcard := hmax (lt_min h1 h2)
      refine ⟨⟨hreq1, hmin1, fun n hn => ?_⟩, hreq2, hmin2, fun n hn => ?_⟩
      · rw [show s1.maxProperties = some n from hn] at hcard
        exact hcard.trans (min_le_left _ _)
      · rw [show s2.maxProperties = some n from hn] at hcard
        exact hcard.trans (min_le_right _ _)

/-- The constraints do not depend on which two of three schemas are merged first. -/
theorem sameLimits_assoc (s1 s2 s3 : ObjectSchema) :
    SameLimits ((s1.mergeObjectSchema s2 true).mergeObjectSchema s3 true)
      (s1.mergeObjectSchema (s2.mergeObjectSchema s3 true) true) := by
  refine ⟨?_, ?_, ?_⟩
  · simp only [mergeObjectSchema, getD_unlessEmpty, Finset.sort_toFinset, Finset.union_assoc]
  · simp only [mergeObjectSchema, getD_unlessZero, if_true, max_assoc]
  · simp only [mergeObjectSchema, getD_unlessZero, if_true, min_assoc]

end ObjectSchema

/-! ## Classes -/

/-- A class of specifications, with the classes it is derived from. -/
inductive SpecClass where
  | mk (schema metaSchema : Schema) (bases : List SpecClass)

namespace SpecClass

/-- One of the two schemas that a class gives itself. -/
inductive Part where
  | schema
  | metaSchema

def part : Part → SpecClass → Schema
  | .schema, .mk schema _ _ => schema
  | .metaSchema, .mk _ metaSchema _ => metaSchema

mutual

/-- The schema of a class, merged into those of its bases. -/
def merged (p : Part) : SpecClass → Schema
  | .mk schema metaSchema bases =>
    mergeSchema (mergedBases p none bases) (part p (.mk schema metaSchema bases)) true

def mergedBases (p : Part) (schema : Schema) : List SpecClass → Schema
  | [] => schema
  | base :: bases => mergedBases p (mergeSchema schema (merged p base) true) bases

end

def getMetaSchema (c : SpecClass) : Schema := merged .metaSchema c

/-- The schema of a class in full; the one for its meta properties is in it if it is asked
for.  That the schemas of members are put in the place of their classes afterwards changes
no limit and is left out. -/
def getSchema (c : SpecClass) (includesMeta : Bool) : Schema :=
  let schema := merged .schema c
  if includesMeta then mergeSchema schema (getMetaSchema c) true else schema

mutual

/-- The schemas that a class and its bases give themselves. -/
def inheritance (p : Part) : SpecClass → List ObjectSchema
  | .mk schema metaSchema bases =>
    inheritanceBases p bases ++ (part p (.mk schema metaSchema bases)).toList

def inheritanceBases (p : Part) : List SpecClass → List ObjectSchema
  | [] => []
  | base :: bases => inheritance p base ++ inheritanceBases p bases

end

end SpecClass

/-! ## Limits along the inheritance -/

/-- Every schema but the blank ones has a maximum that is not zero, or none has one. -/
def ObjectSchema.Uniform (limited : Bool) (s : ObjectSchema) : Prop :=
  if limited then s.isBlank = true ∨ 0 < s.maxProperties.getD 0 else s.maxProperties = none

/-- A mapping satisfies a schema; the empty one asks for nothing. -/
def Schema.Satisfies (s : Schema) (keys : Finset String) : Prop := ∀ o ∈ s, o.Satisfies keys

namespace ObjectSchema

variable {s1 s2 : ObjectSchema} {keys : Finset String} {limited : Bool}

theorem satisfies_of_isBlank (h : s1.isBlank = true) : s1.Satisfies keys := by
  simp only [isBlank, Bool.and_eq_true, Option.isNone_iff_eq_none] at h
  obtain ⟨⟨⟨⟨⟨-, hrequired⟩, -⟩, -⟩, hmin⟩, hmax⟩ := h
  rw [satisfies_iff, hrequired, hmin, hmax]
  simp

theorem Uniform.limitsAgree (h1 : s1.Uniform limited) (h2 : s2.Uniform limited)
    (hb1 : s1.isBlank = false) (hb2 : s2.isBlank = false) : LimitsAgree s1 s2 := by
  cases limited with
  | false => exact .inl ⟨h1, h2⟩
  | true => exact .inr ⟨h1.resolve_left (by simp [hb1]), h2.resolve_left (by simp [hb2])⟩

theorem Uniform.merge (h1 : s1.Uniform limited) (h2 : s2.Uniform limited)
    (hb1 : s1.isBlank = false) (hb2 : s2.isBlank = false) :
    (s1.mergeObjectSchema s2 true).Uniform limited := by
  cases limited with
  | false =>
    have h1 : s1.maxProperties = none := h1
    simp [Uniform, mergeObjectSchema, h1, unlessZero]
  | true =>
    have h1 := h1.resolve_left (by simp [hb1])
    have h2 := h2.resolve_left (by simp [hb2])
    refine .inr ?_
    simpa [mergeObjectSchema] using And.intro h1 h2

end ObjectSchema

variable {keys : Finset String} {limited : Bool}

theorem satisfies_none : Schema.Satisfies none keys := fun _ h => nomatch h

theorem satisfies_some {o : ObjectSchema} : Schema.Satisfies (some o) keys ↔ o.Satisfies keys :=
  ⟨fun h => h o rfl, fun h _ ho => Option.some_inj.mp ho ▸ h⟩

/-- A merge of schemas with the same kind of limits is as strict as both. -/
theorem mergeSchema_enforces {s1 s2 : Schema} (h1 : ∀ o ∈ s1, o.Uniform limited)
    (h2 : ∀ o ∈ s2, o.Uniform limited) :
    (∀ o ∈ mergeSchema s1 s2 true, o.Uniform limited)
      ∧ ∀ keys, (mergeSchema s1 s2 true).Satisfies keys →
        s1.Satisfies keys ∧ s2.Satisfies keys := by
  have hnone : ∀ o ∈ (none : Schema), o.Uniform limited := fun _ h => nomatch h
  cases s1 with
  | none =>
    cases s2 with
    | none => exact ⟨hnone, fun keys h => ⟨h, h⟩⟩
    | some b =>
      rw [mergeSchema]
      cases hb : b.isBlank with
      | true => exact ⟨hnone, fun keys h => ⟨h, satisfies_some.mpr (b.satisfies_of_isBlank hb)⟩⟩
      | false => exact ⟨h2, fun keys h => ⟨satisfies_none, h⟩⟩
  | some a =>
    cases s2 with
    | none =>
      rw [mergeSchema]
      cases ha : a.isBlank with
      | true => exact ⟨hnone, fun keys h => ⟨satisfies_some.mpr (a.satisfies_of_isBlank ha), h⟩⟩
      | false => exact ⟨h1, fun keys h => ⟨h, satisfies_none⟩⟩
    | some b =>
      rw [mergeSchema]
      cases ha : a.isBlank with
      | true =>
        have hsat : ∀ keys, Schema.Satisfies (some a) keys :=
          fun keys => satisfies_some.mpr (a.satisfies_of_isBlank ha)
        cases hb : b.isBlank with
        | true =>
          exact ⟨hnone, fun keys h => ⟨hsat keys, satisfies_some.mpr (b.satisfies_of_isBlank hb)⟩⟩
        | false => exact ⟨h2, fun keys h => ⟨hsat keys, h⟩⟩
      | false =>
        cases hb : b.isBlank with
        | true => exact ⟨h1, fun keys h => ⟨h, satisfies_some.mpr (b.satisfies_of_isBlank hb)⟩⟩
        | false =>
          have ha' := h1 a rfl
          have hb' := h2 b rfl
          refine ⟨fun o ho => ?_, fun keys h => ?_⟩
          · obtain rfl := Option.some_inj.mp ho
            exact ha'.merge hb' ha hb
          · have hstrict := ObjectSchema.strict_iff_limitsAgree.mpr (ha'.limitsAgree hb' ha hb)
            obtain ⟨hka, hkb⟩ := hstrict keys (satisfies_some.mp h)
            exact ⟨satisfies_some.mpr hka, satisfies_some.mpr hkb⟩

namespace SpecClass

variable {p : Part}

mutual

/-- The merged schema of a class is as strict as each schema that went into it. -/
theorem merged_enforces : ∀ c : SpecClass, (∀ o ∈ inheritance p c, o.Uniform limited) →
    (∀ o ∈ merged p c, o.Uniform limited)
      ∧ ∀ keys, (merged p c).Satisfies keys → ∀ o ∈ inheritance p c, o.Satisfies keys
  | .mk schema metaSchema bases, h => by
    rw [inheritance] at h
    obtain ⟨hbases, hown⟩ := List.forall_mem_append.mp h
    obtain ⟨huniform, hsat⟩ := mergedBases_enforces bases none (fun _ h => nomatch h) hbases
    have hpart : ∀ o ∈ part p (.mk schema metaSchema bases), o.Uniform limited :=
      fun o ho => hown o (Option.mem_toList.mpr ho)
    obtain ⟨hmerged, hboth⟩ := mergeSchema_enforces huniform hpart
    rw [merged, inheritance]
    refine ⟨hmerged, fun keys hkeys => List.forall_mem_append.mpr ⟨?_, fun o ho => ?_⟩⟩
    · exact (hsat keys (hboth keys hkeys).1).2
    · exact (hboth keys hkeys).2 o (Option.mem_toList.mp ho)

theorem mergedBases_enforces : ∀ (bases : List SpecClass) (schema : Schema),
    (∀ o ∈ schema, o.Uniform limited) → (∀ o ∈ inheritanceBases p bases, o.Uniform limited) →
      (∀ o ∈ mergedBases p schema bases, o.Uniform limited)
        ∧ ∀ keys, (mergedBases p schema bases).Satisfies keys →
          schema.Satisfies keys ∧ ∀ o ∈ inheritanceBases p bases, o.Satisfies keys
  | [], schema, hschema, _ => ⟨hschema, fun keys h => ⟨h, fun _ ho => nomatch ho⟩⟩
  | base :: bases, schema, hschema, h => by
    rw [inheritanceBases] at h
    obtain ⟨hbase, hbases⟩ := List.forall_mem_append.mp h
    obtain ⟨huniform, hsat⟩ := merged_enforces base hbase
    obtain ⟨hmerged, hboth⟩ := mergeSchema_enforces hschema huniform
    obtain ⟨hlast, hrest⟩ := mergedBases_enforces bases _ hmerged hbases
    rw [mergedBases, inheritanceBases]
    refine ⟨hlast, fun keys hkeys => ?_⟩
    obtain ⟨hfirst, hothers⟩ := hrest keys hkeys
    obtain ⟨hleft, hright⟩ := hboth keys hfirst
    exact ⟨hleft, List.forall_mem_append.mpr ⟨hsat keys hright, hothers⟩⟩

end

/-- The schemas of a class and its bases, those for the meta properties too if they are
asked for, have the same kind of limits. -/
def Limited (c : SpecClass) (includesMeta limited : Bool) : Prop :=
  (∀ o ∈ inheritance .schema c, o.Uniform limited)
    ∧ (includesMeta = true → ∀ o ∈ inheritance .metaSchema c, o.Uniform limited)

/-- The full schema of a class is as strict as each schema along its inheritance. -/
theorem getSchema_enforces {c : SpecClass} {includesMeta : Bool}
    (h : c.Limited includesMeta limited) (hkeys : (c.getSchema includesMeta).Satisfies keys) :
    (∀ o ∈ inheritance .schema c, o.Satisfies keys)
      ∧ (includesMeta = true → ∀ o ∈ inheritance .metaSchema c, o.Satisfies keys) := by
  obtain ⟨huniform, hsat⟩ := merged_enforces c h.1
  cases includesMeta with
  | false => exact ⟨hsat keys hkeys, fun h => nomatch h⟩
  | true =>
    obtain ⟨hmeta, hmetaSat⟩ := merged_enforces c (h.2 rfl)
    obtain ⟨hleft, hright⟩ := (mergeSchema_enforces huniform hmeta).2 keys hkeys
    exact ⟨hsat keys hleft, fun _ => hmetaSat keys hright⟩

/-- **Merged schemas are as strict as what is merged**: of two schemas exactly if their
limits agree, of three in any order, and along an inheritance if all have the same kind of
limits. -/
theorem limits_enforced (s1 s2 s3 : ObjectSchema) (c : SpecClass) (includesMeta limited : Bool)
    (keys : Finset String) :
    (s1.Strict s2 ↔ s1.LimitsAgree s2)
      ∧ ((s1.mergeObjectSchema s2 true).mergeObjectSchema s3 true).SameLimits
          (s1.mergeObjectSchema (s2.mergeObjectSchema s3 true) true)
      ∧ (c.Limited includesMeta limited → (c.getSchema includesMeta).Satisfies keys →
          (∀ o ∈ inheritance .schema c, o.Satisfies keys)
            ∧ (includesMeta = true → ∀ o ∈ inheritance .metaSchema c, o.Satisfies keys)) :=
  ⟨ObjectSchema.strict_iff_limitsAgree, ObjectSchema.sameLimits_assoc s1 s2 s3, getSchema_enforces⟩

/-- At most so many properties. -/
def atMost (n : ℕ) : ObjectSchema := { ObjectSchema.blank with maxProperties := some n }

/-- A class for at most two properties, derived from one for at most three. -/
def narrowed : SpecClass := .mk (some (atMost 2)) none [.mk (some (atMost 3)) none []]

theorem limits_enforced_narrowed : ∀ o ∈ inheritance .schema narrowed, o.Satisfies {"a"} := by
  have hmerged : narrowed.getSchema false = some (atMost 2) := by
    simp [narrowed, getSchema, merged, mergedBases, mergeSchema, part, atMost,
      ObjectSchema.blank, ObjectSchema.isBlank, ObjectSchema.mergeObjectSchema,
      ObjectSchema.unlessEmpty, ObjectSchema.unlessZero]
  refine ((limits_enforced .blank .blank .blank narrowed false true {"a"}).2.2
    ⟨?_, fun h => nomatch h⟩ ?_).1
  · simp [narrowed, inheritance, inheritanceBases, part, ObjectSchema.Uniform, atMost]
  · rw [hmerged]
    refine satisfies_some.mpr (ObjectSchema.satisfies_iff.mpr ?_)
    simp [atMost, ObjectSchema.blank]

/-- A maximum is lost in a merge with a schema that has none. -/
theorem not_limits_enforced :
    ¬ (atMost 3).Strict { ObjectSchema.blank with required := some ["a"] } := by
  rw [ObjectSchema.strict_iff_limitsAgree]
  simp [ObjectSchema.LimitsAgree, atMost, ObjectSchema.blank]

end SpecClass

end Orquesta
end IntegratedCLI
