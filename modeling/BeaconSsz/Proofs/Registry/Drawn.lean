import BeaconSsz.Command.Run
import BeaconSsz.Proofs.Registry.Plain
import BeaconSsz.Proofs.Schema.Sound

/-!
# The schemas of a registry are drawn up

Whether a schema was drawn up from its fields does not depend on editions, and plain resolution
draws up every schema from schemas that were drawn up before. So every schema of every registry
is drawn up, through all the schemas inside it, and what drawing up establishes holds of it. A
requirement on records that exist does not change what is built.
-/

namespace BeaconSsz

/-- A shape is drawn up if the schema that it holds is. -/
theorem Shape.drawn_iff : (shape : Shape) →
    (shape.Drawn ↔ ∀ schema, shape.schema? = some schema → schema.Drawn)
  | .vector element _ | .list element _ => by
    rw [Shape.Drawn, Shape.schema?, element.drawn_iff]
  | .container schema => by simp [Shape.Drawn, Shape.schema?]
  | .boolean | .uint _ | .byteVector _ | .byteList _ | .bitvector _ | .bitlist _ => by
    simp [Shape.Drawn, Shape.schema?]

/-- Fields are drawn up if all their shapes are. -/
theorem Field.allDrawn_iff {fields : List Field} :
    Field.AllDrawn fields ↔ ∀ field ∈ fields, field.shape.Drawn := by
  induction fields with
  | nil => simp [Field.AllDrawn]
  | cons field fields ih =>
    obtain ⟨name, shape⟩ := field
    rw [Field.AllDrawn, ih, List.forall_mem_cons]

/-- A schema is drawn up if it comes from its fields, and the schemas that they hold are. -/
theorem Schema.drawn_of_make {edition : Nat} {name : String} {fields : List Field}
    {schema : Schema} (h : make edition name fields = .ok schema)
    (hparts : ∀ part ∈ schema.parts, part.Drawn) : schema.Drawn := by
  obtain ⟨-, -, _, -, rfl⟩ := make_eq_ok.mp h
  refine ⟨h, Field.allDrawn_iff.mpr fun field hfield => (Shape.drawn_iff _).mpr ?_⟩
  exact fun part hpart => hparts part (List.mem_filterMap.mpr ⟨field, hfield, hpart⟩)

mutual

/-- A shape is drawn up exactly if its bare form is. -/
theorem Shape.drawn_bare : (shape : Shape) → (shape.bare.Drawn ↔ shape.Drawn)
  | .vector element _ | .list element _ => by
    rw [Shape.bare, Shape.Drawn, Shape.Drawn, element.drawn_bare]
  | .container schema => by rw [Shape.bare, Shape.Drawn, Shape.Drawn, schema.drawn_bare]
  | .boolean | .uint _ | .byteVector _ | .byteList _ | .bitvector _ | .bitlist _ => Iff.rfl

/-- A schema is drawn up exactly if its bare form is. -/
theorem Schema.drawn_bare : (schema : Schema) → (schema.bare.Drawn ↔ schema.Drawn)
  | ⟨name, fields, fixedPart, isFixed, edition⟩ => by
    rw [Schema.bare, Schema.Drawn, Schema.Drawn, Schema.make_bare edition,
      Field.allDrawn_bare fields, map_eq_ok]
    refine and_congr_left fun _ => ?_
    constructor
    · rintro ⟨schema, hmake, hbare⟩
      obtain ⟨-, -, sum, -, rfl⟩ := Schema.make_eq_ok.mp hmake
      simp only [Schema.bare, Schema.mk.injEq, true_and, and_true] at hbare
      obtain ⟨rfl, rfl⟩ := hbare
      exact hmake
    · intro hmake
      exact ⟨_, hmake, by rw [Schema.bare]⟩

/-- Fields are drawn up exactly if the bare fields are. -/
theorem Field.allDrawn_bare : (fields : List Field) →
    (Field.AllDrawn (Field.bareAll fields) ↔ Field.AllDrawn fields)
  | [] => Iff.rfl
  | ⟨_, shape⟩ :: fields => and_congr shape.drawn_bare (Field.allDrawn_bare fields)

end

/-- What a record stands for is drawn up. -/
theorem Definitions.Resolves.drawn {preset : Preset} {definitions : Definitions} {name : String}
    {schema : Schema} (h : Definitions.Resolves preset definitions name schema) :
    schema.Drawn := by
  induction h with
  | record part? _ _ hresolve ih =>
    obtain ⟨fields, -, hmake⟩ := Descriptor.resolve_eq_ok.mp hresolve
    refine Schema.drawn_of_make hmake fun part hpart => ?_
    obtain ⟨name, -, hname⟩ := Descriptor.mem_parts_of_resolve hresolve hpart
    exact ih name part hname

variable {plan other : RegistryPlan} {preset : Preset} {registry : Registry}

/-- Every schema of a registry is drawn up. -/
theorem Registry.drawn_of_schema (h : plan.build preset = .ok registry) {fork : Fork}
    {name : String} {schema : Schema} (hschema : registry.schema fork name = .ok schema) :
    schema.Drawn := by
  obtain ⟨definitions, hdefinitions, -⟩ :=
    RegistryPlan.fine_of_buildForks (RegistryPlan.build_eq_ok.mp h).1 fork
  rw [← Schema.drawn_bare]
  have hbare : (registry.schema fork name).map Schema.bare = .ok schema.bare := by
    rw [hschema]
    rfl
  exact ((RegistryPlan.map_bare_schema_eq_ok h hdefinitions).mp hbare).drawn

namespace RegistryPlan

/-- What is built depends on what is defined alone. -/
theorem buildForks_congr (h : plan.defined = other.defined) (definitions : Definitions)
    (inherited : Records) (done : List (Fork × Records)) (forks : List Fork) :
    plan.buildForks preset definitions inherited done forks =
      other.buildForks preset definitions inherited done forks := by
  induction forks generalizing definitions inherited done with
  | nil => rfl
  | cons fork forks ih =>
    have hdefinitions : plan.definitionsAt definitions fork = other.definitionsAt definitions fork := by
      rw [definitionsAt, definitionsAt, h]
    simp only [buildForks, hdefinitions, ih]

/-- A registry that is built under a requirement is built without it. -/
theorem build_of_build_require {fork : Fork} {name : String}
    (h : (plan.require fork name).build preset = .ok registry) :
    plan.build preset = .ok registry := by
  obtain ⟨hforks, hpreset, hrequired⟩ := build_eq_ok.mp h
  refine build_eq_ok.mpr ⟨?_, hpreset, ?_⟩
  · have hdefined : plan.defined = (plan.require fork name).defined := rfl
    rwa [buildForks_congr hdefined]
  · rw [checkRequired_eq_ok] at hrequired ⊢
    exact fun entry hentry => hrequired entry (List.mem_append_left _ hentry)

end RegistryPlan

namespace Command

/-- The schema that a command works with is that of the record in the standard registry. -/
theorem exists_of_recordSchema {files : Files} {choice : ForkChoice} {record : String}
    {schema : Schema} (h : recordSchema files preset choice record = .ok schema) :
    ∃ fork registry, choice.resolve files = .ok fork ∧
      RegistryPlan.standard.build preset = .ok registry ∧
      registry.schema fork record = .ok schema := by
  simp only [recordSchema, buildRegistry, Running.ofStop, Stop.orRefuse, bind_eq_ok,
    mapError_eq_ok] at h
  obtain ⟨fork, hfork, registry, hbuild, hschema⟩ := h
  exact ⟨fork, registry, hfork, RegistryPlan.build_of_build_require hbuild, hschema⟩

end Command

end BeaconSsz
