import BeaconSsz.Proofs.Registry.Definitions
import BeaconSsz.Proofs.Schema.Resolve
import Mathlib.Data.Fintype.Card
import Mathlib.Data.Fintype.EquivFin
import Mathlib.Data.Fintype.Sets
import Mathlib.Logic.Relation

/-!
# Plain resolution

What the records of a fork stand for, without regard to the order in which they are built, to what
was built before and to the previous fork: a record is resolved from its descriptor, and in the
same way each record that it refers to. Every record stands for a schema exactly when the bounds
are known, the references are defined, no record refers to itself around a cycle, and the schemas
can be drawn up.
-/

namespace BeaconSsz.Definitions

variable {preset : Preset} {definitions other : Definitions}

/-- The schema that a record stands for: its descriptor resolved with the bounds of the fork, and
with the schemas that the records it refers to stand for. -/
inductive Resolves (preset : Preset) (definitions : Definitions) : String → Schema → Prop
  | record {name : String} {descriptor : Descriptor} {schema : Schema}
      (part? : String → Option Schema)
      (hget : definitions.get? name = some descriptor)
      (hparts : ∀ other part, part? other = some part → Resolves preset definitions other part)
      (hresolve : descriptor.resolve ⟨resolveBound preset definitions.fork, part?⟩ 0 = .ok schema) :
      Resolves preset definitions name schema

/-- A record stands for one schema at most. -/
theorem Resolves.unique {name : String} {schema schema' : Schema}
    (h : Resolves preset definitions name schema)
    (h' : Resolves preset definitions name schema') : schema = schema' := by
  induction h generalizing schema' with
  | record part? hget hparts hresolve ih =>
    cases h' with
    | record part?' hget' hparts' hresolve' =>
      rw [hget, Option.some_inj] at hget'
      subst hget'
      refine Except.ok.inj (hresolve.symm.trans (.trans ?_ hresolve'))
      exact Descriptor.resolve_congr_of_isSome 0
        (fun _ => Descriptor.isSome_of_resolve hresolve)
        (fun _ => Descriptor.isSome_of_resolve hresolve')
        (fun reference part part' hpart hpart' =>
          ih reference part hpart (hparts' reference part' hpart')) rfl

/-- Only defined records stand for schemas. -/
theorem Resolves.mem_names {name : String} {schema : Schema}
    (h : Resolves preset definitions name schema) : name ∈ definitions.names := by
  obtain ⟨_, hget, _, _⟩ := h
  exact exists_get?.mp ⟨_, hget⟩

/-- The schema has the name of its record. -/
theorem Resolves.name_eq {name : String} {schema : Schema}
    (h : Resolves preset definitions name schema) : schema.name = name := by
  obtain ⟨_, hget, _, hresolve⟩ := h
  rw [Descriptor.name_of_resolve hresolve, name_of_find? hget]

/-- In alike definitions records stand for the same schemas. -/
theorem Resolves.of_alike {name : String} {schema : Schema}
    (h : Resolves preset definitions name schema) (halike : definitions.Alike other) :
    Resolves preset other name schema := by
  induction h with
  | record part? hget _ hresolve ih =>
    rw [halike.get?] at hget
    rw [halike.fork] at hresolve
    exact .record part? hget ih hresolve

/-- Plain resolution as a recursion to some depth, without memory of what was resolved. -/
def plainSchema? (preset : Preset) (definitions : Definitions) : Nat → String → Option Schema
  | 0, _ => none
  | depth + 1, name =>
    (definitions.get? name).bind fun descriptor =>
      (descriptor.resolve ⟨resolveBound preset definitions.fork,
        plainSchema? preset definitions depth⟩ 0).toOption

/-- What the recursion finds is what the record stands for. -/
theorem resolves_of_plainSchema? {depth : Nat} {name : String} {schema : Schema}
    (h : plainSchema? preset definitions depth name = some schema) :
    Resolves preset definitions name schema := by
  induction depth generalizing name schema with
  | zero => cases h
  | succ depth ih =>
    obtain ⟨descriptor, hget, hresolve⟩ := Option.bind_eq_some_iff.mp h
    exact .record _ hget (fun _ _ hpart => ih hpart) (toOption_eq_some.mp hresolve)

/-- What holds of each of finitely many names from some depth on holds of all of them from some
depth on. -/
theorem exists_common_depth {P : Nat → String → Prop} (names : List String)
    (h : ∀ name ∈ names, ∃ depth, ∀ deeper, depth ≤ deeper → P deeper name) :
    ∃ depth, ∀ deeper, depth ≤ deeper → ∀ name ∈ names, P deeper name := by
  induction names with
  | nil => exact ⟨0, fun _ _ => nofun⟩
  | cons name names ih =>
    rw [List.forall_mem_cons] at h
    obtain ⟨depth, hdepth⟩ := h.1
    obtain ⟨depth', hdepth'⟩ := ih h.2
    refine ⟨max depth depth', fun deeper hdeeper => ?_⟩
    rw [max_le_iff] at hdeeper
    exact List.forall_mem_cons.mpr ⟨hdepth deeper hdeeper.1, hdepth' deeper hdeeper.2⟩

/-- What a record stands for is found by the recursion from some depth on. -/
theorem Resolves.exists_depth {name : String} {schema : Schema}
    (h : Resolves preset definitions name schema) :
    ∃ depth, ∀ deeper, depth ≤ deeper →
      plainSchema? preset definitions deeper name = some schema := by
  induction h with
  | @record name descriptor schema part? hget _ hresolve ih =>
    have hreferences : ∀ reference ∈ descriptor.references, ∃ depth, ∀ deeper, depth ≤ deeper →
        plainSchema? preset definitions deeper reference = part? reference := by
      intro reference hreference
      obtain ⟨part, hpart⟩ := Option.isSome_iff_exists.mp
        (Descriptor.isSome_of_resolve hresolve hreference)
      obtain ⟨depth, hdepth⟩ := ih reference part hpart
      exact ⟨depth, fun deeper hdeeper => (hdepth deeper hdeeper).trans hpart.symm⟩
    obtain ⟨depth, hdepth⟩ := exists_common_depth descriptor.references hreferences
    refine ⟨depth + 1, fun deeper hdeeper => ?_⟩
    cases deeper with
    | zero => exact absurd hdeeper (Nat.not_succ_le_zero depth)
    | succ deeper =>
      have hsame : descriptor.resolve ⟨resolveBound preset definitions.fork,
          plainSchema? preset definitions deeper⟩ 0 =
            descriptor.resolve ⟨resolveBound preset definitions.fork, part?⟩ 0 :=
        Descriptor.resolve_congr (by rfl) 0 (hdepth deeper (Nat.le_of_succ_le_succ hdeeper))
      exact Option.bind_eq_some_iff.mpr ⟨descriptor, hget,
        toOption_eq_some.mpr (hsame.trans hresolve)⟩

/-- A record stands for a schema exactly if the recursion finds it at some depth. -/
theorem resolves_iff_plainSchema? {name : String} {schema : Schema} :
    Resolves preset definitions name schema ↔
      ∃ depth, plainSchema? preset definitions depth name = some schema := by
  constructor
  · intro h
    obtain ⟨depth, hdepth⟩ := h.exists_depth
    exact ⟨depth, hdepth depth (Nat.le_refl depth)⟩
  · rintro ⟨depth, h⟩
    exact resolves_of_plainSchema? h

/-- A record refers to another one if its definition does in one of its fields. -/
def Refers (definitions : Definitions) (name reference : String) : Prop :=
  ∃ descriptor, definitions.get? name = some descriptor ∧ reference ∈ descriptor.references

/-- What a resolved record refers to is resolved. -/
theorem Resolves.exists_of_refers {name reference : String} {schema : Schema}
    (h : Resolves preset definitions name schema) (hrefers : definitions.Refers name reference) :
    ∃ part, Resolves preset definitions reference part := by
  obtain ⟨part?, hget, hparts, hresolve⟩ := h
  obtain ⟨_, hget', hreference⟩ := hrefers
  rw [hget, Option.some_inj] at hget'
  subst hget'
  obtain ⟨part, hpart⟩ := Option.isSome_iff_exists.mp
    (Descriptor.isSome_of_resolve hresolve hreference)
  exact ⟨part, hparts reference part hpart⟩

/-- Nothing goes on forever below a resolved record. -/
theorem Resolves.acc {name : String} {schema : Schema}
    (h : Resolves preset definitions name schema) : Acc (flip definitions.Refers) name := by
  induction h with
  | record part? hget _ hresolve ih =>
    refine .intro _ fun reference ⟨_, hget', hreference⟩ => ?_
    rw [hget, Option.some_inj] at hget'
    subst hget'
    obtain ⟨part, hpart⟩ := Option.isSome_iff_exists.mp
      (Descriptor.isSome_of_resolve hresolve hreference)
    exact ih reference part hpart

/-- A resolved record does not refer to itself around a cycle. -/
theorem Resolves.acyclic {name : String} {schema : Schema}
    (h : Resolves preset definitions name schema) :
    ¬ Relation.TransGen definitions.Refers name name := by
  rw [← Relation.transGen_swap]
  have hacc := h.acc.transGen
  clear h
  induction hacc with
  | intro name _ ih => exact fun hcycle => ih name hcycle hcycle

/-- What it takes that every record stands for a schema. -/
structure Resolvable (preset : Preset) (definitions : Definitions) : Prop where
  /-- Every named bound has a length at the fork. -/
  bounds_known : ∀ descriptor ∈ definitions.records, ∀ bound ∈ descriptor.boundNames,
    (resolveBound preset definitions.fork bound).isSome
  /-- Every record that is referred to is defined. -/
  references_defined : ∀ descriptor ∈ definitions.records, ∀ reference ∈ descriptor.references,
    reference ∈ definitions.names
  /-- No record refers to itself around a cycle. -/
  acyclic : ∀ name, ¬ Relation.TransGen definitions.Refers name name
  /-- A schema can be drawn up from the resolved fields of every record. -/
  accepted : ∀ descriptor ∈ definitions.records, ∀ (part? : String → Option Schema) fields,
    (∀ other part, part? other = some part → Resolves preset definitions other part) →
    descriptor.resolveFields ⟨resolveBound preset definitions.fork, part?⟩ = .ok fields →
      ∃ schema, Schema.make 0 descriptor.name fields = .ok schema

/-- There is one way to say what every record stands for. -/
theorem exists_part? (preset : Preset) (definitions : Definitions) :
    ∃ part? : String → Option Schema, ∀ name schema,
      part? name = some schema ↔ Resolves preset definitions name schema := by
  classical
  refine ⟨fun name => if h : ∃ schema, Resolves preset definitions name schema then
    some h.choose else none, fun name schema => ?_⟩
  dsimp only
  split
  · next h =>
    rw [Option.some_inj]
    exact ⟨fun heq => heq ▸ h.choose_spec, fun hschema => h.choose_spec.unique hschema⟩
  · next h => exact ⟨nofun, fun hschema => absurd ⟨schema, hschema⟩ h⟩

/-- A record of resolvable definitions is resolved if what it refers to is. -/
theorem Resolvable.resolves_of_references (h : definitions.Resolvable preset) {name : String}
    (hname : name ∈ definitions.names)
    (hreferences : ∀ reference, definitions.Refers name reference →
      ∃ part, Resolves preset definitions reference part) :
    ∃ schema, Resolves preset definitions name schema := by
  obtain ⟨descriptor, hget⟩ := exists_get?.mpr hname
  have hmem := List.mem_of_find?_eq_some hget
  obtain ⟨part?, hpart?⟩ := exists_part? preset definitions
  obtain ⟨fields, hfields⟩ : ∃ fields, descriptor.resolveFields
      ⟨resolveBound preset definitions.fork, part?⟩ = .ok fields := by
    refine Descriptor.exists_resolveFields.mpr ⟨h.bounds_known descriptor hmem, ?_⟩
    intro reference hreference
    obtain ⟨part, hpart⟩ := hreferences reference ⟨descriptor, hget, hreference⟩
    exact Option.isSome_iff_exists.mpr ⟨part, (hpart? reference part).mpr hpart⟩
  have hparts (other : String) (part : Schema) (hpart : part? other = some part) :=
    (hpart? other part).mp hpart
  obtain ⟨schema, hmake⟩ := h.accepted descriptor hmem part? fields hparts hfields
  exact ⟨schema, .record part? hget hparts (Descriptor.resolve_eq_ok.mpr ⟨fields, hfields, hmake⟩)⟩

/-- Among finitely many records, references that never run around a cycle come to an end. -/
theorem wellFounded_of_acyclic (h : ∀ name, ¬ Relation.TransGen definitions.Refers name name) :
    WellFounded fun reference name : { name // name ∈ definitions.names } =>
      Relation.TransGen definitions.Refers name reference := by
  have : Std.Irrefl fun reference name : { name // name ∈ definitions.names } =>
      Relation.TransGen definitions.Refers name reference := ⟨fun name => h name⟩
  have : IsTrans _ fun reference name : { name // name ∈ definitions.names } =>
      Relation.TransGen definitions.Refers name reference := ⟨fun _ _ _ hab hbc => hbc.trans hab⟩
  exact Finite.wellFounded_of_trans_of_irrefl _

/-- Every record stands for a schema exactly when the definitions are resolvable. -/
theorem resolvable_iff (hdistinct : definitions.names.Nodup) :
    definitions.Resolvable preset ↔
      ∀ name ∈ definitions.names, ∃ schema, Resolves preset definitions name schema := by
  constructor
  · intro h
    suffices hsub : ∀ name : { name // name ∈ definitions.names },
        ∃ schema, Resolves preset definitions name schema from fun name hname => hsub ⟨name, hname⟩
    intro name
    induction name using (wellFounded_of_acyclic h.acyclic).induction with
    | _ name ih =>
      refine h.resolves_of_references name.2 fun reference hrefers => ?_
      obtain ⟨descriptor, hget, hreference⟩ := id hrefers
      have hdefined := h.references_defined descriptor (List.mem_of_find?_eq_some hget) reference
        hreference
      exact ih ⟨reference, hdefined⟩ (.single hrefers)
  · intro h
    have hrecord (descriptor : Descriptor) (hmem : descriptor ∈ definitions.records) :
        ∃ part?, (∀ other part, part? other = some part → Resolves preset definitions other part) ∧
          ∃ schema, descriptor.resolve ⟨resolveBound preset definitions.fork, part?⟩ 0 =
            .ok schema := by
      obtain ⟨schema, part?, hget, hparts, hresolve⟩ := h descriptor.name (List.mem_map_of_mem hmem)
      rw [(get?_eq_some hdistinct).mpr ⟨hmem, rfl⟩, Option.some_inj] at hget
      subst hget
      exact ⟨part?, hparts, schema, hresolve⟩
    constructor
    · intro descriptor hmem
      obtain ⟨part?, -, schema, hresolve⟩ := hrecord descriptor hmem
      obtain ⟨fields, hfields, -⟩ := Descriptor.resolve_eq_ok.mp hresolve
      exact (Descriptor.exists_resolveFields.mp ⟨fields, hfields⟩).1
    · intro descriptor hmem reference hreference
      obtain ⟨schema, hschema⟩ := h descriptor.name (List.mem_map_of_mem hmem)
      have hget := (get?_eq_some hdistinct).mpr ⟨hmem, rfl⟩
      obtain ⟨part, hpart⟩ := hschema.exists_of_refers ⟨descriptor, hget, hreference⟩
      exact hpart.mem_names
    · intro name hcycle
      have hname : name ∈ definitions.names := by
        obtain ⟨_, ⟨descriptor, hget, _⟩, _⟩ := Relation.TransGen.head'_iff.mp hcycle
        exact exists_get?.mp ⟨descriptor, hget⟩
      obtain ⟨schema, hschema⟩ := h name hname
      exact hschema.acyclic hcycle
    · intro descriptor hmem part? fields hparts hfields
      obtain ⟨part?', hparts', schema, hresolve⟩ := hrecord descriptor hmem
      have hreferences := (Descriptor.exists_resolveFields.mp ⟨fields, hfields⟩).2
      have hsame : descriptor.resolve ⟨resolveBound preset definitions.fork, part?⟩ 0 =
          .ok schema := by
        rw [← hresolve]
        exact Descriptor.resolve_congr_of_isSome 0 hreferences
          (fun _ => Descriptor.isSome_of_resolve hresolve)
          (fun reference part part' hpart hpart' =>
            (hparts reference part hpart).unique (hparts' reference part' hpart')) rfl
      obtain ⟨fields', hfields', hmake⟩ := Descriptor.resolve_eq_ok.mp hsame
      cases hfields.symm.trans hfields'
      exact ⟨schema, hmake⟩

end BeaconSsz.Definitions
