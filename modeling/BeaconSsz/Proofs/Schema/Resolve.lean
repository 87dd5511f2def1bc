import BeaconSsz.Proofs.Schema.Bare
import BeaconSsz.Proofs.Schema.Sound

/-!
# What resolving a descriptor depends on

A descriptor is resolved field by field. It depends on the context only through the bounds that
its forms name and the containers that they refer to, and the schemas inside the result are those
that the context has for the references.
-/

namespace BeaconSsz

/-- The schema that a shape holds, through vectors and lists. -/
def Shape.schema? : Shape → Option Schema
  | .vector element _ => element.schema?
  | .list element _ => element.schema?
  | .container schema => some schema
  | _ => none

/-- The schemas that the fields of a schema hold, through vectors and lists. -/
def Schema.parts (schema : Schema) : List Schema :=
  schema.fields.filterMap (·.shape.schema?)

/-- The bare form of a shape holds the bare schema. -/
theorem Shape.schema?_bare : (shape : Shape) → shape.bare.schema? = shape.schema?.map Schema.bare
  | vector element _ => element.schema?_bare
  | list element _ => element.schema?_bare
  | container _ | boolean | uint _ | byteVector _ | byteList _ | bitvector _ | bitlist _ => rfl

/-- The bare form of a schema holds the bare schemas. -/
theorem Schema.parts_bare (schema : Schema) : schema.bare.parts = schema.parts.map Schema.bare := by
  rw [parts, parts, fields_bare, Field.bareAll_eq_map, List.filterMap_map, List.map_filterMap]
  exact List.filterMap_congr fun field _ => field.shape.schema?_bare

/-- The name of a bound, unless it is given. -/
def Bound.name? : Bound → Option String
  | fixed _ => none
  | named name => some name

/-- The bounds that a form names. -/
def Form.boundNames : Form → List String
  | boolean | uint _ | container _ => []
  | byteVector length | byteList length | bitvector length | bitlist length =>
    length.name?.toList
  | vector element length | list element length => element.boundNames ++ length.name?.toList

/-- A bound has a length exactly when its name does. -/
theorem Bound.exists_resolve (context : Context) (owner field : String) (bound : Bound) :
    (∃ length, bound.resolve context owner field = .ok length) ↔
      ∀ name ∈ bound.name?.toList, (context.bound? name).isSome := by
  cases bound with
  | fixed length => simp [resolve, name?]
  | named name => cases h : context.bound? name <;> simp [resolve, name?, h]

namespace Form

variable {context other : Context} {owner field : String}

/-- A form stands for a shape exactly when the context has its bounds and its container. -/
theorem exists_resolve : {form : Form} →
    ((∃ shape, form.resolve context owner field = .ok shape) ↔
      (∀ name ∈ form.boundNames, (context.bound? name).isSome) ∧
        ∀ name, form.reference? = some name → (context.container? name).isSome)
  | boolean | uint _ => by simp [resolve, boundNames, reference?]
  | byteVector length | byteList length | bitvector length | bitlist length => by
    rw [boundNames, ← Bound.exists_resolve context owner field]
    simp only [resolve, reference?, bind_eq_ok, pure_eq_ok]
    constructor
    · rintro ⟨_, bound, hbound, -⟩
      refine ⟨⟨bound, hbound⟩, fun name hname => ?_⟩
      cases hname
    · rintro ⟨⟨bound, hbound⟩, -⟩
      exact ⟨_, bound, hbound, rfl⟩
  | vector element length | list element length => by
    rw [boundNames, List.forall_mem_append,
      ← Bound.exists_resolve context owner field]
    simp only [resolve, reference?, bind_eq_ok, pure_eq_ok]
    constructor
    · rintro ⟨_, shape, hshape, bound, hbound, -⟩
      obtain ⟨hnames, href⟩ := exists_resolve.mp ⟨shape, hshape⟩
      exact ⟨⟨hnames, bound, hbound⟩, href⟩
    · rintro ⟨⟨hnames, bound, hbound⟩, href⟩
      obtain ⟨shape, hshape⟩ := exists_resolve.mpr ⟨hnames, href⟩
      exact ⟨_, shape, hshape, bound, hbound, rfl⟩
  | container name => by
    cases h : context.container? name <;> simp [resolve, boundNames, reference?, h]

/-- A shape holds what the context has for the reference of its form. -/
theorem schema?_of_resolve : (form : Form) → {shape : Shape} →
    form.resolve context owner field = .ok shape →
      shape.schema? = form.reference?.bind context.container?
  | boolean, _, h | uint _, _, h => by
    cases h
    rfl
  | byteVector _, _, h | byteList _, _, h | bitvector _, _, h | bitlist _, _, h => by
    simp only [resolve, bind_eq_ok, pure_eq_ok] at h
    obtain ⟨_, _, rfl⟩ := h
    rfl
  | vector element _, shape, h | list element _, shape, h => by
    simp only [resolve, bind_eq_ok, pure_eq_ok] at h
    obtain ⟨inner, helement, _, _, rfl⟩ := h
    exact (element.schema?_of_resolve helement :)
  | container name, _, h => by
    rw [resolve] at h
    split at h
    · next hname =>
      cases h
      exact hname.symm
    · cases h

/-- A form stands for the same shape in contexts with the same bounds and the same container for
its reference. -/
theorem resolve_congr (hbound : context.bound? = other.bound?) : (form : Form) →
    (∀ name, form.reference? = some name → context.container? name = other.container? name) →
      form.resolve context owner field = form.resolve other owner field
  | boolean, _ | uint _, _ => rfl
  | byteVector _, _ | byteList _, _ | bitvector _, _ | bitlist _, _ => by
    simp only [resolve, Bound.resolve, hbound]
  | vector element _, h | list element _, h => by
    simp only [resolve, Bound.resolve, hbound, element.resolve_congr hbound h]
  | container name, h => by
    rw [resolve, resolve, h name rfl]

end Form

namespace Descriptor

variable {context other : Context} {descriptor : Descriptor}

/-- The bounds that the fields name. -/
def boundNames (descriptor : Descriptor) : List String :=
  descriptor.fields.flatMap (·.2.boundNames)

/-- Collecting without repeats keeps what is there and adds what comes. -/
theorem mem_foldl_distinct {found names : List String} {name : String} :
    name ∈ names.foldl (fun found name => if name ∈ found then found else found ++ [name]) found ↔
      name ∈ found ∨ name ∈ names := by
  induction names generalizing found with
  | nil => simp
  | cons first names ih =>
    rw [List.foldl_cons, ih]
    split
    · next hfirst => grind
    · grind

/-- The references are those of the forms of the fields. -/
theorem mem_references {name : String} :
    name ∈ descriptor.references ↔
      ∃ field ∈ descriptor.fields, field.2.reference? = some name := by
  simp [references, mem_foldl_distinct]

/-- The fields are resolved one by one and keep their names. -/
theorem resolveFields_eq_ok {fields : List Field} :
    descriptor.resolveFields context = .ok fields ↔
      List.Forall₂ (fun source field => field.name = source.1 ∧
        source.2.resolve context descriptor.name source.1 = .ok field.shape)
        descriptor.fields fields := by
  have hfield (source : String × Form) (field : Field) :
      (do return Field.mk source.1 (← source.2.resolve context descriptor.name source.1)) =
          Except.ok field ↔
        field.name = source.1 ∧
          source.2.resolve context descriptor.name source.1 = .ok field.shape := by
    obtain ⟨name, shape⟩ := field
    simp only [bind_eq_ok, pure_eq_ok, Field.mk.injEq, eq_comm (a := name)]
    constructor
    · rintro ⟨_, hshape, hname, rfl⟩
      exact ⟨hname, hshape⟩
    · rintro ⟨hname, hshape⟩
      exact ⟨shape, hshape, hname, rfl⟩
  rw [resolveFields, mapM_eq_ok]
  simp only [hfield]

/-- The resolved fields have the names of those of the descriptor, in order. -/
theorem map_name_of_resolveFields {fields : List Field}
    (h : descriptor.resolveFields context = .ok fields) :
    fields.map Field.name = descriptor.fields.map Prod.fst := by
  have hnames := (resolveFields_eq_ok.mp h).imp fun _ _ h => h.1.symm
  exact (List.forall₂_eq_eq_eq ▸ List.forall₂_map_left_iff.mpr
    (List.forall₂_map_right_iff.mpr hnames) :).symm

/-- The fields can be resolved exactly when the context has every bound and every reference. -/
theorem exists_resolveFields :
    (∃ fields, descriptor.resolveFields context = .ok fields) ↔
      (∀ name ∈ descriptor.boundNames, (context.bound? name).isSome) ∧
        ∀ name ∈ descriptor.references, (context.container? name).isSome := by
  have hfield (source : String × Form) : (∃ field : Field, field.name = source.1 ∧
      source.2.resolve context descriptor.name source.1 = .ok field.shape) ↔
        ∃ shape, source.2.resolve context descriptor.name source.1 = .ok shape :=
    ⟨fun ⟨field, _, h⟩ => ⟨field.shape, h⟩, fun ⟨shape, h⟩ => ⟨⟨source.1, shape⟩, rfl, h⟩⟩
  simp only [resolveFields_eq_ok, exists_forall₂, hfield, Form.exists_resolve, boundNames,
    mem_references, List.mem_flatMap]
  constructor
  · intro h
    exact ⟨fun name ⟨source, hsource, hname⟩ => (h source hsource).1 name hname,
      fun name ⟨source, hsource, hname⟩ => (h source hsource).2 name hname⟩
  · intro ⟨hbounds, hreferences⟩ source hsource
    exact ⟨fun name hname => hbounds name ⟨source, hsource, hname⟩,
      fun name hname => hreferences name ⟨source, hsource, hname⟩⟩

/-- Fields are resolved alike in contexts with the same bounds and the same references. -/
theorem resolveFields_congr (hbound : context.bound? = other.bound?)
    (h : ∀ name ∈ descriptor.references, context.container? name = other.container? name) :
    descriptor.resolveFields context = descriptor.resolveFields other := by
  apply mapM_congr
  intro source hsource
  dsimp only
  rw [source.2.resolve_congr hbound fun name hname =>
    h name (mem_references.mpr ⟨source, hsource, hname⟩)]

/-- Descriptors are resolved alike in contexts with the same bounds and the same references. -/
theorem resolve_congr (hbound : context.bound? = other.bound?) (edition : Nat)
    (h : ∀ name ∈ descriptor.references, context.container? name = other.container? name) :
    descriptor.resolve context edition = descriptor.resolve other edition := by
  rw [resolve, resolve, resolveFields_congr hbound h]

/-- Resolving resolves the fields and draws up a schema from them. -/
theorem resolve_eq_ok {edition : Nat} {schema : Schema} :
    descriptor.resolve context edition = .ok schema ↔
      ∃ fields, descriptor.resolveFields context = .ok fields ∧
        Schema.make edition descriptor.name fields = .ok schema := by
  rw [resolve, bind_eq_ok]
  simp only [Stop.orRefuse, mapError_eq_ok]

/-- A context in which a descriptor is resolved has every reference. -/
theorem isSome_of_resolve {edition : Nat} {schema : Schema}
    (h : descriptor.resolve context edition = .ok schema) {name : String}
    (hname : name ∈ descriptor.references) : (context.container? name).isSome := by
  obtain ⟨fields, hfields, -⟩ := resolve_eq_ok.mp h
  exact (exists_resolveFields.mp ⟨fields, hfields⟩).2 name hname

/-- A descriptor is resolved alike in contexts that have every reference and never contradict each
other. -/
theorem resolve_congr_of_isSome (edition : Nat)
    (h : ∀ name ∈ descriptor.references, (context.container? name).isSome)
    (hother : ∀ name ∈ descriptor.references, (other.container? name).isSome)
    (hagree : ∀ name part part', context.container? name = some part →
      other.container? name = some part' → part = part')
    (hbound : context.bound? = other.bound?) :
    descriptor.resolve context edition = descriptor.resolve other edition := by
  refine resolve_congr hbound edition fun name hname => ?_
  obtain ⟨part, hpart⟩ := Option.isSome_iff_exists.mp (h name hname)
  obtain ⟨part', hpart'⟩ := Option.isSome_iff_exists.mp (hother name hname)
  rw [hpart, hpart', hagree name part part' hpart hpart']

/-- The schema has the name of the descriptor. -/
theorem name_of_resolve {edition : Nat} {schema : Schema}
    (h : descriptor.resolve context edition = .ok schema) : schema.name = descriptor.name := by
  obtain ⟨fields, -, hmake⟩ := resolve_eq_ok.mp h
  obtain ⟨-, -, _, -, rfl⟩ := Schema.make_eq_ok.mp hmake
  rfl

/-- The schema has the edition under which it was drawn up. -/
theorem edition_of_resolve {edition : Nat} {schema : Schema}
    (h : descriptor.resolve context edition = .ok schema) : schema.edition = edition := by
  obtain ⟨fields, -, hmake⟩ := resolve_eq_ok.mp h
  obtain ⟨-, -, _, -, rfl⟩ := Schema.make_eq_ok.mp hmake
  rfl

/-- The schemas inside the result are those that the context has for the references. -/
theorem mem_parts_of_resolve {edition : Nat} {schema part : Schema}
    (h : descriptor.resolve context edition = .ok schema) (hpart : part ∈ schema.parts) :
    ∃ name ∈ descriptor.references, context.container? name = some part := by
  obtain ⟨fields, hfields, hmake⟩ := resolve_eq_ok.mp h
  obtain ⟨-, -, _, -, rfl⟩ := Schema.make_eq_ok.mp hmake
  obtain ⟨field, hfield, hshape⟩ := List.mem_filterMap.mp hpart
  obtain ⟨source, hsource, -, hresolve⟩ := exists_of_forall₂ (resolveFields_eq_ok.mp hfields) hfield
  rw [source.2.schema?_of_resolve hresolve, Option.bind_eq_some_iff] at hshape
  obtain ⟨name, hname, hcontainer⟩ := hshape
  exact ⟨name, mem_references.mpr ⟨source, hsource, hname⟩, hcontainer⟩

end Descriptor

end BeaconSsz
