import BeaconSsz.Proofs.Registry.Drawn
import BeaconSsz.Proofs.Schema.Modest

/-!
# The standard registries

The catalogue alone gives a registry under every preset. Its records are all of modest size: their
fixed parts, their bounds and the nesting of their values lie far below the limits of offsets, of
words and of readers. Wherever a record has a header, the two are aligned: the fields of the
header have the shapes of those of the record, but for some fields, in the place of which stand
32 bytes.

These are properties of two particular registries. They are stated as checks that can be run, and
run once for each preset.
-/

namespace BeaconSsz

/-- Whether two lists of shapes are the same, and hold no schemas. -/
def Shape.sameAll : List Shape → List Shape → Bool
  | [], [] => true
  | shape :: shapes, other :: others =>
    shape.schema?.isNone && shape.agrees other && sameAll shapes others
  | _, _ => false

/-- The shapes of fields with roots in some places. -/
def Field.shapesUnder (fields : List Field) : List Nat → List Shape
  | [] => fields.map Field.shape
  | place :: places => (shapesUnder fields places).set place (.byteVector 32)

/-- A header has the fields of a schema, but for those at some places, for which it has their
roots under other names. -/
structure Schema.Heads (header schema : Schema) (roots : List (Nat × String × String)) :
    Prop where
  places : ∀ entry ∈ roots, schema.fieldIndex? entry.2.1 = some entry.1 ∧
    header.fieldIndex? entry.2.2 = some entry.1
  shapes : header.fields.map Field.shape = Field.shapesUnder schema.fields (roots.map Prod.fst)

/-- Whether a header has the fields of a schema, but for those at some places. -/
def Schema.heads (header schema : Schema) (roots : List (Nat × String × String)) : Bool :=
  roots.all (fun entry => schema.fieldIndex? entry.2.1 == some entry.1 &&
    header.fieldIndex? entry.2.2 == some entry.1) &&
  Shape.sameAll (header.fields.map Field.shape)
    (Field.shapesUnder schema.fields (roots.map Prod.fst))

namespace Registry

/-- Whether all records are of modest size. -/
def isModest (registry : Registry) : Bool :=
  registry.forks.all fun entry => entry.2.all Schema.isModest

/-- Whether a record has a header at a fork. -/
def isHeaded (registry : Registry) (fork : Fork) (record header : String)
    (roots : List (Nat × String × String)) : Bool :=
  match registry.schema fork record, registry.schema fork header with
  | .ok schema, .ok header => header.heads schema roots
  | _, _ => false

/-- Whether a field of a record is another record. -/
def holds (registry : Registry) (fork : Fork) (record field part : String) : Bool :=
  match registry.schema fork record with
  | .ok schema =>
    match schema.field? field with
    | some ⟨_, .container inner⟩ => inner.name == part
    | _ => false
  | _ => false

end Registry

/-- The fields of a block that its header has as roots. -/
def blockRoots : List (Nat × String × String) :=
  [(4, "body", "body_root")]

/-- The fields of an execution payload that its header has as roots. -/
def payloadRoots (fork : Fork) : List (Nat × String × String) :=
  if Fork.capella ≤ fork then
    [(13, "transactions", "transactions_root"), (14, "withdrawals", "withdrawals_root")]
  else [(13, "transactions", "transactions_root")]

namespace Registry

/-- Whether blocks and payloads have their headers at a fork. -/
def isAligned (registry : Registry) (fork : Fork) : Bool :=
  registry.isHeaded fork "BeaconBlock" "BeaconBlockHeader" blockRoots &&
    registry.holds fork "BeaconBlock" "body" "BeaconBlockBody" &&
    (!decide (Fork.bellatrix ≤ fork) ||
      registry.isHeaded fork "ExecutionPayload" "ExecutionPayloadHeader" (payloadRoots fork))

end Registry

/-- A shape that holds no schema is its own bare form. -/
theorem Shape.bare_eq_self : {shape : Shape} → shape.schema? = none → shape.bare = shape
  | .vector element _, h => by rw [bare, show element.bare = element from bare_eq_self h]
  | .list element _, h => by rw [bare, show element.bare = element from bare_eq_self h]
  | .boolean, _ | .uint _, _ | .byteVector _, _ | .byteList _, _ | .bitvector _, _
  | .bitlist _, _ => rfl

/-- Shapes that agree and hold no schema are equal. -/
theorem Shape.eq_of_agrees {shape other : Shape} (hplain : shape.schema? = none)
    (h : shape.agrees other = true) : shape = other := by
  have hbare : shape.bare = other.bare := (shape.agrees_iff other).mp h
  have hother : other.schema? = none := by
    rw [← Option.map_eq_none_iff (f := Schema.bare), ← schema?_bare, ← hbare, schema?_bare, hplain]
    rfl
  rw [← bare_eq_self hplain, hbare, bare_eq_self hother]

/-- Under either preset, the catalogue gives a registry that passes all checks. -/
theorem standard_checked (preset : Preset) :
    (RegistryPlan.standard.build preset).toOption.any (fun registry =>
      registry.isModest && Fork.all.all registry.isAligned) = true := by
  cases preset <;> decide +kernel

/-- Shapes that are the same and hold no schemas are equal. -/
theorem Shape.eq_of_sameAll {shapes others : List Shape} (h : sameAll shapes others = true) :
    shapes = others := by
  induction shapes generalizing others with
  | nil =>
    cases others with
    | nil => rfl
    | cons other others => simp [sameAll] at h
  | cons shape shapes ih =>
    cases others with
    | nil => simp [sameAll] at h
    | cons other others =>
      simp only [sameAll, Bool.and_eq_true, Option.isNone_iff_eq_none] at h
      obtain ⟨⟨hplain, hagree⟩, hrest⟩ := h
      rw [ih hrest, Shape.eq_of_agrees hplain hagree]

/-- A header that passes the check has the fields of the schema. -/
theorem Schema.heads_of_heads {header schema : Schema} {roots : List (Nat × String × String)}
    (h : header.heads schema roots = true) : header.Heads schema roots := by
  simp only [heads, Bool.and_eq_true, List.all_eq_true, beq_iff_eq] at h
  exact ⟨h.1, Shape.eq_of_sameAll h.2⟩

namespace Registry

variable {registry : Registry} {fork : Fork}

/-- In a registry that passes the check, every record is of modest size. -/
theorem modest_of_isModest (h : registry.isModest = true) {name : String} {schema : Schema}
    (hschema : registry.schema fork name = .ok schema) : schema.Modest := by
  have hmem := List.mem_of_find?_eq_some (schema_eq_ok.mp hschema)
  simp only [isModest, List.all_eq_true] at h
  rw [recordsAt] at hmem
  cases hlookup : registry.forks.lookup fork with
  | none => simp [hlookup] at hmem
  | some records =>
    rw [hlookup, Option.getD_some] at hmem
    obtain ⟨before, after, hforks, -⟩ := List.lookup_eq_some_iff.mp hlookup
    have hentry : (fork, records) ∈ registry.forks := by
      rw [hforks]
      exact List.mem_append_right _ List.mem_cons_self
    exact Schema.modest_of_isModest (h _ hentry schema hmem)

/-- A record that passes the check has a header. -/
theorem exists_of_isHeaded {record header : String} {roots : List (Nat × String × String)}
    (h : registry.isHeaded fork record header roots = true) :
    ∃ schema head, registry.schema fork record = .ok schema ∧
      registry.schema fork header = .ok head ∧ head.Heads schema roots := by
  unfold isHeaded at h
  split at h
  · next schema head hschema hhead => exact ⟨schema, head, hschema, hhead, Schema.heads_of_heads h⟩
  · cases h

/-- A record that passes the check holds the other record. -/
theorem exists_of_holds {plan : RegistryPlan} {preset : Preset}
    (hbuild : plan.build preset = .ok registry) {record field part : String}
    (h : registry.holds fork record field part = true) :
    ∃ schema inner, registry.schema fork record = .ok schema ∧
      registry.schema fork part = .ok inner ∧
      schema.field? field = some ⟨field, .container inner⟩ := by
  unfold holds at h
  split at h
  · next schema hschema =>
    split at h
    · next name inner hfield =>
      obtain rfl : inner.name = part := by simpa using h
      obtain rfl : name = field := name_of_find? hfield
      refine ⟨schema, inner, hschema, ?_, hfield⟩
      obtain ⟨_, -, hcomplete⟩ := RegistryPlan.stage_of_buildForks
        (RegistryPlan.build_eq_ok.mp hbuild).1 fork
      rw [schema_eq_ok] at hschema ⊢
      have hmem := List.mem_of_find?_eq_some hschema
      refine hcomplete.find?_eq_some.mpr ⟨hcomplete.parts_mem schema hmem inner ?_, rfl⟩
      exact List.mem_filterMap.mpr ⟨_, List.mem_of_find?_eq_some hfield, rfl⟩
    · cases h
  · cases h

end Registry

namespace RegistryPlan

variable {preset : Preset} {registry : Registry} {fork : Fork}

/-- The catalogue gives a registry under either preset. -/
theorem exists_standard (preset : Preset) :
    ∃ registry, standard.build preset = .ok registry := by
  obtain ⟨registry, hbuild, -⟩ := any_toOption.mp (standard_checked preset)
  exact ⟨registry, hbuild⟩

/-- The standard registry passes all checks. -/
theorem checked_of_standard (h : standard.build preset = .ok registry) :
    registry.isModest = true ∧ ∀ fork, registry.isAligned fork = true := by
  obtain ⟨_, hbuild, hchecked⟩ := any_toOption.mp (standard_checked preset)
  cases hbuild.symm.trans h
  simp only [Bool.and_eq_true, List.all_eq_true] at hchecked
  exact ⟨hchecked.1, fun fork => hchecked.2 fork fork.mem_all⟩

/-- Every record of a standard registry is of modest size. -/
theorem modest_of_standard (h : standard.build preset = .ok registry) {name : String}
    {schema : Schema} (hschema : registry.schema fork name = .ok schema) : schema.Modest :=
  Registry.modest_of_isModest (checked_of_standard h).1 hschema

/-- At every fork, blocks have their header, and hold the body of the same fork. -/
theorem block_of_standard (h : standard.build preset = .ok registry) (fork : Fork) :
    ∃ block header body, registry.schema fork "BeaconBlock" = .ok block ∧
      registry.schema fork "BeaconBlockHeader" = .ok header ∧
      registry.schema fork "BeaconBlockBody" = .ok body ∧ header.Heads block blockRoots ∧
      block.field? "body" = some ⟨"body", .container body⟩ := by
  have haligned := (checked_of_standard h).2 fork
  simp only [Registry.isAligned, Bool.and_eq_true] at haligned
  obtain ⟨⟨hheaded, hholds⟩, -⟩ := haligned
  obtain ⟨block, header, hblock, hheader, hheads⟩ := Registry.exists_of_isHeaded hheaded
  obtain ⟨_, body, hblock', hbody, hfield⟩ := Registry.exists_of_holds h hholds
  cases hblock.symm.trans hblock'
  exact ⟨block, header, body, hblock, hheader, hbody, hheads, hfield⟩

/-- At every fork from the merge on, execution payloads have their header. -/
theorem payload_of_standard (h : standard.build preset = .ok registry)
    (hfork : Fork.bellatrix ≤ fork) :
    ∃ payload header, registry.schema fork "ExecutionPayload" = .ok payload ∧
      registry.schema fork "ExecutionPayloadHeader" = .ok header ∧
      header.Heads payload (payloadRoots fork) := by
  have haligned := (checked_of_standard h).2 fork
  simp only [Registry.isAligned, hfork, decide_true, Bool.not_true, Bool.false_or,
    Bool.and_eq_true] at haligned
  exact Registry.exists_of_isHeaded haligned.2

end RegistryPlan

end BeaconSsz
