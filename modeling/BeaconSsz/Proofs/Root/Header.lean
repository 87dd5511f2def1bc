import BeaconSsz.Proofs.Registry.Standard
import BeaconSsz.Proofs.Schema.ZeroValue

/-!
# Roots of headers

The root of a container is made from the roots of its fields alone, and 32 bytes are their own
root. So a field can be replaced by its root, in the schema and in the value, and the root of the
container stays. A header replaces some fields of a record in this way. For that the two have to
be aligned, which the standard registries are.
-/

namespace BeaconSsz

variable (H : TreeHash)

/-- The bytes of a root are their own root. -/
theorem Shape.root_rootBytes (root : Chunk) :
    (byteVector 32).root H (.bytes root.bytes) = .ok root := by
  have hpack : Chunk.pack root.bytes = [root] := by
    have hpieces : Bytes.pieces 32 root.bytes = [root.bytes] := by
      have hitems : ∀ item ∈ [root.bytes], item.length = 32 := by simpa using root.length_eq
      simpa using Bytes.pieces_flatten (by decide) hitems
    rw [Chunk.pack, hpieces, List.map_singleton, Chunk.ofBytes, dif_pos root.length_eq]
  rw [Shape.root, packedRoot, hpack]
  rfl

namespace Field

variable {fields others : List Field} {values : List Value} {place : Nat} {field : Field}
  {part : Value} {root : Chunk}

/-- If the first shape is known, then the first field is apart from its name. -/
theorem exists_of_map_shape_eq_cons {shape : Shape} {shapes : List Shape}
    (h : fields.map Field.shape = shape :: shapes) :
    ∃ name rest, fields = ⟨name, shape⟩ :: rest ∧ rest.map Field.shape = shapes := by
  obtain ⟨⟨name, _⟩, rest, rfl, rfl, hrest⟩ := List.map_eq_cons_iff.mp h
  exact ⟨name, rest, rfl, hrest⟩

/-- The roots of fields depend on their shapes alone. -/
theorem rootAll_congr (h : others.map Field.shape = fields.map Field.shape)
    (values : List Value) : rootAll H others values = rootAll H fields values := by
  induction fields generalizing others values with
  | nil =>
    rw [List.map_nil, List.map_eq_nil_iff] at h
    rw [h]
  | cons field fields ih =>
    obtain ⟨name, shape⟩ := field
    obtain ⟨otherName, rest, rfl, hrest⟩ := exists_of_map_shape_eq_cons h
    cases values with
    | nil => rfl
    | cons value values => rw [rootAll, rootAll, ih hrest]

/-- Whether values fit fields depends on the shapes alone. -/
theorem allFit_congr (h : others.map Field.shape = fields.map Field.shape)
    (hFits : AllFit fields values) : AllFit others values := by
  induction fields generalizing others values with
  | nil =>
    rw [List.map_nil, List.map_eq_nil_iff] at h
    rwa [h]
  | cons field fields ih =>
    obtain ⟨name, shape⟩ := field
    obtain ⟨otherName, rest, rfl, hrest⟩ := exists_of_map_shape_eq_cons h
    cases values with
    | nil => exact hFits.elim
    | cons value values => exact ⟨hFits.1, ih hrest hFits.2⟩

/-- A field replaced by its root, in shape and in value, leaves all roots as they are. -/
theorem rootAll_set (hshapes : others.map Field.shape =
      (fields.map Field.shape).set place (.byteVector 32))
    (hfield : fields[place]? = some field) (hpart : values[place]? = some part)
    (hroot : field.shape.root H part = .ok root) :
    rootAll H others (values.set place (.bytes root.bytes)) = rootAll H fields values := by
  induction fields generalizing others values place with
  | nil => simp at hfield
  | cons first fields ih =>
    obtain ⟨name, shape⟩ := first
    cases values with
    | nil => simp at hpart
    | cons value values =>
      cases place with
      | zero =>
        obtain ⟨otherName, rest, rfl, hrest⟩ := exists_of_map_shape_eq_cons hshapes
        obtain rfl : ⟨name, shape⟩ = field := by simpa using hfield
        obtain rfl : value = part := by simpa using hpart
        rw [List.set_cons_zero, rootAll, rootAll, Shape.root_rootBytes, hroot,
          rootAll_congr H hrest]
      | succ place =>
        obtain ⟨otherName, rest, rfl, hrest⟩ := exists_of_map_shape_eq_cons hshapes
        rw [List.set_cons_succ, rootAll, rootAll, ih hrest (by simpa using hfield)
          (by simpa using hpart)]

/-- A field replaced by 32 bytes, in shape and in value, leaves the values fitting. -/
theorem allFit_set (hshapes : others.map Field.shape =
      (fields.map Field.shape).set place (.byteVector 32))
    (hFits : AllFit fields values) (root : Chunk) :
    AllFit others (values.set place (.bytes root.bytes)) := by
  induction fields generalizing others values place with
  | nil =>
    rw [List.map_nil, List.set_nil, List.map_eq_nil_iff] at hshapes
    cases values with
    | nil => rwa [hshapes]
    | cons value values => exact hFits.elim
  | cons first fields ih =>
    obtain ⟨name, shape⟩ := first
    cases values with
    | nil => exact hFits.elim
    | cons value values =>
      cases place with
      | zero =>
        obtain ⟨otherName, rest, rfl, hrest⟩ := exists_of_map_shape_eq_cons hshapes
        exact ⟨root.length_eq, allFit_congr hrest hFits.2⟩
      | succ place =>
        obtain ⟨otherName, rest, rfl, hrest⟩ := exists_of_map_shape_eq_cons hshapes
        exact ⟨hFits.1, ih hrest hFits.2⟩

/-- If all fields have roots, each one has. -/
theorem exists_root_of_rootAll {roots : List Chunk} (h : rootAll H fields values = .ok roots)
    (hfield : fields[place]? = some field) (hpart : values[place]? = some part) :
    ∃ root, field.shape.root H part = .ok root := by
  induction fields generalizing values place roots with
  | nil => simp at hfield
  | cons first fields ih =>
    obtain ⟨name, shape⟩ := first
    cases values with
    | nil => simp at hpart
    | cons value values =>
      simp only [rootAll, bind_eq_ok] at h
      obtain ⟨root, hroot, rest, hrest, -⟩ := h
      cases place with
      | zero =>
        obtain rfl : ⟨name, shape⟩ = field := by simpa using hfield
        obtain rfl : value = part := by simpa using hpart
        exact ⟨root, hroot⟩
      | succ place => exact ih hrest (by simpa using hfield) (by simpa using hpart)

/-- If values fit fields, each one fits its field. -/
theorem fits_of_allFit (h : AllFit fields values) (hfield : fields[place]? = some field)
    (hpart : values[place]? = some part) : field.shape.Fits part := by
  induction fields generalizing values place with
  | nil => simp at hfield
  | cons first fields ih =>
    obtain ⟨name, shape⟩ := first
    cases values with
    | nil => simp at hpart
    | cons value values =>
      cases place with
      | zero =>
        obtain rfl : ⟨name, shape⟩ = field := by simpa using hfield
        obtain rfl : value = part := by simpa using hpart
        exact h.1
      | succ place => exact ih h.2 (by simpa using hfield) (by simpa using hpart)

end Field

namespace Schema

variable {schema header : Schema} {value : Value} {values : List Value}

/-- The root of a container is that of the tree of the roots of its fields. -/
theorem root_container_eq (h : values.length = schema.fields.length) :
    schema.root H (.container values) =
      (Field.rootAll H schema.fields values >>= fun roots => merkleize H roots roots.length) := by
  obtain ⟨name, fields, fixedPart, isFixed, edition⟩ := schema
  rw [root]
  exact if_pos h

/-- Containers whose fields have the same roots have the same root. -/
theorem root_eq_of_rootAll {others : List Value}
    (hlength : values.length = schema.fields.length) (hother : others.length = header.fields.length)
    (h : Field.rootAll H header.fields others = Field.rootAll H schema.fields values) :
    header.root H (.container others) = schema.root H (.container values) := by
  rw [root_container_eq H hlength, root_container_eq H hother, h]

/-- The field at the position of a name is the field of that name. -/
theorem getElem?_of_fieldIndex? {name : String} {place : Nat}
    (h : schema.fieldIndex? name = some place) : schema.fields[place]? = schema.field? name := by
  obtain ⟨hplace, hname, hfirst⟩ := List.findIdx?_eq_some_iff_getElem.mp h
  rw [List.getElem?_eq_getElem hplace, eq_comm, field?, List.find?_eq_some_iff_getElem]
  exact ⟨hname, place, hplace, rfl, by simpa using hfirst⟩

/-- A value that fits is a container of values that fit the fields. -/
theorem exists_of_fits (h : schema.Fits value) :
    ∃ values, value = .container values ∧ Field.AllFit schema.fields values := by
  obtain ⟨name, fields, fixedPart, isFixed, edition⟩ := schema
  cases value with
  | container values => exact ⟨values, rfl, h⟩
  | _ => exact h.elim

/-- A container of values that fit the fields fits. -/
theorem fits_container (h : Field.AllFit schema.fields values) :
    schema.Fits (.container values) := by
  obtain ⟨name, fields, fixedPart, isFixed, edition⟩ := schema
  exact h

/-- Behind validation, the root of a value that fits is the root. -/
theorem hashTreeRoot_of_fits (hDrawn : schema.Drawn) (h : schema.Fits value) :
    schema.hashTreeRoot H value = Stop.orTrap (schema.root H value) := by
  rw [hashTreeRoot, (validate_eq_ok hDrawn).mpr h]
  rfl

/-- The values in the second list are those in the first, but for some places, where they are the
roots of the fields. -/
def Rooted (schema : Schema) : List Nat → List Value → List Value → Prop
  | [], values, rooted => rooted = values
  | place :: places, values, rooted => ∃ field part root inner,
    schema.fields[place]? = some field ∧ values[place]? = some part ∧
      field.shape.root H part = .ok root ∧ Rooted schema places values inner ∧
      rooted = inner.set place (.bytes root.bytes)

variable {H} {places : List Nat} {rooted : List Value}

/-- Where no root is put, the shapes stay. -/
theorem getElem?_shapesUnder {fields : List Field} {place : Nat} (h : place ∉ places) :
    (Field.shapesUnder fields places)[place]? = (fields.map Field.shape)[place]? := by
  induction places with
  | nil => rfl
  | cons other places ih =>
    rw [List.mem_cons, not_or] at h
    rw [Field.shapesUnder, List.getElem?_set_ne (Ne.symm h.1), ih h.2]

/-- Where no root is put, the values stay. -/
theorem Rooted.getElem? (hrooted : schema.Rooted H places values rooted) {place : Nat}
    (h : place ∉ places) : rooted[place]? = values[place]? := by
  induction places generalizing rooted with
  | nil => rw [show rooted = values from hrooted]
  | cons other places ih =>
    rw [List.mem_cons, not_or] at h
    obtain ⟨_, _, _, inner, -, -, -, hinner, rfl⟩ := hrooted
    rw [List.getElem?_set_ne (Ne.symm h.1), ih hinner h.2]

/-- The places with roots are as many as before. -/
theorem Rooted.length_eq (hrooted : schema.Rooted H places values rooted) :
    rooted.length = values.length := by
  induction places generalizing rooted with
  | nil => rw [show rooted = values from hrooted]
  | cons other places ih =>
    obtain ⟨_, _, _, inner, -, -, -, hinner, rfl⟩ := hrooted
    rw [List.length_set, ih hinner]

/-- Fields replaced by their roots, in shape and in value, leave all roots as they are, and the
values fitting. -/
theorem Rooted.rootAll_eq (hrooted : schema.Rooted H places values rooted)
    (hdistinct : places.Nodup) {others : List Field}
    (hshapes : others.map Field.shape = Field.shapesUnder schema.fields places) :
    Field.rootAll H others rooted = Field.rootAll H schema.fields values ∧
      (Field.AllFit schema.fields values → Field.AllFit others rooted) := by
  induction places generalizing others rooted with
  | nil =>
    obtain rfl : rooted = values := hrooted
    exact ⟨Field.rootAll_congr H hshapes rooted, Field.allFit_congr hshapes⟩
  | cons place places ih =>
    obtain ⟨hnew, hdistinct⟩ := List.nodup_cons.mp hdistinct
    obtain ⟨field, part, root, inner, hfield, hpart, hroot, hinner, rfl⟩ := hrooted
    have hmiddle : ((Field.shapesUnder schema.fields places).map (Field.mk "")).map Field.shape =
        Field.shapesUnder schema.fields places := by
      rw [List.map_map]
      exact List.map_id _
    obtain ⟨hroots, hfits⟩ := ih hinner hdistinct hmiddle
    rw [Field.shapesUnder, ← hmiddle] at hshapes
    have hplace : ((Field.shapesUnder schema.fields places).map (Field.mk ""))[place]? =
        some ⟨"", field.shape⟩ := by
      rw [List.getElem?_map, getElem?_shapesUnder hnew, List.getElem?_map, hfield]
      rfl
    refine ⟨?_, fun h => Field.allFit_set hshapes (hfits h) root⟩
    rw [Field.rootAll_set H hshapes hplace ((hinner.getElem? hnew).trans hpart) hroot, hroots]

/-- If all fields have roots, they can be put in any places. -/
theorem exists_rooted {roots : List Chunk} (h : Field.rootAll H schema.fields values = .ok roots)
    (hlength : values.length = schema.fields.length)
    (hplaces : ∀ place ∈ places, place < schema.fields.length) :
    ∃ rooted, schema.Rooted H places values rooted := by
  induction places with
  | nil => exact ⟨values, rfl⟩
  | cons place places ih =>
    rw [List.forall_mem_cons] at hplaces
    obtain ⟨inner, hinner⟩ := ih hplaces.2
    have hfield := List.getElem?_eq_getElem hplaces.1
    have hpart := List.getElem?_eq_getElem (hlength ▸ hplaces.1 : place < values.length)
    obtain ⟨root, hroot⟩ := Field.exists_root_of_rootAll H h hfield hpart
    exact ⟨_, _, _, root, inner, hfield, hpart, hroot, hinner, rfl⟩

/-- A container in which fields are replaced by their roots, in shape and in value, has the same
root, and fits. -/
theorem Rooted.root_eq (hrooted : schema.Rooted H places values rooted)
    (hdistinct : places.Nodup)
    (hshapes : header.fields.map Field.shape = Field.shapesUnder schema.fields places)
    (hFits : Field.AllFit schema.fields values) :
    header.root H (.container rooted) = schema.root H (.container values) ∧
      header.Fits (.container rooted) := by
  obtain ⟨hroots, hfits⟩ := hrooted.rootAll_eq hdistinct hshapes
  have hheader := fits_container (hfits hFits)
  exact ⟨root_eq_of_rootAll H hFits.length_eq (hfits hFits).length_eq hroots, hheader⟩

/-- The same holds behind validation. -/
theorem Rooted.hashTreeRoot_eq (hrooted : schema.Rooted H places values rooted)
    (hdistinct : places.Nodup) (hDrawn : schema.Drawn) (hHeader : header.Drawn)
    (hshapes : header.fields.map Field.shape = Field.shapesUnder schema.fields places)
    (hFits : Field.AllFit schema.fields values) :
    header.hashTreeRoot H (.container rooted) = schema.hashTreeRoot H (.container values) := by
  obtain ⟨hroot, hheader⟩ := hrooted.root_eq hdistinct hshapes hFits
  rw [hashTreeRoot_of_fits H hHeader hheader, hroot,
    hashTreeRoot_of_fits H hDrawn (fits_container hFits)]

/-- The part of a value that fits has a root, unless a capacity in it overruns. -/
theorem exists_root_of_field (hDrawn : schema.Drawn) (hFits : Field.AllFit schema.fields values)
    {place : Nat} {field : Field} {part : Value} (hfield : schema.fields[place]? = some field)
    (hpart : values[place]? = some part) (hStorable : part.Storable)
    (hOverruns : field.shape.overruns part = false) :
    ∃ root, field.shape.root H part = .ok root := by
  obtain ⟨-, -, hSounds, -⟩ := sound_iff.mp (sound_of_drawn hDrawn)
  have hPart := Field.fits_of_allFit hFits hfield hpart
  rw [Shape.root_eq H (hSounds.get hfield) hPart hStorable, hOverruns]
  exact ⟨_, rfl⟩

/-- A field without a root leaves the container without one. -/
theorem root_ne_ok (hFits : Field.AllFit schema.fields values) {place : Nat} {field : Field}
    {part : Value} (hfield : schema.fields[place]? = some field)
    (hpart : values[place]? = some part) {trap : Trap}
    (htrap : field.shape.root H part = .error trap) (root : Chunk) :
    schema.root H (.container values) ≠ .ok root := by
  intro h
  rw [root_container_eq H hFits.length_eq, bind_eq_ok] at h
  obtain ⟨roots, hroots, -⟩ := h
  obtain ⟨own, hown⟩ := Field.exists_root_of_rootAll H hroots hfield hpart
  cases htrap.symm.trans hown

/-- Every valid value of a schema of modest size has a header value, in which any of its parts are
replaced by their roots. The header, if it is aligned with the schema, has the same root. -/
theorem Heads.exists_rooted {roots : List (Nat × String × String)} (hheads : header.Heads schema roots)
    (hdistinct : (roots.map Prod.fst).Nodup) (hDrawn : schema.Drawn) (hHeader : header.Drawn)
    (hModest : schema.Modest) (hValid : schema.validate value = .ok ()) :
    ∃ values rooted root, value = .container values ∧
      schema.Rooted H (roots.map Prod.fst) values rooted ∧
      schema.hashTreeRoot H value = .ok root ∧
      header.hashTreeRoot H (.container rooted) = .ok root := by
  obtain ⟨values, rfl, hFits⟩ := exists_of_fits ((validate_eq_ok hDrawn).mp hValid)
  have hroot := hashTreeRoot_of_modest H hDrawn hModest hValid
  have hplain := hroot
  rw [hashTreeRoot_of_fits H hDrawn (fits_container hFits), Stop.orTrap_eq_ok,
    root_container_eq H hFits.length_eq, bind_eq_ok] at hplain
  obtain ⟨chunks, hchunks, -⟩ := hplain
  have hplaces : ∀ place ∈ roots.map Prod.fst, place < schema.fields.length := by
    rw [List.forall_mem_map]
    intro entry hentry
    have hplace := (hheads.places entry hentry).1
    exact (List.findIdx?_eq_some_iff_getElem.mp hplace).1
  obtain ⟨rooted, hrooted⟩ := Schema.exists_rooted hchunks hFits.length_eq hplaces
  refine ⟨values, rooted, _, rfl, hrooted, hroot, ?_⟩
  rw [hrooted.hashTreeRoot_eq hdistinct hDrawn hHeader hheads.shapes hFits, hroot]

/-- A field can be replaced by its root, in the schema and in every valid value, and the root of
the container stays. The field has a root unless a capacity in it overruns, and if it has none,
then the container has none. In the standard registries, therefore, a block has the root of the
header that has the root of its body, and from the merge on an execution payload has the root of
the header that has the roots of its transactions and, where there are any, of its withdrawals. -/
theorem root_replaced_by_roots (H : TreeHash) :
    (∀ (schema replaced : Schema) (place : Nat) (field : Field) (value : Value), schema.Drawn →
      schema.validate value = .ok () → schema.fields[place]? = some field →
      replaced.fields.map Field.shape =
        (schema.fields.map Field.shape).set place (.byteVector 32) →
      ∃ values part, value = .container values ∧ values[place]? = some part ∧
        (part.Storable → field.shape.overruns part = false →
          ∃ root, field.shape.root H part = .ok root) ∧
        (∀ root, field.shape.root H part = .ok root →
          schema.root H value =
              replaced.root H (.container (values.set place (.bytes root.bytes))) ∧
            (replaced.Drawn → schema.hashTreeRoot H value =
              replaced.hashTreeRoot H (.container (values.set place (.bytes root.bytes))))) ∧
        ∀ trap, field.shape.root H part = .error trap → ∀ root, schema.root H value ≠ .ok root) ∧
    ∀ preset, ∃ registry, RegistryPlan.standard.build preset = .ok registry ∧
      (∀ fork, ∃ block header body place, registry.schema fork "BeaconBlock" = .ok block ∧
        registry.schema fork "BeaconBlockHeader" = .ok header ∧
        registry.schema fork "BeaconBlockBody" = .ok body ∧
        block.fieldIndex? "body" = some place ∧ header.fieldIndex? "body_root" = some place ∧
        ∀ value, block.validate value = .ok () → ∃ values content bodyRoot root,
          value = .container values ∧ values[place]? = some content ∧
            body.hashTreeRoot H content = .ok bodyRoot ∧
            block.hashTreeRoot H value = .ok root ∧
            header.hashTreeRoot H (.container (values.set place (.bytes bodyRoot.bytes))) =
              .ok root) ∧
      ∀ fork, Fork.bellatrix ≤ fork → ∃ payload header,
        registry.schema fork "ExecutionPayload" = .ok payload ∧
        registry.schema fork "ExecutionPayloadHeader" = .ok header ∧
        header.Heads payload (payloadRoots fork) ∧
        ∀ value, payload.validate value = .ok () → ∃ values rooted root,
          value = .container values ∧
            payload.Rooted H ((payloadRoots fork).map Prod.fst) values rooted ∧
            payload.hashTreeRoot H value = .ok root ∧
            header.hashTreeRoot H (.container rooted) = .ok root := by
  refine ⟨?general, fun preset => ?_⟩
  case general =>
    intro schema replaced place field value hDrawn hValid hfield hshapes
    obtain ⟨values, rfl, hFits⟩ := exists_of_fits ((validate_eq_ok hDrawn).mp hValid)
    have hplace : place < values.length :=
      hFits.length_eq ▸ (List.getElem?_eq_some_iff.mp hfield).1
    have hpart := List.getElem?_eq_getElem hplace
    refine ⟨values, values[place], rfl, hpart, exists_root_of_field hDrawn hFits hfield hpart,
      fun root hroot => ?_, fun trap htrap => root_ne_ok hFits hfield hpart htrap⟩
    have hrooted : schema.Rooted H [place] values (values.set place (.bytes root.bytes)) :=
      ⟨field, _, root, values, hfield, hpart, hroot, rfl, rfl⟩
    have hsingle := List.nodup_singleton place
    exact ⟨(hrooted.root_eq hsingle hshapes hFits).1.symm, fun hReplaced =>
      (hrooted.hashTreeRoot_eq hsingle hDrawn hReplaced hshapes hFits).symm⟩
  obtain ⟨registry, hbuild⟩ := RegistryPlan.exists_standard preset
  refine ⟨registry, hbuild, fun fork => ?block, fun fork hfork => ?payload⟩
  case block =>
    obtain ⟨block, header, body, hblock, hheader, hbody, hheads, hfield⟩ :=
      RegistryPlan.block_of_standard hbuild fork
    have hDrawn := Registry.drawn_of_schema hbuild hblock
    have hHeader := Registry.drawn_of_schema hbuild hheader
    have hBody := Registry.drawn_of_schema hbuild hbody
    have hModest := RegistryPlan.modest_of_standard hbuild hblock
    obtain ⟨hplace, hheaderPlace⟩ := hheads.places (4, "body", "body_root") List.mem_cons_self
    refine ⟨block, header, body, 4, hblock, hheader, hbody, hplace, hheaderPlace,
      fun value hValid => ?_⟩
    obtain ⟨values, rooted, root, rfl, hrooted, hroot, hheaderRoot⟩ :=
      hheads.exists_rooted (H := H) (by decide) hDrawn hHeader hModest hValid
    obtain ⟨_, content, bodyRoot, inner, hat, hcontent, hbodyRoot, hinner, rfl⟩ := hrooted
    obtain rfl : inner = values := hinner
    rw [← getElem?_of_fieldIndex? hplace] at hfield
    cases hat.symm.trans hfield
    obtain ⟨_, ⟨⟩, hFits⟩ := exists_of_fits ((validate_eq_ok hDrawn).mp hValid)
    have hcontentFits : body.Fits content := Field.fits_of_allFit hFits hfield hcontent
    refine ⟨inner, content, bodyRoot, root, rfl, hcontent, ?_, hroot, hheaderRoot⟩
    rw [hashTreeRoot_of_fits H hBody hcontentFits, ← Shape.root_container]
    exact Stop.orTrap_eq_ok.mpr hbodyRoot
  case payload =>
    obtain ⟨payload, header, hpayload, hheader, hheads⟩ :=
      RegistryPlan.payload_of_standard hbuild hfork
    refine ⟨payload, header, hpayload, hheader, hheads, fun value hValid => ?_⟩
    refine hheads.exists_rooted ?_ (Registry.drawn_of_schema hbuild hpayload)
      (Registry.drawn_of_schema hbuild hheader) (RegistryPlan.modest_of_standard hbuild hpayload)
      hValid
    rw [payloadRoots]
    split <;> decide

/-- The example with the root of its last field in the place of it. -/
def rootedExample : Schema :=
  ⟨"Rooted", [⟨"flag", .boolean⟩, ⟨"notes", .list (.byteList 8) 4⟩, ⟨"votes", .bitlist 10⟩,
    ⟨"inner_root", .byteVector 32⟩], 41, false, 1⟩

/-- The inner container of the example can be replaced by its root. The all-zero block of the first
fork has the root of a header. -/
theorem root_rootedExample :
    (∃ root, innerExample.root TreeHash.sha256 (.container [.uint 258, .bits [true, true, false]]) =
        .ok root ∧
      outerExample.root TreeHash.sha256 outerValue =
        rootedExample.root TreeHash.sha256 (.container [.boolean true,
          .sequence [.bytes [1, 2], .bytes []], .bits [true, false, true],
          .bytes root.bytes])) ∧
    ∃ registry block header, RegistryPlan.standard.build .minimal = .ok registry ∧
      registry.schema .phase0 "BeaconBlock" = .ok block ∧
      registry.schema .phase0 "BeaconBlockHeader" = .ok header ∧
      ∃ summary root, block.hashTreeRoot TreeHash.sha256 block.zeroValue = .ok root ∧
        header.hashTreeRoot TreeHash.sha256 summary = .ok root := by
  obtain ⟨hgeneral, hstandard⟩ := root_replaced_by_roots TreeHash.sha256
  constructor
  · have hValid : outerExample.validate outerValue = .ok () := by decide +kernel
    obtain ⟨_, _, ⟨⟩, ⟨⟩, hexists, hsame, -⟩ := hgeneral outerExample rootedExample 3
      ⟨"inner", .container innerExample⟩ outerValue outerExample_drawn hValid rfl rfl
    have hStorable : (Value.container [.uint 258, .bits [true, true, false]]).Storable := by
      simp [Value.Storable, Value.AllStorable]
    obtain ⟨root, hinner⟩ := hexists hStorable (by decide)
    exact ⟨root, Shape.root_container .. ▸ hinner, (hsame root hinner).1⟩
  · obtain ⟨registry, hbuild, hblocks, -⟩ := hstandard .minimal
    obtain ⟨block, header, body, place, hblock, hheader, -, -, -, hroots⟩ := hblocks .phase0
    have hDrawn := Registry.drawn_of_schema hbuild hblock
    have hFits := Schema.fits_zeroValue (sound_of_drawn hDrawn)
    obtain ⟨_, _, _, root, -, -, -, hroot, hheaderRoot⟩ :=
      hroots block.zeroValue ((validate_eq_ok hDrawn).mpr hFits)
    exact ⟨registry, block, header, hbuild, hblock, hheader, _, root, hroot, hheaderRoot⟩

end Schema

end BeaconSsz
