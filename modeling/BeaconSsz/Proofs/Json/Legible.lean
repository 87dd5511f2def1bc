import BeaconSsz.Proofs.Json.Record
import BeaconSsz.Proofs.Schema.Modest

/-!
# The JSON of values is read back

What a value is written as has no numbers and no key twice, and is nested as deep as its shape. So
the text of a value of modest size is read back as what the value is written as.
-/

namespace BeaconSsz

mutual

/-- What a value is written as is read back, as deep as the shape is nested. -/
theorem Shape.legible_of_toJson : {shape : Shape} → shape.Sound → {value : Value} → {json : Json} →
    shape.toJson value = .ok json → json.Legible shape.nesting
  | .boolean, _, value, _, h => by
    cases value with
    | boolean value => exact Except.ok.inj h ▸ .boolean value
    | _ => exact (mismatch_ne_ok.mp h).elim
  | .uint _, _, value, _, h => by
    cases value with
    | uint value | big value => exact Except.ok.inj h ▸ .string _
    | _ => exact (mismatch_ne_ok.mp h).elim
  | .byteVector _, _, value, _, h | .byteList _, _, value, _, h => by
    cases value with
    | bytes content => exact Except.ok.inj h ▸ .string _
    | _ => exact (mismatch_ne_ok.mp h).elim
  | .bitvector _, _, value, _, h | .bitlist _, _, value, _, h => by
    cases value with
    | bits content => exact Except.ok.inj h ▸ .string _
    | _ => exact (mismatch_ne_ok.mp h).elim
  | .vector element _, hSound, value, _, h => by
    cases value with
    | sequence elements =>
      simp only [Shape.toJson, bind_eq_ok, pure_eq_ok, Encoding.mapElements_eq_ok] at h
      obtain ⟨written, hwritten, rfl⟩ := h
      refine .array (forall_of_forall₂ (fun part json hjson => ?_) hwritten)
      exact Shape.legible_of_toJson hSound.2.1 hjson
    | _ => exact (mismatch_ne_ok.mp h).elim
  | .list element _, hSound, value, _, h => by
    cases value with
    | sequence elements =>
      simp only [Shape.toJson, bind_eq_ok, pure_eq_ok, Encoding.mapElements_eq_ok] at h
      obtain ⟨written, hwritten, rfl⟩ := h
      refine .array (forall_of_forall₂ (fun part json hjson => ?_) hwritten)
      exact Shape.legible_of_toJson hSound.1 hjson
    | _ => exact (mismatch_ne_ok.mp h).elim
  | .container schema, hSound, value, _, h => by
    rw [Shape.toJson] at h
    rw [Shape.nesting]
    exact Schema.legible_of_fieldsToJson hSound h

/-- What a container is written as is read back. -/
theorem Schema.legible_of_fieldsToJson : {schema : Schema} → schema.Sound → {value : Value} →
    {json : Json} → schema.fieldsToJson value = .ok json → json.Legible schema.nesting
  | ⟨_, fields, _, _, _⟩, ⟨_, hdistinct, hFields, _⟩, value, _, h => by
    cases value with
    | container values =>
      simp only [Schema.fieldsToJson, bind_eq_ok, pure_eq_ok] at h
      obtain ⟨members, hmembers, rfl⟩ := h
      obtain ⟨hkeys, hlegible⟩ := Field.legible_of_toJsonAll hFields hmembers
      exact .object (hkeys.sublist.nodup hdistinct) hlegible
    | _ => exact (Encoding.fail_ne_ok.mp h).elim

/-- What fields are written as is read back, and has the names of the fields as keys. -/
theorem Field.legible_of_toJsonAll : {fields : List Field} → Field.AllSound fields →
    {values : List Value} → {members : List (String × Json)} →
    Field.toJsonAll fields values = .ok members →
    members.map Prod.fst <+: fields.map Field.name ∧
      ∀ member ∈ members, member.2.Legible (Field.nesting fields)
  | [], _, _, _, h => by
    rw [Field.toJsonAll] at h
    · obtain rfl := Except.ok.inj h
      exact ⟨List.nil_prefix, List.forall_mem_nil _⟩
    · simp
  | _ :: _, _, [], _, h => by
    rw [Field.toJsonAll] at h
    · obtain rfl := Except.ok.inj h
      exact ⟨List.nil_prefix, List.forall_mem_nil _⟩
    · simp
  | ⟨name, shape⟩ :: fields, ⟨hShape, hFields⟩, value :: values, _, h => by
    simp only [Field.toJsonAll, bind_eq_ok, pure_eq_ok, Encoding.within_eq_ok] at h
    obtain ⟨json, hjson, members, hmembers, rfl⟩ := h
    obtain ⟨hkeys, hlegible⟩ := Field.legible_of_toJsonAll hFields hmembers
    rw [Field.nesting]
    refine ⟨List.cons_prefix_cons.mpr ⟨rfl, hkeys⟩, List.forall_mem_cons.mpr ⟨?_, ?_⟩⟩
    · exact (Shape.legible_of_toJson hShape hjson).mono (Nat.le_max_left _ _)
    · exact fun member hmember => (hlegible member hmember).mono (Nat.le_max_right _ _)

end

/-- The text that a value of a schema of modest size is written as stands for what it is written
as. -/
theorem Schema.parse?_of_toJson {schema : Schema} (hDrawn : schema.Drawn) (hModest : schema.Modest)
    {value : Value} {json : Json} (h : schema.toJson value = .ok json) {front back : List Char}
    (hfront : ∀ c ∈ front, Json.isBlank c = true) (hback : ∀ c ∈ back, Json.isBlank c = true) :
    Json.parse? (String.ofList front ++ json.pretty ++ String.ofList back) = some json := by
  rw [toJson, check_bind_eq_ok, Encoding.within_eq_ok] at h
  have hlegible := legible_of_fieldsToJson (sound_of_drawn hDrawn) h.2
  exact jsonText.parse?_pretty (hlegible.mono hModest.nesting_le) hfront hback

end BeaconSsz
