import BeaconSsz.Proofs.Root.Plain

/-!
# Roots of checked values

Hashing behind validation has three ends. A value that does not fit is refused with the error of
validation, and nothing is hashed. A value that fits has the plain root, unless it reaches a
capacity that leaves no room for one chunk more; then the sum overflows, which is the only trap
there is. Schemas in which every capacity leaves that room have roots for all values that fit.
-/

namespace BeaconSsz

mutual

/-- Every capacity that is counted in chunks leaves room for one chunk more. -/
def Shape.Roomy : Shape → Prop
  | .byteList limit => limit.toNat + 32 < wordLimit
  | .bitlist limit => limit.toNat + 256 < wordLimit
  | .vector element _ => element.Roomy
  | .list element limit =>
    if element.isBasic then limit.toNat * element.slotSize + 32 < wordLimit else element.Roomy
  | .container schema => schema.Roomy
  | .boolean | .uint _ | .byteVector _ | .bitvector _ => True

/-- Every such capacity inside the schema leaves that room. -/
def Schema.Roomy : Schema → Prop
  | ⟨_, fields, _, _, _⟩ => Field.AllRoomy fields

/-- Every such capacity inside the fields leaves that room. -/
def Field.AllRoomy : List Field → Prop
  | [] => True
  | ⟨_, shape⟩ :: fields => shape.Roomy ∧ Field.AllRoomy fields

end

mutual

/-- In a roomy shape no value overruns a capacity. -/
theorem Shape.overruns_of_roomy : {shape : Shape} → shape.Roomy → (value : Value) →
    shape.overruns value = false
  | .byteList limit, h, _ | .bitlist limit, h, _ => by
    rw [Shape.Roomy] at h
    simpa [Shape.overruns] using h
  | .vector element _, h, value => by
    rw [Shape.Roomy] at h
    have ih (part : Value) : element.overruns part = false := Shape.overruns_of_roomy h part
    cases value <;> simp [Shape.overruns, ih]
  | .list element limit, h, value => by
    rw [Shape.Roomy] at h
    cases value with
    | sequence elements =>
      rw [Shape.overruns]
      split_ifs at h ⊢ with hBasic
      · simpa using h
      · have ih (part : Value) : element.overruns part = false := Shape.overruns_of_roomy h part
        simp [ih]
    | _ => rw [Shape.overruns]; all_goals simp
  | .container schema, h, value => by
    rw [Shape.overruns]
    exact Schema.overruns_of_roomy h value
  | .boolean, _, _ | .uint _, _, _ | .byteVector _, _, _ | .bitvector _, _, _ => by
    rw [Shape.overruns]

/-- In a roomy schema no container overruns a capacity. -/
theorem Schema.overruns_of_roomy : {schema : Schema} → schema.Roomy → (value : Value) →
    schema.overruns value = false
  | ⟨_, fields, _, _, _⟩, h, value => by
    cases value with
    | container values =>
      rw [Schema.overruns]
      exact Field.anyOverruns_of_roomy h values
    | _ => rw [Schema.overruns]; all_goals simp

/-- In roomy fields no values overrun a capacity. -/
theorem Field.anyOverruns_of_roomy : {fields : List Field} → Field.AllRoomy fields →
    (values : List Value) → Field.anyOverruns fields values = false
  | [], _, _ | _ :: _, _, [] => by
    rw [Field.anyOverruns]
    all_goals simp
  | ⟨_, _⟩ :: _, ⟨hShape, hFields⟩, value :: values => by
    rw [Field.anyOverruns, Shape.overruns_of_roomy hShape value,
      Field.anyOverruns_of_roomy hFields values, Bool.or_false]

end

namespace Schema

variable (H : TreeHash) {schema : Schema} {value : Value}

/-- A value that does not pass validation is refused with the same error. -/
theorem hashTreeRoot_of_validate_error {error : EncodeError}
    (h : schema.validate value = .error error) :
    schema.hashTreeRoot H value = .error (.refused error) := by
  rw [hashTreeRoot, h]
  rfl

/-- A value that passes validation has the plain root, unless it overruns a capacity. -/
theorem hashTreeRoot_of_validate_ok (hDrawn : schema.Drawn) (hStorable : value.Storable)
    (h : schema.validate value = .ok ()) :
    schema.hashTreeRoot H value =
      Stop.orTrap (unlessOverrun (schema.overruns value) (schema.plainRoot H.combine value)) := by
  rw [hashTreeRoot, h, ← root_eq H (sound_of_drawn hDrawn) ((validate_eq_ok hDrawn).mp h) hStorable]
  rfl

/-- A checked value is refused exactly as validation refuses it. Otherwise it has the plain root,
unless it overruns a capacity: this is the only trap, and no value of a roomy schema meets it. -/
theorem hashTreeRoot_ends (hDrawn : schema.Drawn) (hStorable : value.Storable) :
    (∀ error, schema.hashTreeRoot H value = .error (.refused error) ↔
      schema.validate value = .error error) ∧
    (∀ root, schema.hashTreeRoot H value = .ok root ↔
      schema.validate value = .ok () ∧ schema.overruns value = false ∧
        schema.plainRoot H.combine value = root) ∧
    (∀ trap, schema.hashTreeRoot H value = .error (.trapped trap) ↔
      schema.validate value = .ok () ∧ schema.overruns value = true ∧ .addOverflow = trap) ∧
    (schema.Roomy → schema.overruns value = false) := by
  refine ⟨fun error => ?_, fun root => ?_, fun trap => ?_, fun h => overruns_of_roomy h value⟩
  all_goals
    cases hvalid : schema.validate value with
    | error other => simp [hashTreeRoot_of_validate_error H hvalid]
    | ok =>
      rw [hashTreeRoot_of_validate_ok H hDrawn hStorable hvalid, unlessOverrun]
      cases schema.overruns value <;> simp [Stop.orTrap, Except.mapError]

/-- The value of the example has a root, and one of another kind is refused. -/
theorem hashTreeRoot_outerValue :
    outerExample.Roomy ∧ outerValue.Storable ∧
      outerExample.hashTreeRoot TreeHash.sha256 outerValue =
        .ok (outerExample.plainRoot Sha256.combine outerValue) ∧
      outerExample.hashTreeRoot TreeHash.sha256 (.sequence [outerValue]) =
        .error (.refused ⟨[.field "Outer"], .typeMismatch "Outer" "sequence"⟩) := by
  have hRoomy : outerExample.Roomy := by
    simp [outerExample, innerExample, Schema.Roomy, Field.AllRoomy, Shape.Roomy, Shape.isBasic,
      wordLimit]
  have hStorable : outerValue.Storable := by
    simp [outerValue, Value.Storable, Value.AllStorable]
  have hOther : (Value.sequence [outerValue]).Storable := by
    simpa [Value.Storable, Value.AllStorable] using hStorable
  obtain ⟨-, hroot, -, hroom⟩ :=
    hashTreeRoot_ends TreeHash.sha256 outerExample_drawn hStorable
  obtain ⟨hrefused, -⟩ := hashTreeRoot_ends TreeHash.sha256 outerExample_drawn hOther
  exact ⟨hRoomy, hStorable, (hroot _).mpr ⟨by decide +kernel, hroom hRoomy, rfl⟩,
    (hrefused _).mpr (by decide +kernel)⟩

/-- A container whose only field may hold as many bits as pass when it is drawn up. -/
def wideBitsExample : Schema :=
  ⟨"Wide", [⟨"marks", .bitlist 18446744073709551360⟩], 4, false, 0⟩

/-- Three bits in that field pass validation, and yet hashing them behind it traps. -/
theorem hashTreeRoot_wideBitsExample :
    wideBitsExample.Drawn ∧ (Value.container [.bits [true, false, true]]).Storable ∧
      wideBitsExample.validate (.container [.bits [true, false, true]]) = .ok () ∧
      wideBitsExample.hashTreeRoot TreeHash.sha256 (.container [.bits [true, false, true]]) =
        .error (.trapped .addOverflow) := by
  have hDrawn : wideBitsExample.Drawn :=
    ⟨make_eq_ok.mpr ⟨nofun, by decide +kernel, 4, rfl, rfl⟩, trivial, trivial⟩
  have hStorable : (Value.container [.bits [true, false, true]]).Storable := by
    simp [Value.Storable, Value.AllStorable]
  have hvalid : wideBitsExample.validate (.container [.bits [true, false, true]]) = .ok () := by
    decide +kernel
  refine ⟨hDrawn, hStorable, hvalid, ?_⟩
  rw [hashTreeRoot_of_validate_ok TreeHash.sha256 hDrawn hStorable hvalid,
    show wideBitsExample.overruns (.container [.bits [true, false, true]]) = true by decide]
  rfl

end Schema

end BeaconSsz
