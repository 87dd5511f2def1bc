import BeaconSsz.Proofs.Json.Spelling
import BeaconSsz.Proofs.Wire.Fit

/-!
# Values as JSON and back

The values that are written are those that fit the schema, and a value is read from what is
written for it, in every spelling and from nothing else. Reading finds the value before it checks
any bound but those of bit strings, and the bounds of integers only as far as a word or 256 bits
go; what is too large or too long is left to the validation behind it.
-/

namespace BeaconSsz

namespace JsonReading

variable {α β : Type} {a : α}

/-- A refusal is no answer. -/
@[simp] theorem fail_ne_ok {cause : JsonCause} :
    (fail cause : JsonReading α) = .ok a ↔ False := by
  simp [fail, Stop.refuse]

/-- The place of an error does not matter for success. -/
@[simp] theorem within_eq_ok {step : Step} {result : JsonReading α} :
    within step result = .ok a ↔ result = .ok a :=
  mapError_eq_ok

/-- What is read from bytes is taken over. -/
@[simp] theorem ofDecoding_eq_ok {result : Decoding α} :
    ofDecoding result = .ok a ↔ result = .ok a :=
  mapError_eq_ok

/-- A check of a value is taken over. -/
@[simp] theorem ofEncoding_eq_ok {result : Encoding α} :
    ofEncoding result = .ok a ↔ result = .ok a := by
  rw [ofEncoding, Stop.orRefuse, mapError_eq_ok, mapError_eq_ok]

/-- A function succeeds on all elements exactly when it does on each one. -/
theorem mapElements_eq_ok {f : α → JsonReading β} {xs : List α} {ys : List β} :
    mapElements f xs = .ok ys ↔ List.Forall₂ (fun x y => f x = .ok y) xs ys :=
  mapM_zipIdx_eq_ok (fun _ _ => within_eq_ok) 0

end JsonReading

/-- A text is read as the integer that it is shown as, if the integer is below the limit of the
width. -/
theorem uintOfText_eq_ok {width : UInt64} {text : String} {value : Value} :
    uintOfText width text = .ok value ↔
      ∃ n, text = toString n ∧ n < uintLimit width ∧ uintOfNat width n = value := by
  have hparse (n : ℕ) : Decimal.parse? (uintLimit width) text.toList = some n ↔
      text = toString n ∧ n < uintLimit width := by
    rw [decimalText.parse?_eq_some, String.toList_inj]
  rw [uintOfText]
  cases h : Decimal.parse? (uintLimit width) text.toList with
  | none =>
    simp only [JsonReading.fail_ne_ok, false_iff, not_exists]
    rintro n ⟨htext, hn, -⟩
    exact absurd ((hparse n).mpr ⟨htext, hn⟩) (by simp [h])
  | some n =>
    obtain ⟨rfl, hn⟩ := (hparse n).mp h
    simp only [Except.ok.injEq, decimalText.write_inj, exists_eq_left', hn, true_and]

/-- A word is read from the text that it is shown as. -/
theorem uintOfText_eq_ok_uint {width : UInt64} (hnarrow : width ≤ 8) {text : String}
    {value : UInt64} :
    uintOfText width text = .ok (.uint value) ↔ text = toString value.toNat := by
  simp only [uintOfText_eq_ok, uintLimit, uintOfNat, if_pos hnarrow, Value.uint.injEq]
  constructor
  · rintro ⟨n, rfl, hn, rfl⟩
    rw [UInt64.toNat_ofNat_of_lt' hn]
  · rintro rfl
    exact ⟨_, rfl, value.toNat_lt, UInt64.ofNat_toNat⟩

/-- A wider integer is read from the text that it is shown as. -/
theorem uintOfText_eq_ok_big {width : UInt64} (hwide : 8 < width) {text : String}
    {value : BitVec 256} :
    uintOfText width text = .ok (.big value) ↔ text = toString value.toNat := by
  simp only [uintOfText_eq_ok, uintLimit, uintOfNat, if_neg (UInt64.not_le.mpr hwide),
    Value.big.injEq, Nat.one_shiftLeft]
  constructor
  · rintro ⟨n, rfl, hn, rfl⟩
    rw [BitVec.toNat_ofNat, Nat.mod_eq_of_lt hn]
  · rintro rfl
    exact ⟨_, rfl, value.isLt, by rw [BitVec.ofNat_toNat, BitVec.setWidth_eq]⟩

/-- A byte string is read from the digits that it is written with, in letters of either case and
behind the marker. -/
theorem bytesOfText_eq_ok {text : String} {bytes : Bytes} :
    bytesOfText text = .ok bytes ↔
      ∃ digits, digits.map Char.toLower = Hex.encode bytes ∧
        text = String.ofList ('0' :: 'x' :: digits) := by
  have hmarked (digits : List Char) : text = String.ofList ('0' :: 'x' :: digits) ↔
      text.toList = '0' :: 'x' :: digits := by
    rw [← String.toList_inj, String.toList_ofList]
  simp only [hmarked, ← hexText.decode?_eq_some, bytesOfText]
  constructor
  · intro h
    split at h
    · next digits hdigits =>
      split at h
      · next read hread =>
        obtain rfl := Except.ok.inj h
        exact ⟨digits, hread, hdigits⟩
      · simp at h
    · simp at h
  · rintro ⟨digits, hread, hdigits⟩
    simp only [hdigits, hread]

namespace Json

variable {json : Json}

/-- A boolean is read from itself. -/
theorem toBoolean_eq_ok {value : Bool} :
    json.toBoolean = .ok value ↔ (boolean value).Respells json := by
  rw [respells_boolean_iff]
  cases json <;> simp [toBoolean]

/-- An integer that is read from one text alone is read from all spellings of that text. -/
theorem toUint_eq_ok {width : UInt64} {value : Value} {n : ℕ}
    (htext : ∀ text, uintOfText width text = .ok value ↔ text = toString n) :
    json.toUint width = .ok value ↔ (string (toString n)).Respells json := by
  rw [respells_toString_iff]
  cases json with
  | string text => simp [toUint, htext]
  | natural word =>
    simp only [toUint, htext, decimalText.write_inj]
    simp
  | _ => simp [toUint]

/-- A byte string is read from all spellings of what is written for it. -/
theorem toBytes_eq_ok {bytes : Bytes} :
    json.toBytes = .ok bytes ↔ (ofBytes bytes).Respells json := by
  rw [respells_ofBytes_iff]
  cases json with
  | string text => simp [toBytes, bytesOfText_eq_ok]
  | _ => simp [toBytes]

/-- Only an array has elements. -/
theorem toElements_eq_ok {elements : List Json} :
    json.toElements = .ok elements ↔ json = array elements := by
  cases json <;> simp [toElements]

/-- Only an object has members. -/
theorem toMembers_eq_ok {members : List (String × Json)} :
    json.toMembers = .ok members ↔ json = object members := by
  cases json <;> simp [toMembers]

end Json

/-- A key that must be there is looked up. -/
theorem requireMember_eq_ok {name : String} {members : List (String × Json)} {json : Json} :
    requireMember name members = .ok json ↔ Json.lookup name members = some json := by
  unfold requireMember
  split <;> simp_all

/-- What a value is written as, if it is read from every spelling of that and from nothing
else. -/
structure Shape.WrittenAs (shape : Shape) (value : Value) (written : Json) : Prop where
  toJson_eq : shape.toJson value = .ok written
  respells : written.Respells written
  ofJson_iff (json : Json) : shape.ofJson json = .ok value ↔ written.Respells json

/-- The members that values are written as, one for each field and under its name. -/
structure Field.AllWrittenAs (fields : List Field) (values : List Value)
    (written : List (String × Json)) : Prop where
  toJsonAll_eq : Field.toJsonAll fields values = .ok written
  keys : written.map Prod.fst = fields.map Field.name
  respells : List.Forall₂ Json.Respells (written.map Prod.snd) (written.map Prod.snd)
  ofJsonAll_iff (members : List (String × Json)) :
    Field.ofJsonAll fields members = .ok values ↔
      (Json.object written).Respells (.object members)

namespace Shape

/-- A boolean is written as itself. -/
theorem writtenAs_boolean (value : Bool) : boolean.WrittenAs (.boolean value) (.boolean value) where
  toJson_eq := rfl
  respells := .boolean value
  ofJson_iff json := by
    simp only [ofJson, bind_eq_ok, pure_eq_ok, Value.boolean.injEq, exists_eq_right,
      Json.toBoolean_eq_ok]

/-- An integer of up to eight bytes is written as its decimal string. -/
theorem writtenAs_uint {width : UInt64} (hnarrow : width ≤ 8) (value : UInt64) :
    (uint width).WrittenAs (.uint value) (.string (toString value.toNat)) where
  toJson_eq := rfl
  respells := .string _
  ofJson_iff json := by
    rw [ofJson]
    exact Json.toUint_eq_ok fun _ => uintOfText_eq_ok_uint hnarrow

/-- So is a wider one. -/
theorem writtenAs_big {width : UInt64} (hwide : 8 < width) (value : BitVec 256) :
    (uint width).WrittenAs (.big value) (.string (toString value.toNat)) where
  toJson_eq := rfl
  respells := .string _
  ofJson_iff json := by
    rw [ofJson]
    exact Json.toUint_eq_ok fun _ => uintOfText_eq_ok_big hwide

/-- A byte string is written as its digits. Its length is not looked at. -/
theorem writtenAs_byteVector (length : UInt64) (content : Bytes) :
    (byteVector length).WrittenAs (.bytes content) (Json.ofBytes content) where
  toJson_eq := rfl
  respells := .string _
  ofJson_iff json := by
    simp only [ofJson, bind_eq_ok, pure_eq_ok, Value.bytes.injEq, exists_eq_right,
      Json.toBytes_eq_ok]

/-- So is one of variable length. -/
theorem writtenAs_byteList (limit : UInt64) (content : Bytes) :
    (byteList limit).WrittenAs (.bytes content) (Json.ofBytes content) :=
  -- Neither shape looks at its bound, so both unfold to the same.
  have hvector := writtenAs_byteVector limit content
  ⟨hvector.toJson_eq, hvector.respells, hvector.ofJson_iff⟩

/-- A bit string of the right length is written as the digits of its bytes. -/
theorem writtenAs_bitvector {length : UInt64} (hroom : length.toNat + 7 < wordLimit)
    {content : List Bool} (hlength : content.length = length.toNat) :
    (bitvector length).WrittenAs (.bits content) (Json.ofBytes (Bits.pack content)) where
  toJson_eq := rfl
  respells := .string _
  ofJson_iff json := by
    simp only [ofJson, bind_eq_ok, pure_eq_ok, Value.bits.injEq, exists_eq_right,
      Json.toBytes_eq_ok, JsonReading.ofDecoding_eq_ok, decodeBitvector_eq_ok hroom, hlength,
      true_and, exists_eq_right']

/-- A bit string within its limit is written as the digits of its bytes and the delimiter. -/
theorem writtenAs_bitlist {limit : UInt64} {content : List Bool}
    (hlimit : content.length ≤ limit.toNat) :
    (bitlist limit).WrittenAs (.bits content) (Json.ofBytes (Bits.packDelimited content)) where
  toJson_eq := rfl
  respells := .string _
  ofJson_iff json := by
    simp only [ofJson, bind_eq_ok, pure_eq_ok, Value.bits.injEq, exists_eq_right,
      Json.toBytes_eq_ok, JsonReading.ofDecoding_eq_ok,
      decodeBitlist_eq_ok (toNat_lt_wordLimit limit), hlimit, true_and, exists_eq_right']

/-- Elements are read from an array exactly where each is read from a spelling of what it is
written as. -/
theorem forall₂_ofJson_iff {element : Shape} {values : List Value} {written elements : List Json}
    (h : List.Forall₂ element.WrittenAs values written) :
    List.Forall₂ (fun json value => element.ofJson json = .ok value) elements values ↔
      List.Forall₂ Json.Respells written elements := by
  induction h generalizing elements with
  | nil => rw [List.forall₂_nil_left_iff, List.forall₂_nil_right_iff]
  | cons hvalue _ ih =>
    simp only [List.forall₂_cons_left_iff, List.forall₂_cons_right_iff, hvalue.ofJson_iff, ih]

/-- Elements that are written one by one are written together. -/
theorem mapElements_toJson_eq {element : Shape} {values : List Value} {written : List Json}
    (h : List.Forall₂ element.WrittenAs values written) :
    Encoding.mapElements element.toJson values = .ok written :=
  Encoding.mapElements_eq_ok.mpr (h.imp fun _ _ hvalue => hvalue.toJson_eq)

/-- An array of things that are among their own spellings is one of its own spellings. -/
theorem respells_array {element : Shape} {values : List Value} {written : List Json}
    (h : List.Forall₂ element.WrittenAs values written) :
    (Json.array written).Respells (.array written) :=
  .array (List.forall₂_same.mpr (forall_of_forall₂ (fun _ _ hvalue => hvalue.respells) h))

/-- Elements are written as an array. Their number is not looked at. -/
theorem writtenAs_vector {element : Shape} (length : UInt64) {values : List Value}
    {written : List Json} (h : List.Forall₂ element.WrittenAs values written) :
    (vector element length).WrittenAs (.sequence values) (.array written) where
  toJson_eq := by
    rw [toJson, mapElements_toJson_eq h]
    rfl
  respells := respells_array h
  ofJson_iff json := by
    simp only [ofJson, bind_eq_ok, pure_eq_ok, Value.sequence.injEq, exists_eq_right,
      Json.toElements_eq_ok, JsonReading.mapElements_eq_ok, forall₂_ofJson_iff h,
      Json.respells_array_iff]

/-- So are those of variable number. -/
theorem writtenAs_list {element : Shape} (limit : UInt64) {values : List Value}
    {written : List Json} (h : List.Forall₂ element.WrittenAs values written) :
    (list element limit).WrittenAs (.sequence values) (.array written) :=
  have hvector := writtenAs_vector limit h
  ⟨hvector.toJson_eq, hvector.respells, hvector.ofJson_iff⟩

/-- A container is written as an object, if its fields have different names. -/
theorem writtenAs_container {schema : Schema} (hdistinct : (schema.fields.map Field.name).Nodup)
    {values : List Value} {written : List (String × Json)}
    (h : Field.AllWrittenAs schema.fields values written) :
    (container schema).WrittenAs (.container values) (.object written) where
  toJson_eq := by
    obtain ⟨name, fields, _, _, _⟩ := schema
    rw [toJson, Schema.fieldsToJson, h.toJsonAll_eq]
    rfl
  respells := by
    -- With a key twice the second value would not be found under it.
    have hkeys : (written.map Prod.fst).Nodup := h.keys ▸ hdistinct
    exact (Json.respells_object_iff_perm hkeys hkeys).mpr
      ⟨written, [], by rw [List.append_nil], rfl, h.respells⟩
  ofJson_iff json := by
    obtain ⟨name, fields, _, _, _⟩ := schema
    simp only [ofJson, Schema.fieldsOfJson, bind_eq_ok, pure_eq_ok, Value.container.injEq,
      exists_eq_right, Json.toMembers_eq_ok, h.ofJsonAll_iff]
    constructor
    · rintro ⟨members, rfl, hmembers⟩
      exact hmembers
    · intro hjson
      obtain ⟨members, rfl⟩ := Json.exists_of_respells_object hjson
      exact ⟨members, rfl, hjson⟩

end Shape

/-- No fields are written as no members. -/
theorem Field.allWrittenAs_nil : Field.AllWrittenAs [] [] [] where
  toJsonAll_eq := by
    rw [toJsonAll]
    simp
  keys := rfl
  respells := .nil
  ofJsonAll_iff members := iff_of_true rfl (Json.respells_object_nil members)

/-- One field more is written as one member more. -/
theorem Field.allWrittenAs_cons {name : String} {shape : Shape} {fields : List Field}
    {value : Value} {values : List Value} {json : Json} {written : List (String × Json)}
    (hvalue : shape.WrittenAs value json) (hvalues : Field.AllWrittenAs fields values written) :
    Field.AllWrittenAs (⟨name, shape⟩ :: fields) (value :: values) ((name, json) :: written) where
  toJsonAll_eq := by
    rw [toJsonAll, hvalue.toJson_eq, hvalues.toJsonAll_eq]
    rfl
  keys := congrArg (name :: ·) hvalues.keys
  respells := .cons hvalue.respells hvalues.respells
  ofJsonAll_iff members := by
    rw [Json.respells_object_cons, ← hvalues.ofJsonAll_iff]
    simp only [ofJsonAll, bind_eq_ok, pure_eq_ok, JsonReading.within_eq_ok, requireMember_eq_ok,
      List.cons.injEq, ← hvalue.ofJson_iff]
    constructor
    · rintro ⟨_, hfield, _, hfields, rfl, rfl⟩
      exact ⟨hfield, hfields⟩
    · rintro ⟨hfield, hfields⟩
      exact ⟨_, hfield, _, hfields, rfl, rfl⟩

mutual

/-- Every value that fits a shape is written. -/
theorem Shape.exists_writtenAs : {shape : Shape} → shape.Sound → {value : Value} →
    shape.Fits value → ∃ written, shape.WrittenAs value written
  | .boolean, _, value, h => by
    cases value with
    | boolean value => exact ⟨_, Shape.writtenAs_boolean value⟩
    | _ => exact h.elim
  | .uint width, _, value, h => by
    cases value with
    | uint value => exact ⟨_, Shape.writtenAs_uint h.1 value⟩
    | big value => exact ⟨_, Shape.writtenAs_big h.1 value⟩
    | _ => exact h.elim
  | .byteVector length, _, value, h => by
    cases value with
    | bytes content => exact ⟨_, Shape.writtenAs_byteVector length content⟩
    | _ => exact h.elim
  | .byteList limit, _, value, h => by
    cases value with
    | bytes content => exact ⟨_, Shape.writtenAs_byteList limit content⟩
    | _ => exact h.elim
  | .bitvector _, hSound, value, h => by
    cases value with
    | bits content => exact ⟨_, Shape.writtenAs_bitvector hSound.2 h⟩
    | _ => exact h.elim
  | .bitlist _, _, value, h => by
    cases value with
    | bits content => exact ⟨_, Shape.writtenAs_bitlist h⟩
    | _ => exact h.elim
  | .vector element length, hSound, value, h => by
    cases value with
    | sequence elements =>
      obtain ⟨written, hwritten⟩ := exists_forall₂.mpr fun part hpart =>
        Shape.exists_writtenAs hSound.2.1 (h.2 part hpart)
      exact ⟨_, Shape.writtenAs_vector length hwritten⟩
    | _ => exact h.elim
  | .list element limit, hSound, value, h => by
    cases value with
    | sequence elements =>
      obtain ⟨written, hwritten⟩ := exists_forall₂.mpr fun part hpart =>
        Shape.exists_writtenAs hSound.1 (h.2 part hpart)
      exact ⟨_, Shape.writtenAs_list limit hwritten⟩
    | _ => exact h.elim
  | .container schema, hSound, value, h => by
    rw [Shape.Fits] at h
    exact Schema.exists_writtenAs hSound h

/-- Every container whose parts fit is written. -/
theorem Schema.exists_writtenAs : {schema : Schema} → schema.Sound → {value : Value} →
    schema.Fits value → ∃ written, (Shape.container schema).WrittenAs value written
  | ⟨_, fields, _, _, _⟩, ⟨_, hdistinct, hFields, _⟩, value, h => by
    cases value with
    | container values =>
      obtain ⟨written, hwritten⟩ := Field.exists_allWrittenAs hFields h
      exact ⟨_, Shape.writtenAs_container hdistinct hwritten⟩
    | _ => exact h.elim

/-- Values that fit the fields are written. -/
theorem Field.exists_allWrittenAs : {fields : List Field} → Field.AllSound fields →
    {values : List Value} → Field.AllFit fields values →
    ∃ written, Field.AllWrittenAs fields values written
  | [], _, [], _ => ⟨[], Field.allWrittenAs_nil⟩
  | ⟨_, _⟩ :: _, ⟨hShape, hFields⟩, _ :: _, ⟨hvalue, hvalues⟩ => by
    obtain ⟨_, hjson⟩ := Shape.exists_writtenAs hShape hvalue
    obtain ⟨_, hwritten⟩ := Field.exists_allWrittenAs hFields hvalues
    exact ⟨_, Field.allWrittenAs_cons hjson hwritten⟩

end

namespace Schema

variable {schema : Schema} {value : Value} {json : Json}

/-- A value is read through a schema if it is read field by field and passes validation. -/
theorem ofJson_eq_ok :
    schema.ofJson json = .ok value ↔
      schema.fieldsOfJson json = .ok value ∧ schema.validate value = .ok () := by
  simp only [ofJson, bind_eq_ok, JsonReading.within_eq_ok, JsonReading.ofEncoding_eq_ok,
    pure_eq_ok]
  constructor
  · rintro ⟨_, hread, ⟨⟩, hvalid, rfl⟩
    exact ⟨hread, hvalid⟩
  · rintro ⟨hread, hvalid⟩
    exact ⟨value, hread, (), hvalid, rfl⟩

/-- A value that passes validation is written, and it is read from what is written, in every
spelling and from nothing else. -/
theorem exists_toJson (hDrawn : schema.Drawn) (hvalid : schema.validate value = .ok ()) :
    ∃ written, schema.toJson value = .ok written ∧ written.Respells written ∧
      ∀ json, schema.ofJson json = .ok value ↔ written.Respells json := by
  obtain ⟨written, htoJson, hself, hofJson⟩ :=
    exists_writtenAs (sound_of_drawn hDrawn) ((validate_eq_ok hDrawn).mp hvalid)
  refine ⟨written, ?_, hself, fun json => ?_⟩
  · rw [Shape.toJson] at htoJson
    rw [toJson, check_bind_eq_ok, Encoding.within_eq_ok]
    exact ⟨hvalid, htoJson⟩
  · rw [ofJson_eq_ok, ← hofJson, Shape.ofJson]
    exact and_iff_left hvalid

/-- A value is written exactly if it passes validation, and refused with the same error otherwise.
It is read from what is written for it, in every spelling. -/
theorem ofJson_toJson (hDrawn : schema.Drawn) (value : Value) :
    ((∃ written, schema.toJson value = .ok written) ↔ schema.validate value = .ok ()) ∧
    (∀ error, schema.toJson value = .error error ↔ schema.validate value = .error error) ∧
    (∀ written, schema.toJson value = .ok written →
      schema.ofJson written = .ok value ∧
        ∀ json, written.Respells json → schema.ofJson json = .ok value) := by
  cases hvalid : schema.validate value with
  | error error =>
    have herror : schema.toJson value = .error error := by
      rw [toJson, hvalid]
      rfl
    simp [herror]
  | ok =>
    obtain ⟨written, hwritten, hself, hread⟩ := exists_toJson hDrawn hvalid
    simp only [hwritten, Except.ok.injEq, exists_eq', reduceCtorEq, implies_true, forall_eq',
      true_and]
    exact ⟨(hread written).mpr hself, fun json hjson => (hread json).mpr hjson⟩

/-- What is written for the value of the example. -/
def outerJson : Json :=
  .object [("flag", .boolean true), ("notes", .array [.string "0x0102", .string "0x"]),
    ("votes", .string "0x0d"),
    ("inner", .object [("count", .string "258"), ("marks", .string "0x03")])]

/-- Another spelling of it, in another order and with a member more. -/
def respelledJson : Json :=
  .object [("votes", .string "0x0D"), ("epoch", .null),
    ("inner", .object [("marks", .string "0x03"), ("count", .natural 258)]),
    ("flag", .boolean true), ("notes", .array [.string "0x0102", .string "0x"])]

/-- It is another spelling. -/
theorem respells_respelledJson : outerJson.Respells respelledJson := by
  have hvotes : (Json.ofBytes [13]).Respells (.string "0x0D") :=
    Json.respells_ofBytes_iff.mpr ⟨['0', 'D'], by decide, rfl⟩
  have hinner : (Json.object [("count", .string "258"), ("marks", .string "0x03")]).Respells
      (.object [("marks", .string "0x03"), ("count", .natural 258)]) :=
    .object (.cons rfl (.cons rfl .nil)) (.cons (.unquoted 258) (.cons (.string _) .nil))
  have hnotes : (Json.array [.string "0x0102", .string "0x"]).Respells
      (.array [.string "0x0102", .string "0x"]) :=
    .array (.cons (.string _) (.cons (.string _) .nil))
  exact .object (.cons rfl (.cons rfl (.cons rfl (.cons rfl .nil))))
    (.cons (.boolean true) (.cons hnotes (.cons hvotes (.cons hinner .nil))))

/-- The value of the example is read from what is written for it and from the other spelling. -/
theorem ofJson_respelledJson :
    outerExample.toJson outerValue = .ok outerJson ∧
      outerExample.ofJson outerJson = .ok outerValue ∧
      outerExample.ofJson respelledJson = .ok outerValue := by
  have hwritten : outerExample.toJson outerValue = .ok outerJson := rfl
  obtain ⟨-, -, hread⟩ := ofJson_toJson outerExample_drawn outerValue
  obtain ⟨hself, hother⟩ := hread outerJson hwritten
  exact ⟨hwritten, hself, hother respelledJson respells_respelledJson⟩

/-- What is read passes validation, and the JSON that it is read from is a spelling of what is
written for it. -/
theorem respells_of_ofJson (hDrawn : schema.Drawn) (h : schema.ofJson json = .ok value) :
    schema.validate value = .ok () ∧
      ∃ written, schema.toJson value = .ok written ∧ written.Respells json := by
  have hvalid := (ofJson_eq_ok.mp h).2
  obtain ⟨written, hwritten, -, hread⟩ := exists_toJson hDrawn hvalid
  exact ⟨hvalid, written, hwritten, (hread json).mp h⟩

/-- The other spelling is read as a value that what it spells is written for. -/
theorem toJson_of_respelledJson :
    outerExample.ofJson respelledJson = .ok outerValue ∧
      ∃ written, outerExample.toJson outerValue = .ok written ∧
        written.Respells respelledJson := by
  have hread : outerExample.ofJson respelledJson = .ok outerValue := by decide +kernel
  exact ⟨hread, (respells_of_ofJson outerExample_drawn hread).2⟩

end Schema

end BeaconSsz
