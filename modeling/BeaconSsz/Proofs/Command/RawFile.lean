import BeaconSsz.Proofs.InputFile
import BeaconSsz.Proofs.Registry.Standard
import BeaconSsz.Proofs.Wire.Sizes

/-!
# Raw files are not misread

The bytes of a value may look like hexadecimal text. Where a schema is of variable size, they do
not: the first offset is the size of the fixed part, and if that is below `2 ^ 24`, the highest of
its four bytes is zero, which no text has. Where a schema is of fixed size, what is read from text
is too short. So a command on a raw file answers for the value in the file, or with an error.
-/

namespace BeaconSsz

/-- The highest of the four bytes of a number below `2 ^ 24` is zero. -/
theorem zero_mem_littleEndian {n : Nat} (h : n < 2 ^ 24) :
    (0 : UInt8) ∈ Bytes.littleEndian offsetLength n := by
  have hhigh : n / 256 / 256 / 256 % 256 = 0 := by omega
  simp only [offsetLength, Bytes.littleEndian, hhigh, List.mem_cons]
  exact .inr (.inr (.inr (.inl rfl)))

namespace Schema

variable {schema : Schema} {bytes : Bytes} {value : Value}

/-- The bytes of a value of variable size, behind a fixed part of less than `2 ^ 24` bytes, have
a zero. -/
theorem zero_mem_of_deserialize (hDrawn : schema.Drawn) (hPart : schema.fixedPart < 2 ^ 24)
    (hVariable : schema.isFixed = false) (h : schema.deserialize bytes = .ok value) :
    (0 : UInt8) ∈ bytes := by
  have hSound := sound_of_drawn hDrawn
  rw [deserialize_iff_serialize hDrawn, serialize, Encoding.within_eq_ok] at h
  obtain ⟨index, hindex⟩ := exists_firstOpen? hSound hVariable
  have hzero := zero_mem_littleEndian hPart
  rw [(encodeOffset_eq_ok.mp ((fixedPart_of_encodeFields hSound h).2 index hindex)).2,
    List.extract_eq_take_drop] at hzero
  exact List.mem_of_mem_drop (List.mem_of_mem_take hzero)

/-- Bytes of the wrong number are refused by a schema of fixed size. -/
theorem deserialize_of_length_ne (hFixed : schema.isFixed = true)
    (h : bytes.length ≠ schema.fixedPart) :
    ∃ error, schema.deserialize bytes = .error (.refused error) := by
  obtain ⟨name, fields, fixedPart, isFixed, edition⟩ := schema
  obtain rfl : isFixed = true := hFixed
  rw [deserialize, decodeFields, if_pos rfl, checkByteLength, if_neg h]
  exact ⟨_, rfl⟩

end Schema

namespace Command

variable {schema : Schema} {bytes : Bytes} {value : Value}

/-- What is read from a raw file. -/
theorem bytesOf?_of_deserialize (hDrawn : schema.Drawn) (hPart : schema.fixedPart < 2 ^ 24)
    (h : schema.deserialize bytes = .ok value) :
    (schema.isFixed = false → InputFile.bytesOf? bytes = some bytes) ∧
      (schema.isFixed = true → InputFile.bytesOf? bytes = some bytes ∨
        InputFile.bytesOf? bytes = none ∨ ∃ other error, InputFile.bytesOf? bytes = some other ∧
          schema.deserialize other = .error (.refused error)) := by
  refine ⟨fun hVariable => ?_, fun hFixed => ?_⟩
  · exact InputFile.bytesOf?_of_zero_mem
      (Schema.zero_mem_of_deserialize hDrawn hPart hVariable h)
  · have hlength : bytes.length = schema.fixedPart := by
      rw [Schema.deserialize_iff_serialize hDrawn, Schema.serialize, Encoding.within_eq_ok] at h
      exact Schema.length_of_encodeFields (Schema.sound_of_drawn hDrawn) hFixed h
    cases hread : InputFile.bytesOf? bytes with
    | none => exact .inr (.inl rfl)
    | some other =>
      by_cases hother : other = bytes
      · exact .inl (congrArg some hother)
      · have hshort := InputFile.length_lt_of_bytesOf? hread hother
        obtain ⟨error, herror⟩ :=
          Schema.deserialize_of_length_ne hFixed (hlength ▸ hshort.ne)
        exact .inr (.inr ⟨other, error, rfl, herror⟩)

/-- Reading a file is reading the bytes that its contents stand for. -/
theorem valueOfBytes_eq {contents : Bytes} (hread : InputFile.bytesOf? contents = some bytes) :
    valueOfBytes schema contents = Running.ofStop .decode (schema.deserialize bytes) := by
  rw [valueOfBytes, hread]
  rfl

/-- From a raw file comes its value or an error. -/
theorem valueOfBytes_of_deserialize (hDrawn : schema.Drawn) (hPart : schema.fixedPart < 2 ^ 24)
    (h : schema.deserialize bytes = .ok value) :
    valueOfBytes schema bytes = .ok value ∨
      ∃ error, valueOfBytes schema bytes = .error (.refused error) := by
  obtain ⟨hvariable, hfixed⟩ := bytesOf?_of_deserialize hDrawn hPart h
  have hraw (hread : InputFile.bytesOf? bytes = some bytes) :
      valueOfBytes schema bytes = .ok value := by
    rw [valueOfBytes_eq hread, h]
    rfl
  cases hFixed : schema.isFixed with
  | false => exact .inl (hraw (hvariable hFixed))
  | true =>
    rcases hfixed hFixed with hread | hnone | ⟨other, error, hread, herror⟩
    · exact .inl (hraw hread)
    · refine .inr ⟨.oddHex, ?_⟩
      rw [valueOfBytes, hnone]
      rfl
    · refine .inr ⟨.decode error, ?_⟩
      rw [valueOfBytes_eq hread, herror]
      rfl

/-- The text shown for a file is that of the value that is read from it. -/
theorem decode_eq_ok {contents : Bytes} {text : String} :
    decode schema contents = .ok text ↔ ∃ value, valueOfBytes schema contents = .ok value ∧
      ∃ json, schema.toJson value = .ok json ∧ json.pretty = text := by
  simp only [decode, Stop.orRefuse, bind_eq_ok, mapError_eq_ok, pure_eq_ok]

/-- The root shown for a file is that of the value that is read from it. -/
theorem root_eq_ok {json : Bool} {contents : Bytes} {text : String} :
    root schema json contents = .ok text ↔
      ∃ value, (if json then valueOfJson schema contents else valueOfBytes schema contents) =
          .ok value ∧
        ∃ root, schema.hashTreeRoot .sha256 value = .ok root ∧
          Hex.markedText root.bytes = text := by
  cases json <;>
    simp only [root, Bool.false_eq_true, ↓reduceIte, Running.ofStop, bind_eq_ok, mapError_eq_ok,
      pure_eq_ok]

/-- A raw file is not misread. If the schema is of variable size, the contents are taken as they
are; if it is of fixed size, they are, or they are refused, or what is read from them instead is
refused. So from a raw file comes its value or an error, and what is shown for it is the JSON of
its value or the root of its value. The fixed part of every record of a standard registry is as
small as this takes. -/
theorem rawFile_not_misread :
    (∀ schema : Schema, schema.Drawn → schema.fixedPart < 2 ^ 24 → ∀ bytes value,
      schema.deserialize bytes = .ok value →
        (schema.isFixed = false → InputFile.bytesOf? bytes = some bytes) ∧
        (schema.isFixed = true → InputFile.bytesOf? bytes = some bytes ∨
          InputFile.bytesOf? bytes = none ∨ ∃ other error,
            InputFile.bytesOf? bytes = some other ∧
              schema.deserialize other = .error (.refused error)) ∧
        (valueOfBytes schema bytes = .ok value ∨
          ∃ error, valueOfBytes schema bytes = .error (.refused error)) ∧
        (∀ text, decode schema bytes = .ok text →
          ∃ json, schema.toJson value = .ok json ∧ json.pretty = text) ∧
        ∀ text, root schema false bytes = .ok text → ∃ root,
          schema.hashTreeRoot .sha256 value = .ok root ∧ Hex.markedText root.bytes = text) ∧
    ∀ preset, ∃ registry, RegistryPlan.standard.build preset = .ok registry ∧
      ∀ fork record schema, registry.schema fork record = .ok schema →
        schema.Drawn ∧ schema.fixedPart < 2 ^ 24 := by
  refine ⟨fun schema hDrawn hPart bytes value h => ?_, fun preset => ?_⟩
  · obtain ⟨hvariable, hfixed⟩ := bytesOf?_of_deserialize hDrawn hPart h
    have hvalue := valueOfBytes_of_deserialize hDrawn hPart h
    have honly {other : Value} (hother : valueOfBytes schema bytes = .ok other) :
        other = value := by
      rcases hvalue with hsame | ⟨error, herror⟩
      · exact Except.ok.inj (hother.symm.trans hsame)
      · cases hother.symm.trans herror
    refine ⟨hvariable, hfixed, hvalue, fun text htext => ?_, fun text htext => ?_⟩
    · obtain ⟨other, hother, json, hjson, hshown⟩ := decode_eq_ok.mp htext
      exact ⟨json, honly hother ▸ hjson, hshown⟩
    · obtain ⟨other, hother, root, hroot, hshown⟩ := root_eq_ok.mp htext
      exact ⟨root, honly hother ▸ hroot, hshown⟩
  · obtain ⟨registry, hbuild⟩ := RegistryPlan.exists_standard preset
    exact ⟨registry, hbuild, fun fork record schema hschema =>
      ⟨Registry.drawn_of_schema hbuild hschema,
        (RegistryPlan.modest_of_standard hbuild hschema).fixedPart_lt⟩⟩

/-- A container of four bytes. -/
def tagExample : Schema :=
  ⟨"Tagged", [⟨"tag", .byteVector 4⟩], 4, true, 0⟩

/-- Four bytes that look like the text of one byte are a value, and the one byte is refused. Bytes
behind an offset are taken as they are. -/
theorem rawFile_tagExample :
    InputFile.bytesOf? outerBytes = some outerBytes ∧
      valueOfBytes outerExample outerBytes = .ok outerValue ∧
      tagExample.deserialize [0x30, 0x78, 0x31, 0x32] =
        .ok (.container [.bytes [0x30, 0x78, 0x31, 0x32]]) ∧
      InputFile.bytesOf? [0x30, 0x78, 0x31, 0x32] = some [0x12] ∧
      ∃ error, valueOfBytes tagExample [0x30, 0x78, 0x31, 0x32] = .error (.refused error) := by
  have hOuter : outerExample.deserialize outerBytes = .ok outerValue := by decide +kernel
  have hTagged : tagExample.deserialize [0x30, 0x78, 0x31, 0x32] =
      .ok (.container [.bytes [0x30, 0x78, 0x31, 0x32]]) := by decide +kernel
  have hread : InputFile.bytesOf? [0x30, 0x78, 0x31, 0x32] = some [0x12] := by decide +kernel
  have hDrawn : tagExample.Drawn := ⟨rfl, trivial, trivial⟩
  obtain ⟨hraw, -, -⟩ := rawFile_not_misread.1 outerExample outerExample_drawn (by decide)
    outerBytes outerValue hOuter
  obtain ⟨-, -, htagged, -⟩ := rawFile_not_misread.1 tagExample hDrawn (by decide) _ _ hTagged
  refine ⟨hraw rfl, ?_, hTagged, hread, ?_⟩
  · rw [valueOfBytes_eq (hraw rfl), hOuter]
    rfl
  · refine htagged.resolve_left ?_
    have hlength : ([0x12] : Bytes).length ≠ tagExample.fixedPart := by decide
    obtain ⟨error, herror⟩ := Schema.deserialize_of_length_ne rfl hlength
    rw [valueOfBytes_eq hread, herror]
    nofun

end Command

end BeaconSsz
