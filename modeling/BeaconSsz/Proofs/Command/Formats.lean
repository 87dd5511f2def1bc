import BeaconSsz.Proofs.Command.RawFile
import BeaconSsz.Proofs.Json.Legible

/-!
# The formats agree

What a command shows for bytes can be given back to the commands. The JSON of a value encodes to
the bytes that the value was read from, and has the same root; the hexadecimal text of these bytes
decodes to the same JSON. None of these steps can fail behind the first one: the value that was
read fits its schema, and the records of the standard registries are of modest size.
-/

namespace BeaconSsz

/-- One value in all its forms, each of which leads to the others. -/
structure Schema.Forms (schema : Schema) (value : Value) (bytes : Bytes) (json : Json)
    (root : Chunk) : Prop where
  deserialize_eq : schema.deserialize bytes = .ok value
  serialize_eq : schema.serialize value = .ok bytes
  toJson_eq : schema.toJson value = .ok json
  ofJson_eq : schema.ofJson json = .ok value
  hashTreeRoot_eq : schema.hashTreeRoot .sha256 value = .ok root

/-- A value that is read from bytes has all forms, if the schema is of modest size. -/
theorem Schema.exists_forms {schema : Schema} (hDrawn : schema.Drawn) (hModest : schema.Modest)
    {value : Value} {bytes : Bytes} (h : schema.deserialize bytes = .ok value) :
    ∃ json root, schema.Forms value bytes json root := by
  have hserialize := (deserialize_iff_serialize hDrawn).mp h
  have hvalid := (validate_eq_ok hDrawn).mpr (fits_of_serialize hDrawn hserialize)
  obtain ⟨json, hjson, hself, hread⟩ := exists_toJson hDrawn hvalid
  have hroot := hashTreeRoot_of_modest .sha256 hDrawn hModest hvalid
  exact ⟨json, _, h, hserialize, hjson, (hread json).mpr hself, hroot⟩

namespace Command

variable {files others : Files} {preset : Preset} {verbose : Bool} {choice : ForkChoice}
  {record file text : String} {schema : Schema} {value : Value} {contents : Bytes}

/-- What is there is taken over. -/
@[simp] theorem Running.ofOption_eq_ok {α : Type} {error : RunError} {result : Option α} {a : α} :
    Running.ofOption error result = .ok a ↔ result = some a := by
  cases result <;> simp [Running.ofOption, Stop.refuse]

/-- A value is read from the bytes that contents stand for. -/
theorem valueOfBytes_eq_ok : valueOfBytes schema contents = .ok value ↔
    ∃ bytes, InputFile.bytesOf? contents = some bytes ∧ schema.deserialize bytes = .ok value := by
  simp only [valueOfBytes, Running.ofStop, bind_eq_ok, mapError_eq_ok, Running.ofOption_eq_ok]

/-- A value is read from the JSON that contents hold. -/
theorem valueOfJson_eq_ok : valueOfJson schema contents = .ok value ↔
    ∃ json, Json.parseBytes? contents = some json ∧ schema.ofJson json = .ok value := by
  simp only [valueOfJson, Running.ofStop, bind_eq_ok, mapError_eq_ok, Running.ofOption_eq_ok]

/-- The text shown for JSON is that of the bytes of the value that is read from it. -/
theorem encode_eq_ok : encode schema contents = .ok text ↔
    ∃ value, valueOfJson schema contents = .ok value ∧
      ∃ bytes, schema.serialize value = .ok bytes ∧ Hex.markedText bytes = text := by
  simp only [encode, Stop.orRefuse, bind_eq_ok, mapError_eq_ok, pure_eq_ok]

/-- The fork depends on the configuration alone. -/
theorem ForkChoice.resolve_congr (h : ∀ path ∈ choice.paths, others path = files path) :
    choice.resolve others = choice.resolve files := by
  cases choice with
  | named fork => rfl
  | scheduled path epoch =>
    rw [resolve, resolve, readText, readText, read, read, h path List.mem_cons_self]

/-- The schema depends on the configuration alone. -/
theorem recordSchema_congr (h : ∀ path ∈ choice.paths, others path = files path) :
    recordSchema others preset choice record = recordSchema files preset choice record := by
  rw [recordSchema, recordSchema, ForkChoice.resolve_congr h]

/-- A command on a file finds the schema of its record, reads the file and does its work. -/
theorem onFile_eq_ok {f : Schema → Bytes → Running String} :
    (do
      let schema ← recordSchema files preset choice record
      f schema (← read files file)) = .ok text ↔
    ∃ schema, recordSchema files preset choice record = .ok schema ∧
      ∃ contents, files file = some contents ∧ f schema contents = .ok text := by
  simp only [read, bind_eq_ok, Running.ofOption_eq_ok]

/-- The formats agree. If the JSON of a file is shown, then it is that of a value which the schema
of the record reads from what the contents stand for, and the root of that value is what is shown
as the root of the file. The JSON, between blanks in another file, is encoded to the bytes that the
first file stands for, and the same root is shown for it. The text of these bytes, again between
blanks, is decoded to the same JSON. -/
theorem formats_agree (h : run files ⟨preset, verbose, .decode choice record file⟩ = .ok text) :
    ∃ schema contents bytes value json root,
      recordSchema files preset choice record = .ok schema ∧
      files file = some contents ∧ InputFile.bytesOf? contents = some bytes ∧
      schema.Forms value bytes json root ∧ text = json.pretty ∧
      run files ⟨preset, verbose, .root choice record false file⟩ =
        .ok (Hex.markedText root.bytes) ∧
      ∀ others : Files, (∀ path ∈ choice.paths, others path = files path) → ∀ other : String,
        (∀ front back : List Char, (∀ c ∈ front, Json.isBlank c = true) →
          (∀ c ∈ back, Json.isBlank c = true) →
          others other =
            some (InputFile.ofText (String.ofList front ++ text ++ String.ofList back)) →
          run others ⟨preset, verbose, .encode choice record other⟩ =
            .ok (Hex.markedText bytes) ∧
          run others ⟨preset, verbose, .root choice record true other⟩ =
            .ok (Hex.markedText root.bytes)) ∧
        ∀ front back : Bytes, (∀ byte ∈ front, InputFile.isBlank byte = true) →
          (∀ byte ∈ back, InputFile.isBlank byte = true) →
          others other = some (front ++ InputFile.ofText (Hex.markedText bytes) ++ back) →
          run others ⟨preset, verbose, .decode choice record other⟩ = .ok text := by
  obtain ⟨schema, hschema, contents, hcontents, hdecode⟩ := onFile_eq_ok.mp h
  obtain ⟨fork, registry, -, hbuild, hrecord⟩ := exists_of_recordSchema hschema
  have hDrawn := Registry.drawn_of_schema hbuild hrecord
  have hModest := RegistryPlan.modest_of_standard hbuild hrecord
  obtain ⟨value, hvalue, written, hwritten, rfl⟩ := decode_eq_ok.mp hdecode
  obtain ⟨bytes, hbytes, hread⟩ := valueOfBytes_eq_ok.mp hvalue
  obtain ⟨json, root, hforms⟩ := Schema.exists_forms hDrawn hModest hread
  obtain rfl : json = written := Except.ok.inj (hforms.toJson_eq.symm.trans hwritten)
  refine ⟨schema, contents, bytes, value, json, root, hschema, hcontents, hbytes, hforms, rfl, ?_, ?_⟩
  · exact onFile_eq_ok.mpr ⟨schema, hschema, contents, hcontents,
      root_eq_ok.mpr ⟨value, hvalue, root, hforms.hashTreeRoot_eq, rfl⟩⟩
  intro others hothers other
  have hsame : recordSchema others preset choice record = .ok schema :=
    (recordSchema_congr hothers).trans hschema
  constructor
  · intro front back hfront hback hother
    have hparse : Json.parseBytes?
        (InputFile.ofText (String.ofList front ++ json.pretty ++ String.ofList back)) = some json :=
      (jsonText.parseBytes?_toUTF8 _).trans
        (Schema.parse?_of_toJson hDrawn hModest hwritten hfront hback)
    have hvalue := valueOfJson_eq_ok.mpr ⟨json, hparse, hforms.ofJson_eq⟩
    exact ⟨onFile_eq_ok.mpr ⟨schema, hsame, _, hother,
        encode_eq_ok.mpr ⟨value, hvalue, bytes, hforms.serialize_eq, rfl⟩⟩,
      onFile_eq_ok.mpr ⟨schema, hsame, _, hother,
        root_eq_ok.mpr ⟨value, hvalue, root, hforms.hashTreeRoot_eq, rfl⟩⟩⟩
  · intro front back hfront hback hother
    have hbytes := InputFile.bytesOf?_markedText hfront hback bytes
    have hvalue := valueOfBytes_eq_ok.mpr ⟨bytes, hbytes, hread⟩
    exact onFile_eq_ok.mpr ⟨schema, hsame, _, hother,
      decode_eq_ok.mpr ⟨value, hvalue, json, hwritten, rfl⟩⟩

/-- The bytes of the checkpoint of an epoch. -/
def checkpointBytes : Bytes :=
  9 :: List.replicate 39 0

/-- Its JSON. -/
def checkpointText : String :=
  "\x7b\n  \"epoch\": \"9\",\n" ++
    "  \"root\": \"0x0000000000000000000000000000000000000000000000000000000000000000\"\n\x7d"

/-- The checkpoint in a raw file, and what commands print for it in two others. -/
def checkpointFiles : Files
  | "checkpoint.ssz" => some checkpointBytes
  | "checkpoint.json" => some (InputFile.ofText (checkpointText ++ "\n"))
  | "checkpoint.hex" => some (InputFile.ofText (Hex.markedText checkpointBytes) ++ [0x0a])
  | _ => none

/-- The text of the root of the checkpoint. -/
def checkpointRootText : String :=
  "0x7ed1c72a0a0bba40d1bd0ed38cfa6b8e87841fb64c518723f1d8c82b09107173"

/-- The three files of the checkpoint stand for the same, and have the root of the value that is
read from the first one. -/
theorem formats_agree_checkpoint :
    run checkpointFiles ⟨.minimal, false, .decode (.named .phase0) "Checkpoint" "checkpoint.ssz"⟩ =
        .ok checkpointText ∧
      run checkpointFiles
          ⟨.minimal, false, .encode (.named .phase0) "Checkpoint" "checkpoint.json"⟩ =
        .ok (Hex.markedText checkpointBytes) ∧
      run checkpointFiles ⟨.minimal, false, .decode (.named .phase0) "Checkpoint" "checkpoint.hex"⟩ =
        .ok checkpointText ∧
      run checkpointFiles
          ⟨.minimal, false, .root (.named .phase0) "Checkpoint" false "checkpoint.ssz"⟩ =
        .ok checkpointRootText ∧
      run checkpointFiles
          ⟨.minimal, false, .root (.named .phase0) "Checkpoint" true "checkpoint.json"⟩ =
        .ok checkpointRootText ∧
      ∃ (schema : Schema) (value : Value) (root : Chunk),
        schema.deserialize checkpointBytes = .ok value ∧
        schema.hashTreeRoot .sha256 value = .ok root ∧
        Hex.markedText root.bytes = checkpointRootText := by
  obtain ⟨hdecode, hrootText⟩ : (run checkpointFiles
      ⟨.minimal, false, .decode (.named .phase0) "Checkpoint" "checkpoint.ssz"⟩).toOption =
        some checkpointText ∧
      (run checkpointFiles
        ⟨.minimal, false, .root (.named .phase0) "Checkpoint" false "checkpoint.ssz"⟩).toOption =
          some checkpointRootText := by
    decide +kernel
  rw [toOption_eq_some] at hdecode hrootText
  obtain ⟨schema, contents, bytes, value, json, root, -, hcontents, hbytes, hforms, -, hroot,
    hothers⟩ := formats_agree hdecode
  obtain rfl : checkpointBytes = contents := Option.some.inj hcontents
  obtain rfl : checkpointBytes = bytes :=
    Option.some.inj ((InputFile.bytesOf?_of_zero_mem (by decide)).symm.trans hbytes)
  have htext : Hex.markedText root.bytes = checkpointRootText :=
    Except.ok.inj (hroot.symm.trans hrootText)
  have hjson : checkpointFiles "checkpoint.json" =
      some (InputFile.ofText (String.ofList [] ++ checkpointText ++ String.ofList ['\n'])) := by
    rw [String.ofList_nil, String.empty_append]
    rfl
  obtain ⟨hencode, hrootJson⟩ := (hothers checkpointFiles (fun _ _ => rfl) "checkpoint.json").1 []
    ['\n'] (List.forall_mem_nil _) (List.forall_mem_singleton.mpr rfl) hjson
  have hhex := (hothers checkpointFiles (fun _ _ => rfl) "checkpoint.hex").2 [] [0x0a]
    (List.forall_mem_nil _) (List.forall_mem_singleton.mpr rfl) rfl
  exact ⟨hdecode, hencode, hhex, hrootText, htext ▸ hrootJson, schema, value, root,
    hforms.deserialize_eq, hforms.hashTreeRoot_eq, htext⟩

end Command

end BeaconSsz
