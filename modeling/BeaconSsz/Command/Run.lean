import BeaconSsz.Command.Arguments
import BeaconSsz.InputFile
import BeaconSsz.Json.Printer
import BeaconSsz.Json.Reader
import BeaconSsz.Json.Record
import BeaconSsz.Registry.Basic
import BeaconSsz.Root
import BeaconSsz.Schedule.Reader

/-!
# Running commands

A command reads at most two files and gives one text. Bytes come in as they are or as hexadecimal
text, and go out as hexadecimal text behind `0x`; JSON goes out spread over lines.
-/

namespace BeaconSsz.Command

/-- Why a command gives no text. -/
inductive RunError where
  | unreadableFile (path : String)
  | invalidConfig (path : String) (cause : ScheduleError)
  | unbuildable (preset : Preset) (cause : RegistryError)
  | unknownRecord (cause : RegistryError)
  | oddHex
  | invalidJson
  | decode (cause : DecodeError)
  | encode (cause : EncodeError)
  | json (cause : JsonError)

/-- The text shown for an error, and then those of its causes. -/
def RunError.chain : RunError → List String
  | unreadableFile path => ["failed to read " ++ path]
  | invalidConfig path cause => ["invalid chain config " ++ path, cause.message]
  | unbuildable preset cause =>
    ["failed to build " ++ preset.name ++ " records", cause.message] ++
      match cause with
      | .schema _ source => [source.message]
      | _ => []
  | unknownRecord cause => [cause.message]
  | oddHex => ["hex input has an odd number of digits"]
  | invalidJson => ["input is not valid JSON"]
  | decode cause => [DecodeError.message cause]
  | encode cause => [EncodeError.message cause]
  | json cause => [JsonError.message cause]

/-- The contents of the files that can be read. -/
abbrev Files := String → Option Bytes

/-- Running a command. -/
abbrev Running (α : Type) := Except (Stop RunError) α

namespace Running

variable {α ε : Type}

/-- Takes over a result, with another account of its error. -/
def ofStop (f : ε → RunError) (result : Except (Stop ε) α) : Running α :=
  result.mapError (Stop.mapError f)

/-- Takes over a result that is there or not. -/
def ofOption (error : RunError) (result : Option α) : Running α :=
  match result with
  | some value => .ok value
  | none => Stop.refuse error

end Running

/-- Reads a file. -/
def read (files : Files) (path : String) : Running Bytes :=
  Running.ofOption (.unreadableFile path) (files path)

/-- Reads a file that holds text. -/
def readText (files : Files) (path : String) : Running String := do
  let contents ← read files path
  Running.ofOption (.unreadableFile path) (String.fromUTF8? ⟨contents.toArray⟩)

/-- The fork that is chosen. -/
def ForkChoice.resolve (files : Files) : ForkChoice → Running Fork
  | named fork => .ok fork
  | scheduled path epoch => do
    let text ← readText files path
    let schedule ← Stop.orRefuse ((ForkSchedule.read text).mapError (.invalidConfig path))
    return schedule.forkAtEpoch epoch

/-- Builds the registry of a plan. -/
def buildRegistry (preset : Preset) (plan : RegistryPlan) : Running Registry :=
  Running.ofStop (.unbuildable preset) (plan.build preset)

/-- The schema of a record at the fork that is chosen. -/
def recordSchema (files : Files) (preset : Preset) (choice : ForkChoice) (record : String) :
    Running Schema := do
  let fork ← choice.resolve files
  let registry ← buildRegistry preset (RegistryPlan.standard.require fork record)
  Stop.orRefuse ((registry.schema fork record).mapError .unknownRecord)

/-- The value whose bytes are the contents of a file. -/
def valueOfBytes (schema : Schema) (contents : Bytes) : Running Value := do
  let bytes ← Running.ofOption .oddHex (InputFile.bytesOf? contents)
  Running.ofStop .decode (schema.deserialize bytes)

/-- The value whose JSON is the contents of a file. -/
def valueOfJson (schema : Schema) (contents : Bytes) : Running Value := do
  let json ← Running.ofOption .invalidJson (Json.parseBytes? contents)
  Running.ofStop .json (schema.ofJson json)

/-- The JSON of the value whose bytes are the contents of a file. -/
def decode (schema : Schema) (contents : Bytes) : Running String := do
  let value ← valueOfBytes schema contents
  let json ← Stop.orRefuse ((schema.toJson value).mapError .encode)
  return json.pretty

/-- The bytes of the value whose JSON is the contents of a file. -/
def encode (schema : Schema) (contents : Bytes) : Running String := do
  let value ← valueOfJson schema contents
  let bytes ← Stop.orRefuse ((schema.serialize value).mapError .encode)
  return Hex.markedText bytes

/-- The root of the value whose bytes or JSON are the contents of a file. -/
def root (schema : Schema) (json : Bool) (contents : Bytes) : Running String := do
  let value ← if json then valueOfJson schema contents else valueOfBytes schema contents
  let root ← Running.ofStop .encode (schema.hashTreeRoot .sha256 value)
  return Hex.markedText root.bytes

/-- The names of the records of a fork, a line each. -/
def types (files : Files) (preset : Preset) (choice : ForkChoice) : Running String := do
  let fork ← choice.resolve files
  let registry ← buildRegistry preset .standard
  return String.intercalate "\n" (registry.recordNames fork)

/-- The configuration that a choice of the fork looks at, if any. -/
def ForkChoice.paths : ForkChoice → List String
  | named _ => []
  | scheduled path _ => [path]

/-- The files that a command line names. -/
def Invocation.paths (invocation : Invocation) : List String :=
  match invocation.task with
  | .decode choice _ file | .encode choice _ file | .root choice _ _ file => choice.paths ++ [file]
  | .types choice => choice.paths

/-- Does what a command line asks for. -/
def run (files : Files) (invocation : Invocation) : Running String :=
  let preset := invocation.preset
  match invocation.task with
  | .decode choice record file => do
    let schema ← recordSchema files preset choice record
    decode schema (← read files file)
  | .encode choice record file => do
    let schema ← recordSchema files preset choice record
    encode schema (← read files file)
  | .root choice record json file => do
    let schema ← recordSchema files preset choice record
    root schema json (← read files file)
  | .types choice => types files preset choice

end BeaconSsz.Command
