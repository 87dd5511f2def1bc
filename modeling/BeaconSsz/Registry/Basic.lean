import BeaconSsz.Registry.Build

/-!
# The registry

The registry holds the schemas of all records at all forks, built for one preset. A plan may add
records to those of the catalogue, or define some of them again, from any fork on, and may require
that records exist.
-/

namespace BeaconSsz

/-- Something that happens while a registry is built. -/
inductive BuildEvent where
  /-- A record is as it was at the previous fork. -/
  | unchanged (name : String) (fork : Fork)
  /-- All records of a fork are built, some of them shared with the previous fork. -/
  | finished (fork : Fork) (count shared : Nat)
  deriving DecidableEq

namespace BuildEvent

/-- How important an event is. -/
def level : BuildEvent → String
  | unchanged _ _ => "DEBUG"
  | finished _ _ _ => "INFO"

/-- The text shown for an event. -/
def message : BuildEvent → String
  | unchanged name fork => name ++ " is unchanged at " ++ fork.name
  | finished fork count shared =>
    s!"built {count} " ++ fork.name ++ s!" records, {shared} shared with the previous fork"

end BuildEvent

/-- The schemas of all records, fork by fork. -/
structure Registry where
  preset : Preset
  forks : List (Fork × Records)

namespace Registry

/-- The schemas of the records of a fork, in the order in which they were built. -/
def recordsAt (registry : Registry) (fork : Fork) : Records :=
  (registry.forks.lookup fork).getD []

/-- The schema of a record at a fork. -/
def schema (registry : Registry) (fork : Fork) (name : String) : Except RegistryError Schema :=
  match (registry.recordsAt fork).find? name with
  | some schema => .ok schema
  | none => .error (.unknownRecord fork name)

/-- The names of the records of a fork, sorted. -/
def recordNames (registry : Registry) (fork : Fork) : List String :=
  ((registry.recordsAt fork).map (·.name)).mergeSort (fun name other => decide (name ≤ other))

/-- The records of a fork that are the very schemas of an earlier fork, sorted. -/
def sharedNames (registry : Registry) (earlier fork : Fork) : List String :=
  (registry.recordNames fork).filter fun name =>
    match registry.schema earlier name, registry.schema fork name with
    | .ok schema, .ok other => schema.isSame other
    | _, _ => false

end Registry

/-- What a registry is built from, beside the catalogue, in the order in which it was planned. -/
structure RegistryPlan where
  required : List (Fork × String)
  defined : List (Fork × Descriptor)

namespace RegistryPlan

/-- The catalogue alone. -/
def standard : RegistryPlan := ⟨[], []⟩

/-- Requires that a record is defined at a fork. -/
def require (plan : RegistryPlan) (fork : Fork) (name : String) : RegistryPlan :=
  { plan with required := plan.required ++ [(fork, name)] }

/-- Defines a record from a fork on. -/
def define (plan : RegistryPlan) (fork : Fork) (descriptor : Descriptor) : RegistryPlan :=
  { plan with defined := plan.defined ++ [(fork, descriptor)] }

/-- The definitions of a fork: what it makes of those of its parent, and then what the plan
defines at it. -/
def definitionsAt (plan : RegistryPlan) (previous : Definitions) (fork : Fork) :
    Except RegistryError Definitions := do
  let definitions ← previous.upgrade fork
  return (plan.defined.filter (·.1 == fork)).foldl
    (fun definitions entry => definitions.insert entry.2)
    definitions

/-- Whether a schema was drawn up before a fork. -/
def isInherited (fork : Fork) (schema : Schema) : Bool :=
  schema.edition != fork.edition

/-- What happens while records are built at a fork. -/
def recordEvents (fork : Fork) (records : Records) : List BuildEvent :=
  (records.filter (isInherited fork)).map fun schema => .unchanged schema.name fork

/-- Builds the records of forks in order, behind those already built, and tells what happens. -/
def buildForks (plan : RegistryPlan) (preset : Preset) (definitions : Definitions)
    (inherited : Records) (done : List (Fork × Records)) :
    List Fork → List BuildEvent × Except (Stop RegistryError) (List (Fork × Records))
  | [] => ([], .ok done)
  | fork :: rest =>
    match plan.definitionsAt definitions fork with
    | .error error => ([], Stop.refuse error)
    | .ok definitions =>
      let (result, records) := (buildRecords ⟨preset, definitions, inherited⟩).run []
      let events := recordEvents fork records
      match result with
      | .error stop => (events, .error stop)
      | .ok () =>
        let shared := records.countP (isInherited fork)
        let (later, result) :=
          buildForks plan preset definitions records (done ++ [(fork, records)]) rest
        (events ++ .finished fork records.length shared :: later, result)

/-- Requires that the planned records exist. -/
def checkRequired (registry : Registry) :
    List (Fork × String) → Except (Stop RegistryError) Unit
  | [] => .ok ()
  | (fork, name) :: rest => do
    let _ ← Stop.orRefuse (registry.schema fork name)
    checkRequired registry rest

/-- Builds the registry of a preset, and tells what happens. -/
def buildWithEvents (plan : RegistryPlan) (preset : Preset) :
    List BuildEvent × Except (Stop RegistryError) Registry :=
  let (events, result) := plan.buildForks preset .empty [] [] Fork.all
  (events, do
    let registry : Registry := ⟨preset, ← result⟩
    checkRequired registry plan.required
    return registry)

/-- Builds the registry of a preset. -/
def build (plan : RegistryPlan) (preset : Preset) : Except (Stop RegistryError) Registry :=
  (plan.buildWithEvents preset).2

end RegistryPlan

end BeaconSsz
