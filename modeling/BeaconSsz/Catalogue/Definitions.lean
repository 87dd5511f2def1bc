import BeaconSsz.Catalogue.Altair
import BeaconSsz.Catalogue.Bellatrix
import BeaconSsz.Catalogue.Capella
import BeaconSsz.Catalogue.Deneb
import BeaconSsz.Catalogue.Electra
import BeaconSsz.Catalogue.Phase0
import BeaconSsz.Registry.Error

/-!
# Definitions

The descriptors of all records in force at a fork, with distinct names, in the order in which the
names were first defined. A record that is defined again keeps its place.
-/

namespace BeaconSsz

/-- What each fork changes, in order. -/
def Fork.amendments : Fork → List Amendment
  | phase0 => Catalogue.phase0
  | altair => Catalogue.altair
  | bellatrix => Catalogue.bellatrix
  | capella => Catalogue.capella
  | deneb => Catalogue.deneb
  | electra => Catalogue.electra

/-- The descriptors in force at a fork. -/
structure Definitions where
  fork : Fork
  records : List Descriptor

namespace Definitions

/-- The descriptor of a name. -/
def get? (definitions : Definitions) (name : String) : Option Descriptor :=
  definitions.records.find? (·.name == name)

/-- Defines a record, in the place of the one of the same name. -/
def insert (definitions : Definitions) (descriptor : Descriptor) : Definitions :=
  { definitions with
    records :=
      if definitions.records.any (·.name == descriptor.name) then
        definitions.records.map fun record =>
          if record.name == descriptor.name then descriptor else record
      else definitions.records ++ [descriptor] }

/-- Derives a new version of a record that is defined, in its place. Gives the definitions that are
there afterwards in any case. -/
def modify (definitions : Definitions) (name : String)
    (change : Descriptor → Except SchemaError Descriptor) :
    Except RegistryError Unit × Definitions :=
  match definitions.get? name with
  | none => (.error (.unknownRecord definitions.fork name), definitions)
  | some record =>
    match change record with
    | .ok changed =>
      (.ok (), { definitions with
        records := definitions.records.map fun other =>
          if other.name == name then changed else other })
    | .error source => (.error (.schema definitions.fork source), definitions)

/-- Makes one amendment. -/
def amend (definitions : Definitions) : Amendment → Except RegistryError Definitions
  | .define descriptor => .ok (definitions.insert descriptor)
  | .revise record edits =>
    let (result, changed) := definitions.modify record (·.editAll edits)
    result.map fun _ => changed

/-- The definitions of the next fork. -/
def upgrade (definitions : Definitions) (fork : Fork) : Except RegistryError Definitions :=
  fork.amendments.foldlM amend { definitions with fork }

/-- No definitions, in front of the first fork. -/
def empty : Definitions := ⟨.phase0, []⟩

/-- The definitions of a fork. -/
def ofFork (fork : Fork) : Except RegistryError Definitions :=
  (Fork.all.filter (· ≤ fork)).foldlM upgrade empty

end Definitions

end BeaconSsz
