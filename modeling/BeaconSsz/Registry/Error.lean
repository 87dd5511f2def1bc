import BeaconSsz.Fork
import BeaconSsz.Schema.Error

/-!
# Why records cannot be built
-/

namespace BeaconSsz

/-- A fault in the records of a fork. -/
inductive RegistryError where
  | schema (fork : Fork) (source : SchemaError)
  | unknownRecord (fork : Fork) (name : String)
  /-- Records that contain each other, from one of them around to itself. -/
  | cyclicDefinition (fork : Fork) (cycle : List String)
  deriving DecidableEq

/-- The text shown for a fault; that of its source is shown apart. -/
def RegistryError.message : RegistryError → String
  | schema fork _ => "failed to build " ++ fork.name ++ " records"
  | unknownRecord fork name => "record " ++ name ++ " is not defined at " ++ fork.name
  | cyclicDefinition fork cycle =>
    "records at " ++ fork.name ++ " contain each other: " ++ String.intercalate " -> " cycle

end BeaconSsz
