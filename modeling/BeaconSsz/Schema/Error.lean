/-!
# Why a container cannot be defined
-/

namespace BeaconSsz

/-- A fault in the definition of a container. -/
inductive SchemaError where
  | emptyContainer (container : String)
  | duplicateField (container field : String)
  | unknownField (container field : String)
  | unresolvedBound (container field bound : String)
  | unresolvedContainer (container field referenced : String)
  | invalidUintWidth (container field : String) (width : UInt64)
  | zeroLength (container field shape : String)
  | boundNotRepresentable (container field shape : String)
  deriving DecidableEq

/-- The text shown for a fault. -/
def SchemaError.message : SchemaError → String
  | emptyContainer container => s!"container {container} has no fields"
  | duplicateField container field =>
    s!"container {container} declares field {field} more than once"
  | unknownField container field => s!"container {container} has no field {field}"
  | unresolvedBound container field bound =>
    s!"{container}.{field}: bound {bound} cannot be resolved"
  | unresolvedContainer container field referenced =>
    s!"{container}.{field}: container {referenced} is not defined"
  | invalidUintWidth container field width =>
    s!"{container}.{field}: unsupported integer width of {width} bytes"
  | zeroLength container field shape =>
    s!"{container}.{field}: {shape} must have a non-zero length"
  | boundNotRepresentable container field shape =>
    s!"{container}.{field}: {shape} is too large to be encoded or merkleized"

end BeaconSsz
