import BeaconSsz.Schema.Make

/-!
# Descriptors

A descriptor defines a container by name: its bounds may be names, and it names the containers
that it holds instead of containing them. Resolved in a context that knows both, the same
descriptor gives a schema for each context.

A descriptor can be derived from another one, field by field. A change that cannot be made is
refused and leaves the descriptor as it was.
-/

namespace BeaconSsz

/-- A length, given or named. -/
inductive Bound where
  | fixed (length : UInt64)
  | named (name : String)
  deriving DecidableEq

/-- The text of a bound. -/
def Bound.text : Bound → String
  | fixed length => toString length
  | named name => name

/-- A shape with its bounds and containers by name. -/
inductive Form where
  | boolean
  | uint (width : UInt64)
  | byteVector (length : Bound)
  | byteList (limit : Bound)
  | bitvector (length : Bound)
  | bitlist (limit : Bound)
  | vector (element : Form) (length : Bound)
  | list (element : Form) (limit : Bound)
  | container (name : String)
  deriving DecidableEq

/-- What names stand for. -/
structure Context where
  bound? : String → Option UInt64
  container? : String → Option Schema

namespace Form

/-- The text of a form. -/
def text : Form → String
  | boolean => "boolean"
  | uint width => s!"uint({width})"
  | byteVector length => "ByteVector[" ++ length.text ++ "]"
  | byteList limit => "ByteList[" ++ limit.text ++ "]"
  | bitvector length => "Bitvector[" ++ length.text ++ "]"
  | bitlist limit => "Bitlist[" ++ limit.text ++ "]"
  | vector element length => "Vector[" ++ element.text ++ ", " ++ length.text ++ "]"
  | list element limit => "List[" ++ element.text ++ ", " ++ limit.text ++ "]"
  | container name => name

/-- The container that the form holds, through vectors and lists. -/
def reference? : Form → Option String
  | vector element _ => element.reference?
  | list element _ => element.reference?
  | container name => some name
  | _ => none

end Form

/-- The length that a bound of a field stands for. -/
def Bound.resolve (context : Context) (container field : String) :
    Bound → Except SchemaError UInt64
  | fixed length => .ok length
  | named name =>
    match context.bound? name with
    | some length => .ok length
    | none => .error (.unresolvedBound container field name)

/-- The shape that the form of a field stands for; elements are resolved before bounds. -/
def Form.resolve (context : Context) (owner field : String) : Form → Except SchemaError Shape
  | boolean => .ok .boolean
  | uint width => .ok (.uint width)
  | byteVector length => do return .byteVector (← length.resolve context owner field)
  | byteList limit => do return .byteList (← limit.resolve context owner field)
  | bitvector length => do return .bitvector (← length.resolve context owner field)
  | bitlist limit => do return .bitlist (← limit.resolve context owner field)
  | vector element length => do
    let element ← element.resolve context owner field
    return .vector element (← length.resolve context owner field)
  | list element limit => do
    let element ← element.resolve context owner field
    return .list element (← limit.resolve context owner field)
  | container name =>
    match context.container? name with
    | some schema => .ok (.container schema)
    | none => .error (.unresolvedContainer owner field name)

/-- The definition of a container, with its fields in order. -/
structure Descriptor where
  name : String
  fields : List (String × Form)
  deriving DecidableEq

namespace Descriptor

/-- The position of the first field of a name. -/
def position? (descriptor : Descriptor) (field : String) : Option Nat :=
  descriptor.fields.findIdx? (·.1 == field)

/-- The form of the first field of a name. -/
def form? (descriptor : Descriptor) (field : String) : Option Form :=
  (descriptor.fields.find? (·.1 == field)).map Prod.snd

/-- The first position of a field, which must be there. -/
def positionOf (descriptor : Descriptor) (field : String) : Except SchemaError Nat :=
  match descriptor.position? field with
  | some position => .ok position
  | none => .error (.unknownField descriptor.name field)

/-- Declares one more field. Names that repeat are found when the descriptor is resolved. -/
def declare (descriptor : Descriptor) (field : String) (form : Form) : Descriptor :=
  { descriptor with fields := descriptor.fields ++ [(field, form)] }

/-- Adds a field of a new name at the end. -/
def add (descriptor : Descriptor) (field : String) (form : Form) :
    Except SchemaError Descriptor :=
  match descriptor.position? field with
  | some _ => .error (.duplicateField descriptor.name field)
  | none => .ok (descriptor.declare field form)

/-- Removes a field. -/
def remove (descriptor : Descriptor) (field : String) : Except SchemaError Descriptor := do
  let position ← descriptor.positionOf field
  return { descriptor with fields := descriptor.fields.eraseIdx position }

/-- Gives a field another form, in its place. -/
def retype (descriptor : Descriptor) (field : String) (form : Form) :
    Except SchemaError Descriptor := do
  let position ← descriptor.positionOf field
  return { descriptor with
    fields := descriptor.fields.modify position fun (name, _) => (name, form) }

/-- Gives a field another name and form, in its place. -/
def replace (descriptor : Descriptor) (field newName : String) (form : Form) :
    Except SchemaError Descriptor := do
  let position ← descriptor.positionOf field
  let taken := match descriptor.position? newName with
    | some other => other != position
    | none => false
  if taken then throw (.duplicateField descriptor.name newName)
  return { descriptor with fields := descriptor.fields.set position (newName, form) }

/-- The containers that the fields hold, in order, without repeats. -/
def references (descriptor : Descriptor) : List String :=
  (descriptor.fields.filterMap (·.2.reference?)).foldl
    (fun found name => if name ∈ found then found else found ++ [name]) []

/-- The fields that the descriptor stands for, in order. -/
def resolveFields (context : Context) (descriptor : Descriptor) :
    Except SchemaError (List Field) :=
  descriptor.fields.mapM fun (name, form) => do
    return ⟨name, ← form.resolve context descriptor.name name⟩

/-- The schema that the descriptor stands for, drawn up as a given edition. -/
def resolve (context : Context) (edition : Nat) (descriptor : Descriptor) :
    Except (Stop SchemaError) Schema := do
  let fields ← Stop.orRefuse (descriptor.resolveFields context)
  Schema.make edition descriptor.name fields

end Descriptor

end BeaconSsz
