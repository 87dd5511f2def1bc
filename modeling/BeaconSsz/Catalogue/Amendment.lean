import BeaconSsz.Schema.Descriptor

/-!
# Amendments

A fork changes the records of its parent by amendments: it defines records, anew or again, and
it revises records field by field.
-/

namespace BeaconSsz

/-- A change of one field of a descriptor. -/
inductive Edit where
  | add (field : String) (form : Form)
  | remove (field : String)
  | retype (field : String) (form : Form)
  | replace (field newName : String) (form : Form)
  deriving DecidableEq

namespace Descriptor

/-- Makes one change. -/
def edit (descriptor : Descriptor) : Edit → Except SchemaError Descriptor
  | .add field form => descriptor.add field form
  | .remove field => descriptor.remove field
  | .retype field form => descriptor.retype field form
  | .replace field newName form => descriptor.replace field newName form

/-- Makes changes in order, all of them or none. -/
def editAll (descriptor : Descriptor) (edits : List Edit) : Except SchemaError Descriptor :=
  edits.foldlM edit descriptor

end Descriptor

/-- A change of the records. -/
inductive Amendment where
  | define (descriptor : Descriptor)
  | revise (record : String) (edits : List Edit)
  deriving DecidableEq

end BeaconSsz
