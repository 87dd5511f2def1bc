import BeaconSsz.Bytes.Hex
import BeaconSsz.Path
import BeaconSsz.Trap

/-!
# Why a value cannot be written, or bytes cannot be read
-/

namespace BeaconSsz

/-- Why a value does not fit its shape. -/
inductive EncodeCause where
  | typeMismatch (expected found : String)
  | fieldCountMismatch (container : String) (count expected : Nat)
  | uintOutOfRange (value width : Nat)
  | lengthMismatch (count expected : Nat)
  | tooManyElements (count limit : Nat)
  | offsetOverflow (offset : Nat)
  deriving DecidableEq

/-- The text shown for a cause. -/
def EncodeCause.text : EncodeCause → String
  | typeMismatch expected found => s!"expected a value of type {expected}, found {found}"
  | fieldCountMismatch container count expected =>
    s!"container {container} has {expected} fields but the value has {count}"
  | uintOutOfRange value width => s!"{value} does not fit in {width} bytes"
  | lengthMismatch count expected => s!"expected exactly {expected} elements, found {count}"
  | tooManyElements count limit => s!"{count} elements exceed the maximum of {limit}"
  | offsetOverflow offset => s!"offset {offset} does not fit in 4 bytes"

/-- A value that does not fit its shape, and where. -/
abbrev EncodeError := Located EncodeCause

/-- The text shown for an error. -/
def EncodeError.message (error : EncodeError) : String :=
  Located.message EncodeCause.text error

/-- Why bytes are not the encoding of a value. -/
inductive DecodeCause where
  | invalidByteLength (length expected : Nat)
  | partialElement (length elementLength : Nat)
  | tooManyElements (count limit : Nat)
  | elementCountMismatch (count expected : Nat)
  | firstOffsetMismatch (offset expected : Nat)
  | invalidOffsetTable (offset : Nat)
  | offsetsDecreasing (previous offset : Nat)
  | offsetOutOfBounds (offset length : Nat)
  | missingBitlistDelimiter
  | nonZeroPadding (length : Nat)
  | invalidBool (byte : UInt8)
  deriving DecidableEq

/-- The text shown for a cause. -/
def DecodeCause.text : DecodeCause → String
  | invalidByteLength length expected => s!"expected {expected} bytes, found {length}"
  | partialElement length elementLength =>
    s!"{length} bytes do not divide into elements of {elementLength} bytes"
  | tooManyElements count limit => s!"{count} elements exceed the maximum of {limit}"
  | elementCountMismatch count expected => s!"expected exactly {expected} elements, found {count}"
  | firstOffsetMismatch offset expected => s!"first offset is {offset}, expected {expected}"
  | invalidOffsetTable offset => s!"offset {offset} is not a valid offset table length"
  | offsetsDecreasing previous offset =>
    s!"offset {offset} precedes previous offset {previous}"
  | offsetOutOfBounds offset length => s!"offset {offset} is beyond the end of {length} bytes"
  | missingBitlistDelimiter => "bitlist is missing its delimiter bit"
  | nonZeroPadding length => s!"bitvector of {length} bits has non-zero padding bits"
  | invalidBool byte => Hex.markedText [byte] ++ " is not a valid boolean"

/-- Bytes that are not the encoding of a value, and where. -/
abbrev DecodeError := Located DecodeCause

/-- The text shown for an error. -/
def DecodeError.message (error : DecodeError) : String :=
  Located.message DecodeCause.text error

/-- Writing a value: what is written, or why the value does not fit. -/
abbrev Encoding (α : Type) := Except EncodeError α

/-- Reading bytes: what is read, or why the bytes are refused. -/
abbrev Decoding (α : Type) := Except (Stop DecodeError) α

namespace Encoding

variable {α β : Type}

/-- Fails at the place that is being looked at. -/
def fail (cause : EncodeCause) : Encoding α :=
  .error (.here cause)

/-- Sees an error from one level further out. -/
def within (step : Step) (result : Encoding α) : Encoding α :=
  result.mapError (·.within step)

/-- Applies a function to each element in order; an error arises within the element's index. -/
def mapElements (f : α → Encoding β) (elements : List α) : Encoding (List β) :=
  elements.zipIdx.mapM fun (element, position) => within (.index position) (f element)

/-- Applies a check to each element in order; an error arises within the element's index. -/
def forElements (f : α → Encoding Unit) (elements : List α) : Encoding Unit :=
  elements.zipIdx.forM fun (element, position) => within (.index position) (f element)

end Encoding

namespace Decoding

variable {α β : Type}

/-- Refuses the bytes that are being looked at. -/
def fail (cause : DecodeCause) : Decoding α :=
  Stop.refuse (.here cause)

/-- Sees an error from one level further out. -/
def within (step : Step) (result : Decoding α) : Decoding α :=
  result.mapError (Stop.mapError (·.within step))

/-- Applies a function to each element in order; an error arises within the element's index. -/
def mapElements (f : α → Decoding β) (elements : List α) : Decoding (List β) :=
  elements.zipIdx.mapM fun (element, position) => within (.index position) (f element)

end Decoding

end BeaconSsz
