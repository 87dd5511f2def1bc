import BeaconSsz.Bytes

/-!
# Tokens of a YAML stream

A stream is read as a list of tokens. Besides what is written out there are tokens for the layout:
the start of a sequence or mapping that is told by its indentation, and the end of either. A key
that is not marked as one is known by the colon behind it; its mark is put in front of it then.
-/

namespace BeaconSsz.Yaml

/-- How a scalar is written. -/
inductive ScalarStyle where
  | plain
  | quoted
  /-- A block that keeps its line breaks. -/
  | literal
  /-- A block whose line breaks are folded. -/
  | folded
  deriving DecidableEq

/-- A tag as it is written: the name of a prefix, which may be empty, and what comes behind. -/
structure TagName where
  handle : String
  suffix : Bytes
  deriving DecidableEq

/-- A token. -/
inductive Token where
  | version (major minor : Nat)
  /-- Gives a meaning to the name of a prefix of tags. -/
  | tagHandle (handle : String) (meaning : Bytes)
  | documentStart
  | documentEnd
  | sequenceStart
  | mappingStart
  /-- The end of a sequence or mapping told by indentation. -/
  | blockEnd
  | flowSequenceStart
  | flowSequenceEnd
  | flowMappingStart
  | flowMappingEnd
  /-- The hyphen in front of an element. -/
  | entry
  /-- The comma between elements. -/
  | comma
  | key
  | value
  | anchor (name : String)
  | reference (name : String)
  | tag (name : TagName)
  | scalar (style : ScalarStyle) (text : String)
  deriving DecidableEq

end BeaconSsz.Yaml
