import Std.Data.HashMap
import BeaconSsz.Yaml.Token

/-!
# Nodes of a YAML document

A document is a tree of scalars, sequences and mappings, some of which have an anchor, and of
references that stand for what has one. An anchor is known by a number: how many different names
were in use before it. A name that is given again takes a new number, which a new name may take
once more; a reference stands for the last node in the document that has its number.
-/

namespace BeaconSsz.Yaml

mutual

/-- A node. -/
inductive Node where
  | scalar (anchor : Option Nat) (style : ScalarStyle) (tag : Option Bytes) (text : String)
  | reference (number : Nat)
  | sequence (anchor : Option Nat) (elements : List Node)
  | mapping (anchor : Option Nat) (entries : List Entry)

/-- An entry of a mapping. -/
inductive Entry where
  | mk (key value : Node)

end

namespace Node

/-- A scalar without text, name or tag, which stands where nothing is written. -/
def empty : Node := scalar none .plain none ""

end Node

/-- Nodes that have an anchor, by its number: for each one the last. -/
abbrev AnchoredNodes := Std.HashMap Nat Node

namespace AnchoredNodes

/-- Adds a node if it has an anchor. -/
def add (found : AnchoredNodes) (anchor : Option Nat) (node : Node) : AnchoredNodes :=
  match anchor with
  | some number => found.insert number node
  | none => found

mutual

/-- Adds those of a node and all nodes within it, in the order of the text. -/
def addNode (found : AnchoredNodes) : Node → AnchoredNodes
  | .scalar anchor style tag text => found.add anchor (.scalar anchor style tag text)
  | .reference _ => found
  | .sequence anchor elements => (found.add anchor (.sequence anchor elements)).addElements elements
  | .mapping anchor entries => (found.add anchor (.mapping anchor entries)).addEntries entries

/-- Adds those of all elements of a sequence. -/
def addElements (found : AnchoredNodes) : List Node → AnchoredNodes
  | [] => found
  | element :: rest => (found.addNode element).addElements rest

/-- Adds those of all entries of a mapping. -/
def addEntries (found : AnchoredNodes) : List Entry → AnchoredNodes
  | [] => found
  | .mk key value :: rest => ((found.addNode key).addNode value).addEntries rest

end

/-- The nodes of a document that have an anchor. -/
def ofDocument (document : Node) : AnchoredNodes :=
  addNode ∅ document

/-- What a node of a document stands for. -/
def resolve? (anchored : AnchoredNodes) : Node → Option Node
  | .reference number => anchored[number]?
  | node => some node

end AnchoredNodes

/-- The names of anchors in use, with their numbers. -/
abbrev Anchors := Std.HashMap String Nat

namespace Anchors

/-- Gives a name to the next node. -/
def add (anchors : Anchors) (name : String) : Anchors :=
  anchors.insert name anchors.size

end Anchors

/-- The meanings of the names of prefixes. -/
abbrev TagHandles := List (String × Bytes)

/-- The bytes of a text of ASCII characters. -/
def asciiBytes (text : String) : Bytes :=
  text.toList.map fun c => UInt8.ofNat c.toNat

namespace TagHandles

/-- The meanings that need not be given. -/
def standard : TagHandles := [("!", asciiBytes "!"), ("!!", asciiBytes "tag:yaml.org,2002:")]

/-- The tag that a name stands for, if its prefix is known. A tag given in full has none. -/
def expand? (handles : TagHandles) (name : TagName) : Option Bytes :=
  if name.handle.isEmpty then some name.suffix
  else (handles.lookup name.handle).map (· ++ name.suffix)

end TagHandles

end BeaconSsz.Yaml
