import BeaconSsz.Yaml.Layout
import BeaconSsz.Yaml.Node

/-!
# Reading YAML documents

A stream holds one document at most. Where a node may stand but none is written, there is an empty
scalar. In a flow sequence, a key with a value is a mapping of one entry.
-/

namespace BeaconSsz.Yaml

/-- The state of reading nodes. -/
structure Progress where
  rest : List Token
  anchors : Anchors

/-- Reading from a list of tokens. -/
abbrev Reading := StateT Progress Option

namespace Reading

/-- The next token. -/
def peek : Reading (Option Token) := do
  return (← get).rest.head?

/-- Passes over the next token. -/
def skip : Reading Unit :=
  modify fun progress => { progress with rest := progress.rest.tail }

/-- Whether the next token is the given one, which is passed over then. -/
def skipIf (token : Token) : Reading Bool := do
  if (← peek) = some token then
    skip
    return true
  return false

/-- Whether the next token is one of those given. -/
def isNext (tokens : List Token) : Reading Bool := do
  return (← peek).any tokens.contains

/-- Passes over a token that has to be there. -/
def expect (token : Token) : Reading Unit := do
  if !(← skipIf token) then failure

end Reading

open Reading

/-- What stands in front of a node. -/
structure Properties where
  anchor : Option Nat
  tag : Option Bytes

namespace Properties

/-- Whether nothing stands in front of a node. -/
def isNone (properties : Properties) : Bool :=
  properties.anchor.isNone && properties.tag.isNone

end Properties

/-- Reads an anchor, if there is one. -/
def readAnchor : Reading (Option Nat) := do
  match ← peek with
  | some (.anchor name) =>
    skip
    let number := (← get).anchors.size
    modify fun progress => { progress with anchors := progress.anchors.add name }
    return some number
  | _ => return none

/-- Reads a tag, if there is one. -/
def readTag (handles : TagHandles) : Reading (Option Bytes) := do
  match ← peek with
  | some (.tag name) =>
    skip
    let tag ← handles.expand? name
    return some tag
  | _ => return none

/-- Reads an anchor and a tag, in either order. -/
def readProperties (handles : TagHandles) : Reading Properties := do
  match ← readAnchor with
  | some number => return ⟨some number, ← readTag handles⟩
  | none =>
    let tag ← readTag handles
    let anchor ← if tag.isSome then readAnchor else pure none
    return ⟨anchor, tag⟩

/-- Where a node stands. -/
inductive Place where
  /-- In a flow collection. -/
  | flow
  /-- In a block. -/
  | block
  /-- In a mapping told by indentation, where a sequence need not be indented. -/
  | blockEntry
  deriving DecidableEq

/-- Reads a node that has a name or a tag but no text. -/
def readNothing (properties : Properties) : Reading Node :=
  if properties.isNone then failure
  else return .scalar properties.anchor .plain properties.tag ""

mutual

/-- Reads a node. -/
def readNode (handles : TagHandles) : (fuel : Nat) → Place → Reading Node
  | 0, _ => failure
  | fuel + 1, place => do
    if let some (.reference name) ← peek then
      skip
      let number ← (← get).anchors[name]?
      return .reference number
    let properties ← readProperties handles
    let inBlock := place ≠ .flow
    match ← peek with
    | some (.scalar style text) =>
      skip
      return .scalar properties.anchor style properties.tag text
    | some .flowSequenceStart =>
      skip
      return .sequence properties.anchor (← readFlowElements handles fuel true)
    | some .flowMappingStart =>
      skip
      return .mapping properties.anchor (← readFlowEntries handles fuel true)
    | some .entry =>
      if place = .blockEntry then
        return .sequence properties.anchor (← readInnerElements handles fuel)
      else readNothing properties
    | some .sequenceStart =>
      if inBlock then
        skip
        return .sequence properties.anchor (← readElements handles fuel)
      else readNothing properties
    | some .mappingStart =>
      if inBlock then
        skip
        return .mapping properties.anchor (← readEntries handles fuel)
      else readNothing properties
    | _ => readNothing properties

/-- Reads a node, or nothing in front of the given tokens. -/
def readNodeBefore (handles : TagHandles) :
    (fuel : Nat) → Place → List Token → Reading Node
  | 0, _, _ => failure
  | fuel + 1, place, tokens => do
    if ← isNext tokens then return .empty
    readNode handles fuel place

/-- Reads the elements of a sequence told by indentation. -/
def readElements (handles : TagHandles) : (fuel : Nat) → Reading (List Node)
  | 0 => failure
  | fuel + 1 => do
    if ← skipIf .entry then
      let element ← readNodeBefore handles fuel .block [.entry, .blockEnd]
      return element :: (← readElements handles fuel)
    expect .blockEnd
    return []

/-- Reads the elements of a sequence that is not indented. -/
def readInnerElements (handles : TagHandles) : (fuel : Nat) → Reading (List Node)
  | 0 => failure
  | fuel + 1 => do
    if ← skipIf .entry then
      let element ← readNodeBefore handles fuel .block [.entry, .key, .value, .blockEnd]
      return element :: (← readInnerElements handles fuel)
    return []

/-- Reads the entries of a mapping told by indentation. -/
def readEntries (handles : TagHandles) : (fuel : Nat) → Reading (List Entry)
  | 0 => failure
  | fuel + 1 => do
    if ← skipIf .key then
      let key ← readNodeBefore handles fuel .blockEntry [.key, .value, .blockEnd]
      let value ←
        if ← skipIf .value then
          readNodeBefore handles fuel .blockEntry [.key, .value, .blockEnd]
        else pure .empty
      return .mk key value :: (← readEntries handles fuel)
    expect .blockEnd
    return []

/-- Reads the elements of a flow sequence, the first of which has no comma in front. -/
def readFlowElements (handles : TagHandles) : (fuel : Nat) → Bool → Reading (List Node)
  | 0, _ => failure
  | fuel + 1, first => do
    if ← skipIf .flowSequenceEnd then return []
    if !first then
      expect .comma
      if ← skipIf .flowSequenceEnd then return []
    let element ← readFlowElement handles fuel
    return element :: (← readFlowElements handles fuel false)

/-- Reads an element of a flow sequence. -/
def readFlowElement (handles : TagHandles) : (fuel : Nat) → Reading Node
  | 0 => failure
  | fuel + 1 => do
    if ← skipIf .key then
      let key ←
        if ← isNext [.value, .comma, .flowSequenceEnd] then do
          skip
          pure .empty
        else readNode handles fuel .flow
      let value ←
        if ← skipIf .value then readNodeBefore handles fuel .flow [.comma, .flowSequenceEnd]
        else pure .empty
      return .mapping none [.mk key value]
    readNode handles fuel .flow

/-- Reads the entries of a flow mapping, the first of which has no comma in front. -/
def readFlowEntries (handles : TagHandles) : (fuel : Nat) → Bool → Reading (List Entry)
  | 0, _ => failure
  | fuel + 1, first => do
    if ← skipIf .flowMappingEnd then return []
    if !first then
      expect .comma
      if ← skipIf .flowMappingEnd then return []
    let entry ← readFlowEntry handles fuel
    return entry :: (← readFlowEntries handles fuel false)

/-- Reads an entry of a flow mapping. What is not a key has an empty value. -/
def readFlowEntry (handles : TagHandles) : (fuel : Nat) → Reading Entry
  | 0 => failure
  | fuel + 1 => do
    if ← skipIf .key then
      let key ← readNodeBefore handles fuel .flow [.value, .comma, .flowMappingEnd]
      let value ←
        if ← skipIf .value then readNodeBefore handles fuel .flow [.comma, .flowMappingEnd]
        else pure .empty
      return .mk key value
    return .mk (← readNode handles fuel .flow) .empty

end

/-- The directives in front of a document. -/
structure Directives where
  hasVersion : Bool
  handles : TagHandles

namespace Directives

/-- Adds a directive. There is one version at most, which must be 1.1 or 1.2, and one meaning of a
name at most. -/
def add? (directives : Directives) : Token → Option Directives
  | .version major minor =>
    if directives.hasVersion || major ≠ 1 || !(minor = 1 || minor = 2) then none
    else some { directives with hasVersion := true }
  | .tagHandle handle meaning =>
    if (directives.handles.lookup handle).isSome then none
    else some { directives with handles := (handle, meaning) :: directives.handles }
  | _ => none

/-- The directives at the front of a list of tokens, and the rest. -/
def read (directives : Directives) : List Token → Option (Directives × List Token)
  | .version major minor :: rest => do
    let directives ← directives.add? (.version major minor)
    directives.read rest
  | .tagHandle handle meaning :: rest => do
    let directives ← directives.add? (.tagHandle handle meaning)
    directives.read rest
  | tokens => some (directives, tokens)

/-- The meanings of all names. -/
def allHandles (directives : Directives) : TagHandles :=
  directives.handles ++ TagHandles.standard

end Directives

/-- Whether a token starts a document with directives or a mark. -/
def startsExplicitly : Token → Bool
  | .version _ _ | .tagHandle _ _ | .documentStart => true
  | _ => false

/-- Whether a token ends a document, so that nothing is written in it. -/
def endsDocument : Token → Bool
  | .version _ _ | .tagHandle _ _ | .documentStart | .documentEnd => true
  | _ => false

/-- Reads the node of a document, and the rest. No token is looked at by more than four readers, one
within the other. -/
def readRoot (handles : TagHandles) (tokens : List Token) : Option (Node × List Token) := do
  let fuel := 4 * (tokens.length + 1)
  let (node, progress) ← (readNode handles fuel .block).run ⟨tokens, ∅⟩
  return (node, progress.rest)

/-- Reads a document, and the rest. -/
def readDocument (tokens : List Token) : Option (Node × List Token) :=
  if tokens.head?.any startsExplicitly then do
    let (directives, rest) ← Directives.read ⟨false, []⟩ tokens
    match rest with
    | .documentStart :: rest =>
      if rest.head?.all endsDocument then some (.empty, rest)
      else readRoot directives.allHandles rest
    | _ => none
  else readRoot TagHandles.standard tokens

/-- The document that a list of tokens holds. An empty one is an empty scalar. -/
def Node.ofTokens? (tokens : List Token) : Option Node :=
  if tokens.isEmpty then some .empty
  else do
    let (node, rest) ← readDocument tokens
    if rest.all (· = .documentEnd) then some node else none

/-- The document that a text holds. -/
def Node.ofText? (text : String) : Option Node := do
  Node.ofTokens? (← Token.ofText? text)

end BeaconSsz.Yaml
