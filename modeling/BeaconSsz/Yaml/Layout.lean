import BeaconSsz.Yaml.Scalar
import BeaconSsz.Yaml.Tag

/-!
# Layout

Outside flow collections, indentation tells where sequences and mappings start and end. A key need
not be marked as one: whatever can be a key is remembered until the colon behind it is found, which
must stand in the same line and not too far away. What stands at the indentation of the innermost
block must turn out to be a key.
-/

namespace BeaconSsz.Yaml

/-- Something that is a key if a colon follows. -/
structure PossibleKey where
  start : Position
  /-- How many tokens stand in front of it. -/
  position : Nat
  /-- Whether it must be a key. -/
  required : Bool

namespace PossibleKey

/-- How many bytes there may be between the start of a key and its colon. -/
def reach : Nat := 1024

/-- Whether the colon of a key may stand at a place. -/
def reaches (key : PossibleKey) (cursor : Cursor) : Bool :=
  cursor.position.line ≤ key.start.line && cursor.position.offset ≤ key.start.offset + reach

end PossibleKey

/-- Forgets a possible key, which must not be a required one. -/
def giveUp? : Option PossibleKey → Option (Option PossibleKey)
  | some key => if key.required then none else some none
  | none => some none

/-- A possible key as it is seen from a place. -/
def lookBack? (cursor : Cursor) : Option PossibleKey → Option (Option PossibleKey)
  | some key => if key.reaches cursor then some (some key) else giveUp? (some key)
  | none => some none

/-- The state of reading a stream. -/
structure Layout where
  cursor : Cursor
  /-- The tokens read so far, last first. -/
  tokens : List Token
  /-- The number of tokens read so far. -/
  count : Nat
  /-- The columns of the open blocks, innermost first. -/
  blocks : List Nat
  /-- What may become a key in the innermost flow collection, or outside all of them. -/
  key : Option PossibleKey
  /-- What may become a key around each open flow collection, innermost first. Whether it is still
  in reach shows when the collection is closed. -/
  outerKeys : List (Option PossibleKey)
  /-- Whether a key may start here. -/
  keyAllowed : Bool

namespace Layout

/-- The start of a stream. -/
def start (text : List Char) : Layout :=
  ⟨⟨.start, text⟩, [], 0, [], none, [], true⟩

/-- Whether a flow collection is open. -/
def inFlow (layout : Layout) : Bool :=
  !layout.outerKeys.isEmpty

/-- The column that a scalar that goes on over several lines has to keep to. -/
def margin (layout : Layout) : Nat :=
  (layout.blocks.head?.map (· + 1)).getD 0

/-- Adds a token. -/
def push (layout : Layout) (token : Token) : Layout :=
  { layout with tokens := token :: layout.tokens, count := layout.count + 1 }

/-- Adds a token and moves on. -/
def pushTo (layout : Layout) (token : Token) (cursor : Cursor) : Layout :=
  { layout.push token with cursor }

/-- Adds a token that takes a single character. -/
def pushMark (layout : Layout) (token : Token) : Layout :=
  layout.pushTo token (layout.cursor.skip 1)

/-- Puts tokens in front of all those from a position on. -/
def insert (layout : Layout) (position : Nat) (tokens : List Token) : Layout :=
  let (behind, front) := layout.tokens.splitAt (layout.count - position)
  { layout with
    tokens := behind ++ tokens.reverse ++ front
    count := layout.count + tokens.length }

/-- Whether a place is further in than the innermost block. -/
def isDeeper (layout : Layout) (column : Nat) : Bool :=
  layout.blocks.head?.all (· < column)

/-- Opens a block at a column if that is further in than the innermost block. -/
def openBlock (layout : Layout) (column : Nat) (token : Token) : Layout :=
  if !layout.inFlow && layout.isDeeper column then
    { layout.push token with blocks := column :: layout.blocks }
  else layout

/-- Closes the given blocks, innermost first, as long as they are further in than a column. Without
a column, all of them are closed. -/
def closeBlocksOf (layout : Layout) (column : Option Nat) : List Nat → Layout
  | [] => { layout with blocks := [] }
  | block :: outer =>
    if column.all (· < block) then (layout.push .blockEnd).closeBlocksOf column outer
    else { layout with blocks := block :: outer }

/-- Closes the blocks that are further in than a column. -/
def closeBlocks (layout : Layout) (column : Option Nat) : Layout :=
  if layout.inFlow then layout else layout.closeBlocksOf column layout.blocks

/-- Forgets what may become a key. -/
def dropKey? (layout : Layout) : Option Layout := do
  return { layout with key := ← giveUp? layout.key }

/-- Remembers that what starts here may become a key. -/
def noteKey? (layout : Layout) : Option Layout := do
  if !layout.keyAllowed then return layout
  let required := !layout.inFlow && layout.blocks.head? = some layout.cursor.column
  let layout ← layout.dropKey?
  return { layout with key := some ⟨layout.cursor.position, layout.count, required⟩ }

/-- Allows a key to start here, or forbids it. -/
def allowKey (layout : Layout) (allowed : Bool) : Layout :=
  { layout with keyAllowed := allowed }

/-- Passes over blanks, comments and line breaks. Where a key may start, a tab is no blank. A byte
order mark may start a line. -/
def skipFrom (inFlow inComment keyAllowed : Bool) (position : Position) :
    List Char → Cursor × Bool
  | [] => (⟨position, []⟩, keyAllowed)
  | c :: rest =>
    let next := position.after c
    if isBreak c then skipFrom inFlow false (keyAllowed || !inFlow) next rest
    else if inComment || c = ' ' || (c = '\t' && (inFlow || !keyAllowed)) then
      skipFrom inFlow inComment keyAllowed next rest
    else if c = '#' then skipFrom inFlow true keyAllowed next rest
    else if c = '\ufeff' && position.column = 0 then
      skipFrom inFlow false keyAllowed next rest
    else (⟨position, c :: rest⟩, keyAllowed)

/-- Moves on to the next token, from which a possible key may be out of reach, and closes the blocks
that it is outside of. -/
def advance? (layout : Layout) : Option Layout := do
  let (cursor, keyAllowed) := skipFrom layout.inFlow false layout.keyAllowed
    layout.cursor.position layout.cursor.rest
  let key ← lookBack? cursor layout.key
  return { layout with cursor, keyAllowed, key }.closeBlocks (some cursor.column)

/-- Ends all blocks, in front of something that stands outside of the documents. -/
def leaveBlocks? (layout : Layout) : Option Layout := do
  let layout ← (layout.closeBlocks none).dropKey?
  return layout.allowKey false

/-- Reads a directive. -/
def readDirective? (layout : Layout) : Option Layout := do
  let layout ← layout.leaveBlocks?
  let (token, cursor) ← scanDirective layout.cursor
  return layout.pushTo token cursor

/-- Reads a mark between documents. -/
def readDocumentMark? (layout : Layout) (token : Token) : Option Layout := do
  let layout ← layout.leaveBlocks?
  return layout.pushTo token (layout.cursor.skip 3)

/-- Opens a flow collection. -/
def openFlow? (layout : Layout) (token : Token) : Option Layout := do
  let layout ← layout.noteKey?
  return { layout with key := none, outerKeys := layout.key :: layout.outerKeys, keyAllowed := true
    : Layout }.pushMark token

/-- Closes a flow collection. -/
def closeFlow? (layout : Layout) (token : Token) : Option Layout := do
  let layout ← layout.dropKey?
  let layout := match layout.outerKeys with
    | key :: outerKeys => { layout with key, outerKeys }
    | [] => layout
  return (layout.allowKey false).pushMark token

/-- Reads the comma behind an element of a flow collection. -/
def readComma? (layout : Layout) : Option Layout := do
  let layout ← layout.dropKey?
  return (layout.allowKey true).pushMark .comma

/-- Starts a block here, which is possible only where a key may start. -/
def startBlock? (layout : Layout) (token : Token) : Option Layout :=
  if layout.inFlow then some layout
  else if layout.keyAllowed then some (layout.openBlock layout.cursor.column token)
  else none

/-- Reads the hyphen in front of an element. -/
def readEntry? (layout : Layout) : Option Layout := do
  let layout ← layout.startBlock? .sequenceStart
  let layout ← layout.dropKey?
  return (layout.allowKey true).pushMark .entry

/-- Reads the question mark in front of a key. -/
def readKey? (layout : Layout) : Option Layout := do
  let layout ← layout.startBlock? .mappingStart
  let layout ← layout.dropKey?
  return (layout.allowKey !layout.inFlow).pushMark .key

/-- Marks a possible key as a key, which may start a mapping. -/
def confirmKey (layout : Layout) (key : PossibleKey) : Layout :=
  let column := key.start.column
  let starts := !layout.inFlow && layout.isDeeper column
  let layout := if starts then { layout with blocks := column :: layout.blocks } else layout
  layout.insert key.position (if starts then [.mappingStart, .key] else [.key])

/-- Reads the colon in front of a value. -/
def readValue? (layout : Layout) : Option Layout :=
  match layout.key with
  | some key =>
    some (({ layout.confirmKey key with key := none }.allowKey false).pushMark .value)
  | none => do
    let layout ← layout.startBlock? .mappingStart
    return (layout.allowKey !layout.inFlow).pushMark .value

/-- Reads a name of a node, or a reference to one. -/
def readName? (layout : Layout) (token : String → Token) : Option Layout := do
  let layout ← layout.noteKey?
  let (name, cursor) ← scanName layout.cursor
  return (layout.allowKey false).pushTo (token name) cursor

/-- Reads a tag. -/
def readTag? (layout : Layout) : Option Layout := do
  let layout ← layout.noteKey?
  let (token, cursor) ← scanTag layout.inFlow layout.cursor
  return (layout.allowKey false).pushTo token cursor

/-- Reads a plain or quoted scalar. -/
def readScalar? (layout : Layout) (style : ScalarStyle) (scan : Cursor → Option Scanned) :
    Option Layout := do
  let layout ← layout.noteKey?
  let found ← scan layout.cursor
  return (layout.allowKey found.endsLine).pushTo (.scalar style found.text) found.cursor

/-- Reads a block scalar. -/
def readBlock? (layout : Layout) (style : ScalarStyle) : Option Layout := do
  let layout ← layout.dropKey?
  let found ← scanBlock (style = .folded) layout.blocks.head? layout.cursor
  return (layout.allowKey true).pushTo (.scalar style found.text) found.cursor

/-- Whether a plain scalar may start with a character. -/
def startsPlain (inFlow : Bool) (c : Char) (rest : List Char) : Bool :=
  if c = '-' then !rest.head?.any isBlank
  else if c = '?' || c = ':' then !inFlow && !startsBlank rest
  else !("-?:,[]\x7b\x7d#&*!|>'\"%@\x60".toList.contains c || isBlank c || isBreak c)

/-- Reads a token that starts with a character. -/
def readToken? (layout : Layout) (c : Char) (rest : List Char) : Option Layout :=
  let inFlow := layout.inFlow
  let atLineStart := layout.cursor.column = 0
  if atLineStart && c = '%' then layout.readDirective?
  else if atLineStart && startsDocumentMark (c :: rest) then
    layout.readDocumentMark? (if c = '-' then .documentStart else .documentEnd)
  else if c = '[' then layout.openFlow? .flowSequenceStart
  else if c = '\x7b' then layout.openFlow? .flowMappingStart
  else if c = ']' then layout.closeFlow? .flowSequenceEnd
  else if c = '\x7d' then layout.closeFlow? .flowMappingEnd
  else if c = ',' then layout.readComma?
  else if c = '-' && startsBlank rest then layout.readEntry?
  else if c = '?' && (inFlow || startsBlank rest) then layout.readKey?
  else if c = ':' && (inFlow || startsBlank rest) then layout.readValue?
  else if c = '*' then layout.readName? .reference
  else if c = '&' then layout.readName? .anchor
  else if c = '!' then layout.readTag?
  else if c = '|' && !inFlow then layout.readBlock? .literal
  else if c = '>' && !inFlow then layout.readBlock? .folded
  else if c = '\x27' || c = '"' then layout.readScalar? .quoted (scanQuoted c)
  else if startsPlain inFlow c rest then
    layout.readScalar? .plain (scanPlain inFlow layout.margin)
  else none

/-- Reads tokens up to the end of the stream. Each one takes a character at least. -/
def readTokens? : (fuel : Nat) → Layout → Option (List Token)
  | 0, _ => none
  | fuel + 1, layout => do
    let layout ← layout.advance?
    match layout.cursor.rest with
    | [] =>
      let layout ← layout.leaveBlocks?
      return layout.tokens.reverse
    | c :: rest =>
      let layout ← layout.readToken? c rest
      readTokens? fuel layout

end Layout

/-- The tokens of a stream. -/
def Token.ofText? (text : String) : Option (List Token) :=
  let chars := text.toList
  if chars.all isAllowed then
    (Layout.start (unifyBreaks chars)).readTokens? (chars.length + 1)
  else none

end BeaconSsz.Yaml
