import BeaconSsz.Bytes.Hex
import BeaconSsz.Yaml.Text

/-!
# Scalars

A plain or quoted scalar may go on over several lines. What stands between two of its words is a
gap: blanks within a line stand for themselves, and the blanks around line breaks count for
nothing. A single break becomes a space; of several, the first one is dropped. A block scalar
takes whole lines, as deep as they are indented further than the surrounding block.
-/

namespace BeaconSsz.Yaml

/-- What stands between two words of a scalar. -/
inductive Gap where
  /-- Blanks within a line, last first. -/
  | blanks (blanks : List Char)
  /-- Line breaks: the first one, unless it is escaped, and the other ones, last first. -/
  | lines (first : Option Char) (more : List Char)

namespace Gap

/-- Nothing between two words. -/
def empty : Gap := blanks []

/-- Whether nothing stands between two words. -/
def isEmpty : Gap → Bool
  | blanks [] => true
  | _ => false

/-- Whether a line ends between two words. -/
def isLines : Gap → Bool
  | blanks _ => false
  | lines _ _ => true

/-- Adds a blank or a break. -/
def add (gap : Gap) (c : Char) : Gap :=
  match gap with
  | blanks earlier => if isBreak c then lines (some c) [] else blanks (c :: earlier)
  | lines first more => if isBreak c then lines first (c :: more) else gap

/-- The text read so far, last character first, with what a gap behind it stands for. -/
def fold (text : List Char) : Gap → List Char
  | blanks earlier => earlier ++ text
  | lines none more => more ++ text
  | lines (some c) more =>
    if c ≠ '\n' then more ++ c :: text
    else if more.isEmpty then ' ' :: text
    else more ++ text

end Gap

/-- A scalar that has been read: its text, whether a line ends right behind it, and the place
behind it and the gap that follows. -/
structure Scanned where
  text : String
  endsLine : Bool
  cursor : Cursor

/-- Whether a character ends a plain scalar in a flow collection. -/
def isFlowMark (c : Char) : Bool :=
  c = ',' || c = '[' || c = ']' || c = '\x7b' || c = '\x7d'

/-- Where a plain scalar ends, or that it cannot go on. -/
inductive PlainStep where
  | goesOn
  | ends
  | fails
  deriving DecidableEq

/-- How a plain scalar goes on with a character other than a blank or a break. -/
def plainStep (inFlow : Bool) (margin column : Nat) (gap : Gap) (c : Char) (rest : List Char) :
    PlainStep :=
  if !gap.isEmpty && (c = '#' || (!inFlow && column < margin) ||
      (column = 0 && startsDocumentMark (c :: rest))) then .ends
  else if inFlow && c = ':' && rest.head?.any fun d => isFlowMark d || d = '?' then .fails
  else if (c = ':' && startsBlank rest) || (inFlow && isFlowMark c) then .ends
  else .goesOn

/-- Reads the rest of a plain scalar behind the text read so far and the gap behind that. Outside
flow collections it stays at or behind the margin. -/
def scanPlainFrom (inFlow : Bool) (margin : Nat) (text : List Char) (gap : Gap)
    (position : Position) : List Char → Option Scanned
  | [] => some ⟨String.ofList text.reverse, gap.isLines, ⟨position, []⟩⟩
  | c :: rest =>
    if isBlank c || isBreak c then
      if c = '\t' && gap.isLines && position.column < margin then none
      else scanPlainFrom inFlow margin text (gap.add c) (position.after c) rest
    else
      match plainStep inFlow margin position.column gap c rest with
      | .fails => none
      | .ends => some ⟨String.ofList text.reverse, gap.isLines, ⟨position, c :: rest⟩⟩
      | .goesOn => scanPlainFrom inFlow margin (c :: gap.fold text) .empty (position.after c) rest

/-- Reads a plain scalar. -/
def scanPlain (inFlow : Bool) (margin : Nat) (cursor : Cursor) : Option Scanned :=
  scanPlainFrom inFlow margin [] .empty cursor.position cursor.rest

/-- What the last character means for the next one in a quoted scalar. -/
inductive QuoteState where
  | text
  /-- A single quote that ends the scalar unless it is written twice. -/
  | quote
  /-- A backslash. -/
  | escape
  /-- Digits of a character's number are still to come, behind those that make up a value. -/
  | digits (left value : Nat)

/-- The character that a character behind a backslash stands for. -/
def unescape? : Char → Option Char
  | '0' => some '\x00'
  | 'a' => some '\x07'
  | 'b' => some '\x08'
  | 't' | '\t' => some '\t'
  | 'n' => some '\n'
  | 'v' => some '\x0b'
  | 'f' => some '\x0c'
  | 'r' => some '\r'
  | 'e' => some '\x1b'
  | ' ' => some ' '
  | '"' => some '"'
  | '/' => some '/'
  | '\\' => some '\\'
  | 'N' => some '\u0085'
  | '_' => some '\u00a0'
  | 'L' => some '\u2028'
  | 'P' => some '\u2029'
  | _ => none

/-- How many digits follow a letter behind a backslash. -/
def escapeDigits? : Char → Option Nat
  | 'x' => some 2
  | 'u' => some 4
  | 'U' => some 8
  | _ => none

/-- The character with a number, unless the number belongs to none. -/
def charOfNumber? (n : Nat) : Option Char :=
  if n.isValidChar then some (Char.ofNat n) else none

/-- Reads the rest of a quoted scalar behind the text read so far and the gap behind that. -/
def scanQuotedFrom (quote : Char) (state : QuoteState) (text : List Char) (gap : Gap)
    (position : Position) : List Char → Option Scanned
  | [] =>
    match state with
    | .quote => some ⟨String.ofList text.reverse, false, ⟨position, []⟩⟩
    | _ => none
  | c :: rest =>
    let next := position.after c
    match state with
    | .text =>
      if isBlank c || isBreak c then scanQuotedFrom quote .text text (gap.add c) next rest
      else if position.column = 0 && startsDocumentMark (c :: rest) then none
      else if c = quote then
        if quote = '\x27' then scanQuotedFrom quote .quote (gap.fold text) .empty next rest
        else some ⟨String.ofList (gap.fold text).reverse, false, ⟨next, rest⟩⟩
      else if c = '\\' && quote = '"' then
        scanQuotedFrom quote .escape (gap.fold text) .empty next rest
      else scanQuotedFrom quote .text (c :: gap.fold text) .empty next rest
    | .quote =>
      if c = quote then scanQuotedFrom quote .text (quote :: text) .empty next rest
      else some ⟨String.ofList text.reverse, false, ⟨position, c :: rest⟩⟩
    | .escape =>
      if isBreak c then scanQuotedFrom quote .text text (.lines none []) next rest
      else
        match unescape? c, escapeDigits? c with
        | some char, _ => scanQuotedFrom quote .text (char :: text) .empty next rest
        | none, some count => scanQuotedFrom quote (.digits count 0) text .empty next rest
        | none, none => none
    | .digits left value =>
      match Hex.digitValue? c with
      | none => none
      | some digit =>
        if left ≤ 1 then
          match charOfNumber? (16 * value + digit) with
          | some char => scanQuotedFrom quote .text (char :: text) .empty next rest
          | none => none
        else
          scanQuotedFrom quote (.digits (left - 1) (16 * value + digit)) text .empty next rest

/-- Reads a quoted scalar, from its first quote on. -/
def scanQuoted (quote : Char) (cursor : Cursor) : Option Scanned :=
  let cursor := cursor.skip 1
  scanQuotedFrom quote .text [] .empty cursor.position cursor.rest

/-- What becomes of the line breaks at the end of a block. -/
inductive Chomping where
  | strip
  /-- Only the break of the last line is kept. -/
  | clip
  | keep
  deriving DecidableEq

/-- What the first line of a block scalar tells: the breaks at the end, and the indentation, if
it is given. -/
structure BlockHeader where
  chomping : Chomping
  indentation : Option Nat

namespace BlockHeader

/-- What a sign says about the breaks at the end. -/
def chomping? (c : Char) : Option Chomping :=
  if c = '+' then some .keep else if c = '-' then some .strip else none

/-- The indentation that a digit gives. -/
def indentation? (c : Char) : Option Nat :=
  if '1' ≤ c && c ≤ '9' then some (c.toNat - 48) else none

/-- Reads the sign and the digit behind the mark of a block, in either order. -/
def read (cursor : Cursor) : BlockHeader × Cursor :=
  let first := cursor.rest.head?
  let second := cursor.rest.tail.head?
  match first.bind chomping?, first.bind indentation? with
  | some chomping, _ =>
    match second.bind indentation? with
    | some n => (⟨chomping, some n⟩, cursor.skip 2)
    | none => (⟨chomping, none⟩, cursor.skip 1)
  | none, some n =>
    match second.bind chomping? with
    | some chomping => (⟨chomping, some n⟩, cursor.skip 2)
    | none => (⟨.clip, some n⟩, cursor.skip 1)
  | none, none => (⟨.clip, none⟩, cursor)

end BlockHeader

/-- The lines of a block that have been read. -/
structure BlockLines where
  /-- The text, last character first. -/
  text : List Char
  /-- The break of the last line that is not empty. -/
  lastBreak : Option Char
  /-- The breaks of the empty lines behind it, last first. -/
  emptyLines : List Char
  /-- Whether the last line that is not empty starts with a blank. -/
  startsBlank : Bool

namespace BlockLines

/-- No lines. -/
def none : BlockLines := ⟨[], .none, [], false⟩

/-- Starts a line that is not empty with its first character. In a folded block, the break between
two lines of which neither starts with a blank is folded. -/
def startLine (lines : BlockLines) (folded : Bool) (c : Char) : BlockLines :=
  let text :=
    if folded && lines.lastBreak = some '\n' && !lines.startsBlank && !isBlank c then
      if lines.emptyLines.isEmpty then ' ' :: lines.text else lines.emptyLines ++ lines.text
    else lines.emptyLines ++ (lines.lastBreak.toList ++ lines.text)
  ⟨c :: text, .none, [], isBlank c⟩

/-- The text of a block. -/
def finish (lines : BlockLines) (chomping : Chomping) : String :=
  let text := match chomping with
    | .strip => lines.text
    | .clip => lines.lastBreak.toList ++ lines.text
    | .keep => lines.emptyLines ++ (lines.lastBreak.toList ++ lines.text)
  String.ofList text.reverse

end BlockLines

/-- Where the reading of a block is. -/
inductive BlockState where
  /-- In front of a line's text. While the indentation is not known, the deepest column so far. -/
  | margin (indentation : Option Nat) (deepest : Nat)
  /-- Within a line's text. -/
  | content (indentation : Nat)

/-- Reads the rest of a block behind the lines read so far. The block is indented by `least`
columns at least. -/
def scanBlockFrom (folded : Bool) (chomping : Chomping) (least : Nat) (state : BlockState)
    (lines : BlockLines) (position : Position) : List Char → Option Scanned
  | [] => some ⟨lines.finish chomping, true, ⟨position, []⟩⟩
  | c :: rest =>
    let next := position.after c
    match state with
    | .margin known deepest =>
      let deepest := max deepest position.column
      if (c = ' ' || c = '\t') && known.all (position.column < ·) then
        if c = '\t' then none
        else scanBlockFrom folded chomping least (.margin known deepest) lines next rest
      else if isBreak c then
        scanBlockFrom folded chomping least (.margin known deepest)
          { lines with emptyLines := c :: lines.emptyLines } next rest
      else
        let indentation := known.getD (max deepest least)
        if position.column = indentation then
          scanBlockFrom folded chomping least (.content indentation) (lines.startLine folded c)
            next rest
        else some ⟨lines.finish chomping, true, ⟨position, c :: rest⟩⟩
    | .content indentation =>
      if isBreak c then
        scanBlockFrom folded chomping least (.margin (some indentation) 0)
          { lines with lastBreak := some c } next rest
      else
        scanBlockFrom folded chomping least (.content indentation)
          { lines with text := c :: lines.text } next rest

/-- Reads a block scalar, from its mark on, in a block at the given indentation, if any. -/
def scanBlock (folded : Bool) (outer : Option Nat) (cursor : Cursor) : Option Scanned := do
  let (header, cursor) := BlockHeader.read (cursor.skip 1)
  let cursor ← cursor.endLine?
  let known := header.indentation.map (· + outer.getD 0)
  let least := max 1 ((outer.map (· + 1)).getD 0)
  scanBlockFrom folded header.chomping least (.margin known 0) .none cursor.position cursor.rest

end BeaconSsz.Yaml
