/-!
# The text of a YAML stream

A stream is text without control characters other than tabs and line breaks. Every ending of a
line is one line feed, except for the two separators of lines and paragraphs, which stand for
themselves. A cursor is a place in the text together with what follows.
-/

namespace BeaconSsz.Yaml

/-- Whether a character may stand in a stream. -/
def isAllowed (c : Char) : Bool :=
  let n := c.toNat
  c = '\t' || c = '\n' || c = '\r' || n = 0x85 || (0x20 ≤ n && n ≤ 0x7e) ||
    (0xa0 ≤ n && n ≤ 0xfffd) || 0x10000 ≤ n

/-- A text in which every ending of a line is one line feed, behind the text already read, last
character first. -/
def unifyBreaksFrom (done : List Char) : List Char → List Char
  | [] => done.reverse
  | '\r' :: '\n' :: rest => unifyBreaksFrom ('\n' :: done) rest
  | c :: rest => unifyBreaksFrom ((if c = '\r' || c = '\u0085' then '\n' else c) :: done) rest

/-- A text in which every ending of a line is one line feed. -/
def unifyBreaks (text : List Char) : List Char :=
  unifyBreaksFrom [] text

/-- Whether a character ends a line. -/
def isBreak (c : Char) : Bool :=
  c = '\n' || c = '\u2028' || c = '\u2029'

/-- Whether a character is a blank within a line. -/
def isBlank (c : Char) : Bool :=
  c = ' ' || c = '\t'

/-- Whether a character may stand in names. -/
def isWordChar (c : Char) : Bool :=
  c.isAlphanum || c = '-' || c = '_'

/-- Whether a text starts with a blank or a break, or is at its end. -/
def startsBlank : List Char → Bool
  | [] => true
  | c :: _ => isBlank c || isBreak c

/-- Whether a line starts with a mark between documents: three hyphens or three dots. -/
def startsDocumentMark : List Char → Bool
  | '-' :: '-' :: '-' :: rest => startsBlank rest
  | '.' :: '.' :: '.' :: rest => startsBlank rest
  | _ => false

/-- A place in a text: the line, the number of characters in front of it in the line, and the
number of bytes that they take. -/
structure Position where
  line : Nat
  column : Nat
  offset : Nat

namespace Position

/-- The start of a text. -/
def start : Position := ⟨0, 0, 0⟩

/-- The place behind a character. -/
def after (position : Position) (c : Char) : Position :=
  if isBreak c then ⟨position.line + 1, 0, 0⟩
  else ⟨position.line, position.column + 1, position.offset + c.utf8Size⟩

end Position

/-- A place in a text, with the text from there on. -/
structure Cursor where
  position : Position
  rest : List Char

namespace Cursor

/-- The column of a place. -/
def column (cursor : Cursor) : Nat :=
  cursor.position.column

/-- Moves on by a number of characters. -/
def skip (cursor : Cursor) (count : Nat) : Cursor :=
  ⟨(cursor.rest.take count).foldl Position.after cursor.position, cursor.rest.drop count⟩

/-- Moves on behind the characters that meet a condition. -/
def skipWhile (cursor : Cursor) (condition : Char → Bool) : Cursor :=
  ⟨(cursor.rest.takeWhile condition).foldl Position.after cursor.position,
    cursor.rest.dropWhile condition⟩

/-- The place behind the blanks, the comment and the break that may end a line, if nothing else
stands in it. -/
def endLine? (cursor : Cursor) : Option Cursor :=
  let cursor := cursor.skipWhile isBlank
  let cursor := match cursor.rest with
    | '#' :: _ => cursor.skipWhile fun c => !isBreak c
    | _ => cursor
  match cursor.rest with
  | [] => some cursor
  | c :: _ => if isBreak c then some (cursor.skip 1) else none

end Cursor

end BeaconSsz.Yaml
