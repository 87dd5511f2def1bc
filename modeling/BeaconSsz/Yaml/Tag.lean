import BeaconSsz.Bytes.Hex
import BeaconSsz.Text.Decimal
import BeaconSsz.Yaml.Text
import BeaconSsz.Yaml.Token

/-!
# Names, tags and directives

A tag names a prefix and adds a suffix to it, or is given in full between angle brackets. Both
are written with the characters of addresses; any other character is written by the bytes of its
UTF-8 form, two hexadecimal digits behind a percent sign each.
-/

namespace BeaconSsz.Yaml

/-- Whether a character may stand in an address, and, where `wide` says so, in one that commas and
square brackets do not end. -/
def isAddressChar (wide : Bool) (c : Char) : Bool :=
  isWordChar c || ";/?:@&=+$.!~*'()".toList.contains c || (wide && (c = ',' || c = '[' || c = ']'))

/-- How many bytes follow the first byte of a character. -/
def followers? (byte : Nat) : Option Nat :=
  if byte < 0x80 then some 0
  else if byte / 0x20 = 0x6 then some 1
  else if byte / 0x10 = 0xe then some 2
  else if byte / 0x8 = 0x1e then some 3
  else none

/-- How many bytes follow a byte, if so many were to come before it. -/
def pendingAfter? (pending byte : Nat) : Option Nat :=
  if pending = 0 then followers? byte
  else if byte / 0x40 = 0x2 then some (pending - 1)
  else none

/-- Reads an address behind the bytes read so far, last first. Of the last character, `pending`
bytes are still to come. -/
def scanAddressFrom (wide : Bool) (pending : Nat) (done : Bytes) (position : Position) :
    List Char → Option (Bytes × Cursor)
  | '%' :: a :: b :: rest =>
    match Hex.digitValue? a, Hex.digitValue? b with
    | some high, some low =>
      match pendingAfter? pending (16 * high + low) with
      | some pending =>
        scanAddressFrom wide pending (UInt8.ofNat (16 * high + low) :: done)
          (((position.after '%').after a).after b) rest
      | none => none
    | _, _ => none
  | c :: rest =>
    if pending ≠ 0 || c = '%' then none
    else if isAddressChar wide c then
      scanAddressFrom wide 0 (UInt8.ofNat c.toNat :: done) (position.after c) rest
    else some (done.reverse, ⟨position, c :: rest⟩)
  | [] => if pending = 0 then some (done.reverse, ⟨position, []⟩) else none

/-- Reads an address, in which nothing need be written. -/
def scanAddress (wide : Bool) (cursor : Cursor) : Option (Bytes × Cursor) :=
  scanAddressFrom wide 0 [] cursor.position cursor.rest

/-- What an address says: a zero byte ends it, and what is written behind that does not count. -/
def upToZero (address : Bytes) : Bytes :=
  address.takeWhile (· ≠ 0)

/-- Reads an address in which something is written. -/
def scanFullAddress (wide : Bool) (cursor : Cursor) : Option (Bytes × Cursor) :=
  match scanAddress wide cursor with
  | some ([], _) | none => none
  | some (address, cursor) => some (upToZero address, cursor)

/-- Reads the name of a prefix: an exclamation mark, or a word between two. The second mark may be
missing, as the flag tells. -/
def scanHandle (cursor : Cursor) : Option (List Char × Bool × Cursor) :=
  match cursor.rest with
  | '!' :: rest =>
    let word := rest.takeWhile isWordChar
    let cursor := cursor.skip (1 + word.length)
    match cursor.rest with
    | '!' :: _ => some (word, true, cursor.skip 1)
    | _ => some (word, false, cursor)
  | _ => none

/-- The name of a prefix that is a word between two exclamation marks. -/
def handleOf (word : List Char) : String :=
  String.ofList ('!' :: word ++ ['!'])

/-- Reads the name of a tag. -/
def scanTagName (cursor : Cursor) : Option (TagName × Cursor) := do
  if let '!' :: '<' :: _ := cursor.rest then
    let (suffix, cursor) ← scanFullAddress true (cursor.skip 2)
    if cursor.rest.head? = some '>' then some (⟨"", suffix⟩, cursor.skip 1) else none
  else
    match ← scanHandle cursor with
    | (word, true, cursor) =>
      let (suffix, cursor) ← scanFullAddress false cursor
      some (⟨handleOf word, suffix⟩, cursor)
    | (word, false, cursor) =>
      let (suffix, cursor) ← scanAddress false cursor
      match word.map (fun c => UInt8.ofNat c.toNat) ++ upToZero suffix with
      | [] => some (⟨"", [0x21]⟩, cursor)
      | suffix => some (⟨"!", suffix⟩, cursor)

/-- Reads a tag. In a flow collection, a comma may follow it at once. -/
def scanTag (inFlow : Bool) (cursor : Cursor) : Option (Token × Cursor) := do
  let (name, cursor) ← scanTagName cursor
  if startsBlank cursor.rest || (inFlow && cursor.rest.head? = some ',') then
    some (.tag name, cursor)
  else none

/-- Whether a text may follow the name of a node at once. -/
def endsName : List Char → Bool
  | [] => true
  | c :: _ => isBlank c || isBreak c || "?:,]\x7d%@\x60".toList.contains c

/-- Reads the name of a node behind its mark. -/
def scanName (cursor : Cursor) : Option (String × Cursor) :=
  let word := (cursor.skip 1).rest.takeWhile isWordChar
  let cursor := cursor.skip (1 + word.length)
  if !word.isEmpty && endsName cursor.rest then some (String.ofList word, cursor) else none

/-- Reads a part of a version, which has nine digits at most. -/
def scanVersionPart (cursor : Cursor) : Option (Nat × Cursor) :=
  let digits := cursor.rest.takeWhile Decimal.isDigit
  if digits.isEmpty || 9 < digits.length then none
  else some (Decimal.valueFrom 0 digits, cursor.skip digits.length)

/-- Reads a version. -/
def scanVersion (cursor : Cursor) : Option (Token × Cursor) := do
  let (major, cursor) ← scanVersionPart (cursor.skipWhile isBlank)
  if cursor.rest.head? ≠ some '.' then none
  let (minor, cursor) ← scanVersionPart (cursor.skip 1)
  some (.version major minor, cursor)

/-- Reads the name of a prefix and its meaning. -/
def scanTagHandle (cursor : Cursor) : Option (Token × Cursor) := do
  let (word, closed, cursor) ← scanHandle (cursor.skipWhile isBlank)
  let handle ← if closed then some (handleOf word) else if word.isEmpty then some "!" else none
  if !cursor.rest.head?.any isBlank then none
  let (meaning, cursor) ← scanFullAddress true (cursor.skipWhile isBlank)
  if startsBlank cursor.rest then some (.tagHandle handle meaning, cursor) else none

/-- Reads a directive, which takes a whole line. -/
def scanDirective (cursor : Cursor) : Option (Token × Cursor) := do
  let word := (cursor.skip 1).rest.takeWhile isWordChar
  let cursor := cursor.skip (1 + word.length)
  if !startsBlank cursor.rest then none
  let (token, cursor) ←
    if String.ofList word == "YAML" then scanVersion cursor
    else if String.ofList word == "TAG" then scanTagHandle cursor
    else none
  let cursor ← cursor.endLine?
  some (token, cursor)

end BeaconSsz.Yaml
