import BeaconSsz.Bytes.Hex
import BeaconSsz.Json.Basic

/-!
# Writing JSON

A value is written on one line without spaces, or spread over lines with an indent of two spaces
a level. In strings only quotes, backslashes and control characters are escaped.
-/

namespace BeaconSsz.Json

/-- A character as it stands in a string. -/
def escape (c : Char) : String :=
  if c = '"' then "\\\""
  else if c = '\\' then "\\\\"
  else if c = '\x08' then "\\b"
  else if c = '\x0c' then "\\f"
  else if c = '\n' then "\\n"
  else if c = '\r' then "\\r"
  else if c = '\t' then "\\t"
  else if c.toNat < 32 then "\\u00" ++ Hex.text [UInt8.ofNat c.toNat]
  else String.singleton c

/-- Writes a string behind a text. -/
def writeString (done content : String) : String :=
  (content.toList.foldl (fun done c => done ++ escape c) (done ++ "\"")) ++ "\""

/-- Writes a boolean behind a text. -/
def writeBoolean (done : String) (value : Bool) : String :=
  done ++ (if value then "true" else "false")

/-- Writes a number behind a text, as digits and a power of ten. -/
def writeDecimal (done : String) (negative : Bool) (significand : Nat) (exponent : Int) : String :=
  done ++ (if negative then "-" else "") ++ toString significand ++ "e" ++ toString exponent

mutual

/-- Writes a value behind a text, on one line. -/
def write (done : String) : Json → String
  | null => done ++ "null"
  | boolean value => writeBoolean done value
  | natural value => done ++ toString value.toNat
  | decimal negative significand exponent => writeDecimal done negative significand exponent
  | string content => writeString done content
  | array elements => writeElements (done ++ "[") true elements ++ "]"
  | object members => writeMembers (done ++ "\x7b") true members ++ "\x7d"

/-- Writes elements behind a text, on one line. -/
def writeElements (done : String) (first : Bool) : List Json → String
  | [] => done
  | element :: rest =>
    writeElements (write (if first then done else done ++ ",") element) false rest

/-- Writes members behind a text, on one line. -/
def writeMembers (done : String) (first : Bool) : List (String × Json) → String
  | [] => done
  | (key, value) :: rest =>
    let key := writeString (if first then done else done ++ ",") key
    writeMembers (write (key ++ ":") value) false rest

end

/-- The text of a value, on one line. -/
def compact (value : Json) : String :=
  write "" value

/-- Starts a line at a level. -/
def newLine (done : String) (level : Nat) : String :=
  done ++ String.ofList ('\n' :: List.replicate (2 * level) ' ')

mutual

/-- Writes a value behind a text, with what it holds on lines of their own one level deeper. -/
def spread (level : Nat) (done : String) : Json → String
  | null => done ++ "null"
  | boolean value => writeBoolean done value
  | natural value => done ++ toString value.toNat
  | decimal negative significand exponent => writeDecimal done negative significand exponent
  | string content => writeString done content
  | array [] => done ++ "[]"
  | array (element :: rest) =>
    let done := spread (level + 1) (newLine (done ++ "[") (level + 1)) element
    newLine (spreadElements (level + 1) done rest) level ++ "]"
  | object [] => done ++ "\x7b\x7d"
  | object ((key, value) :: rest) =>
    let key := writeString (newLine (done ++ "\x7b") (level + 1)) key
    let done := spread (level + 1) (key ++ ": ") value
    newLine (spreadMembers (level + 1) done rest) level ++ "\x7d"

/-- Writes the elements that follow another one, a line each. -/
def spreadElements (level : Nat) (done : String) : List Json → String
  | [] => done
  | element :: rest =>
    spreadElements level (spread level (newLine (done ++ ",") level) element) rest

/-- Writes the members that follow another one, a line each. -/
def spreadMembers (level : Nat) (done : String) : List (String × Json) → String
  | [] => done
  | (key, value) :: rest =>
    let key := writeString (newLine (done ++ ",") level) key
    spreadMembers level (spread level (key ++ ": ") value) rest

end

/-- The text of a value, spread over lines. -/
def pretty (value : Json) : String :=
  spread 0 "" value

end BeaconSsz.Json
