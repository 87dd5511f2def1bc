import BeaconSsz.Bytes.Hex
import BeaconSsz.Json.Number

/-!
# Reading JSON

A text holds one value, with blanks around everything. There are no comments and no trailing
commas. Of repeated keys the last one counts. Arrays and objects may be nested 127 levels deep.
-/

namespace BeaconSsz.Json

/-- Whether a character may stand around values. -/
def isBlank (c : Char) : Bool :=
  c = ' ' || c = '\t' || c = '\n' || c = '\r'

/-- The text behind its leading blanks. -/
def skipBlanks (text : List Char) : List Char :=
  text.dropWhile isBlank

/-- The code unit that four hexadecimal digits spell. -/
def codeUnit? (a b c d : Char) : Option Nat := do
  let digits ← [a, b, c, d].mapM Hex.digitValue?
  return digits.foldl (fun n digit => 16 * n + digit) 0

/-- Whether a code unit is the first half of a pair. -/
def isHighUnit (unit : Nat) : Bool :=
  0xD800 ≤ unit && unit < 0xDC00

/-- Whether a code unit is the second half of a pair. -/
def isLowUnit (unit : Nat) : Bool :=
  0xDC00 ≤ unit && unit < 0xE000

/-- The character that a pair of code units spells. -/
def pairChar (high low : Nat) : Char :=
  Char.ofNat (0x10000 + 0x400 * (high - 0xD800) + (low - 0xDC00))

/-- The character that a single escaped character stands for. -/
def unescape? (c : Char) : Option Char :=
  if c = '"' ∨ c = '\\' ∨ c = '/' then some c
  else if c = 'b' then some '\x08'
  else if c = 'f' then some '\x0c'
  else if c = 'n' then some '\n'
  else if c = 'r' then some '\r'
  else if c = 't' then some '\t'
  else none

/-- The rest of a string behind the characters already read, and the text behind its quote. -/
def readString (done : List Char) : List Char → Option (String × List Char)
  | '"' :: rest => some (String.ofList done.reverse, rest)
  | '\\' :: 'u' :: a :: b :: c :: d :: rest =>
    match codeUnit? a b c d with
    | none => none
    | some unit =>
      if isHighUnit unit then
        match rest with
        | '\\' :: 'u' :: a :: b :: c :: d :: rest =>
          match codeUnit? a b c d with
          | some low => if isLowUnit low then readString (pairChar unit low :: done) rest else none
          | none => none
        | _ => none
      else if isLowUnit unit then none
      else readString (Char.ofNat unit :: done) rest
  | '\\' :: c :: rest =>
    match unescape? c with
    | some c => readString (c :: done) rest
    | none => none
  | c :: rest => if c < ' ' ∨ c = '\\' then none else readString (c :: done) rest
  | [] => none

/-- The nesting that is allowed. -/
def maxNesting : Nat := 127

mutual

/-- The value at the front of a text without leading blanks, and the rest. -/
def readValue : (fuel nesting : Nat) → List Char → Option (Json × List Char)
  | 0, _, _ => none
  | fuel + 1, nesting, text =>
    match text with
    | 'n' :: 'u' :: 'l' :: 'l' :: rest => some (null, rest)
    | 't' :: 'r' :: 'u' :: 'e' :: rest => some (boolean true, rest)
    | 'f' :: 'a' :: 'l' :: 's' :: 'e' :: rest => some (boolean false, rest)
    | '"' :: rest => do
      let (content, rest) ← readString [] rest
      return (string content, rest)
    | '[' :: rest =>
      if nesting = 0 then none
      else
        match skipBlanks rest with
        | ']' :: rest => some (array [], rest)
        | rest => readElements fuel (nesting - 1) [] rest
    | '\x7b' :: rest =>
      if nesting = 0 then none
      else
        match skipBlanks rest with
        | '\x7d' :: rest => some (object [], rest)
        | rest => readMembers fuel (nesting - 1) [] rest
    | text => readNumber text

/-- The array whose remaining elements are at the front of a text, behind those already read in
reverse order, and the rest. -/
def readElements : (fuel nesting : Nat) → List Json → List Char → Option (Json × List Char)
  | 0, _, _, _ => none
  | fuel + 1, nesting, done, text =>
    match readValue fuel nesting text with
    | none => none
    | some (element, rest) =>
      match skipBlanks rest with
      | ',' :: rest => readElements fuel nesting (element :: done) (skipBlanks rest)
      | ']' :: rest => some (array (element :: done).reverse, rest)
      | _ => none

/-- The object whose remaining members are at the front of a text, behind those already read, and
the rest. -/
def readMembers :
    (fuel nesting : Nat) → List (String × Json) → List Char → Option (Json × List Char)
  | 0, _, _, _ => none
  | fuel + 1, nesting, done, text =>
    match text with
    | '"' :: rest =>
      match readString [] rest with
      | none => none
      | some (key, rest) =>
        match skipBlanks rest with
        | ':' :: rest =>
          match readValue fuel nesting (skipBlanks rest) with
          | none => none
          | some (value, rest) =>
            match skipBlanks rest with
            | ',' :: rest => readMembers fuel nesting (insert key value done) (skipBlanks rest)
            | '\x7d' :: rest => some (object (insert key value done), rest)
            | _ => none
        | _ => none
    | _ => none

end

/-- The value that a text holds. Each character is read by at most two steps. -/
def parse? (text : String) : Option Json := do
  let chars := text.toList
  let (value, rest) ← readValue (2 * chars.length + 2) maxNesting (skipBlanks chars)
  if (skipBlanks rest).isEmpty then return value else none

/-- The value that bytes hold, which must be valid UTF-8. -/
def parseBytes? (bytes : List UInt8) : Option Json := do
  let text ← String.fromUTF8? ⟨bytes.toArray⟩
  parse? text

end BeaconSsz.Json
