import BeaconSsz.Text.Shown

/-!
# Quoted text

A text is shown between double quotes. Quotes and backslashes get a backslash, common control
characters their letter, and every other character that does not show as itself its code point
in braces.
-/

namespace BeaconSsz.Text

/-- The lower-case hexadecimal digits of a code point, without leading zeros. -/
def codeDigits (code : Nat) : String :=
  String.ofList (Nat.toDigits 16 code)

/-- The code point of a character in braces. -/
def escapeCode (c : Char) : String :=
  "\\u\x7b" ++ codeDigits c.toNat ++ "\x7d"

/-- A character as it stands between quotes. -/
def quoteChar (c : Char) : String :=
  if c = '"' then "\\\""
  else if c = '\\' then "\\\\"
  else if c = '\x00' then "\\0"
  else if c = '\t' then "\\t"
  else if c = '\n' then "\\n"
  else if c = '\r' then "\\r"
  else if c.toNat < 32 || c.toNat = 127 then escapeCode c
  else if c.toNat < 127 || showsAlone c then String.singleton c
  else escapeCode c

/-- A text between double quotes. -/
def quoted (text : String) : String :=
  text.toList.foldl (fun done c => done ++ quoteChar c) "\"" ++ "\""

end BeaconSsz.Text
