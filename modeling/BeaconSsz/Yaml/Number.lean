import BeaconSsz.Bytes.Hex
import BeaconSsz.Text.Decimal
import BeaconSsz.Yaml.Node

/-!
# Natural numbers in YAML

A number is a plain scalar in decimal with no leading zeros, or in hexadecimal, octal or binary
behind a marker. A plus sign may stand in front. A literal block counts as well if it is tagged as
a number.
-/

namespace BeaconSsz.Yaml

/-- The number that digits spell to a base, if all of them belong to it. -/
def digitsValue? (base : Nat) (digits : List Char) : Option Nat := do
  if digits.isEmpty then none
  let values ← digits.mapM Hex.digitValue?
  if values.all (· < base) then
    some (values.foldl (fun n digit => base * n + digit) 0)
  else none

/-- The number that a text spells, if it is below the limit. -/
def natural? (limit : Nat) (text : String) : Option Nat :=
  let digits := match text.toList with
    | '+' :: rest => rest
    | chars => chars
  let value := match digits with
    | '0' :: 'x' :: rest => digitsValue? 16 rest
    | '0' :: 'o' :: rest => digitsValue? 8 rest
    | '0' :: 'b' :: rest => digitsValue? 2 rest
    | _ => if Decimal.isCanonical digits then digitsValue? 10 digits else none
  value.filter (· < limit)

namespace Node

/-- The tag of numbers. -/
def numberTag : Bytes := asciiBytes "tag:yaml.org,2002:int"

/-- The number that a node is, if it is one below the limit. -/
def natural? (limit : Nat) : Node → Option Nat
  | scalar _ .plain _ text => Yaml.natural? limit text
  | scalar _ .literal (some tag) text => if tag = numberTag then Yaml.natural? limit text else none
  | _ => none

/-- The text of a scalar. -/
def text? : Node → Option String
  | scalar _ _ _ text => some text
  | _ => none

/-- The entries of a mapping. A plain scalar without text counts as an empty one. -/
def entries? : Node → Option (List Entry)
  | mapping _ entries => some entries
  | scalar _ .plain _ "" => some []
  | _ => none

end Node

end BeaconSsz.Yaml
