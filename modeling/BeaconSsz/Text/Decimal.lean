/-!
# Decimal text

Numbers are written in decimal with no sign and no leading zeros, and only that spelling is read.
-/

namespace BeaconSsz.Decimal

/-- Whether a character is one of the ten digits. -/
def isDigit (c : Char) : Bool :=
  '0' ≤ c && c ≤ '9'

/-- The value of a digit. -/
def digitValue (c : Char) : Nat :=
  c.toNat - 48

/-- The number that digits spell behind a number already read. -/
def valueFrom (n : Nat) (digits : List Char) : Nat :=
  digits.foldl (fun n c => 10 * n + digitValue c) n

/-- Whether a text is digits only, at least one, with no leading zero. -/
def isCanonical : List Char → Bool
  | [] => false
  | '0' :: _ :: _ => false
  | digits => digits.all isDigit

/-- The number that a text spells, if it is below the limit. -/
def parse? (limit : Nat) (text : List Char) : Option Nat :=
  if isCanonical text && valueFrom 0 text < limit then some (valueFrom 0 text) else none

end BeaconSsz.Decimal
