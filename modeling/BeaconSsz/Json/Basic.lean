/-!
# JSON values

A number is kept apart by whether it can stand for an integer: only one written as digits alone,
and small enough for a word, can.
-/

namespace BeaconSsz

/-- A JSON value. -/
inductive Json where
  | null
  | boolean (value : Bool)
  /-- A number that is written as a non-negative integer and is a word. -/
  | natural (value : UInt64)
  /-- Any other number: a sign, leading digits and a power of ten. -/
  | decimal (negative : Bool) (significand : Nat) (exponent : Int)
  | string (content : String)
  | array (elements : List Json)
  /-- Members in order, with distinct keys. -/
  | object (members : List (String × Json))

namespace Json

/-- The value of a key. -/
def lookup (key : String) (members : List (String × Json)) : Option Json :=
  (members.find? (·.1 == key)).map Prod.snd

/-- Gives a key a value, in the place of the value that the key had. -/
def insert (key : String) (value : Json) (members : List (String × Json)) :
    List (String × Json) :=
  if members.any (·.1 == key) then
    members.map fun member => if member.1 == key then (key, value) else member
  else members ++ [(key, value)]

end Json

end BeaconSsz
