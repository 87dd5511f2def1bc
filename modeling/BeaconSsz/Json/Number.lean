import BeaconSsz.Json.Basic
import BeaconSsz.Text.Decimal

/-!
# JSON numbers

A number is an optional minus sign, an integer without leading zeros, and optionally a fraction
and an exponent. A number whose magnitude is beyond the range of a binary64 float is refused.

The magnitude is that of a word of leading digits and a power of ten, both taken to the nearest
float and multiplied.
-/

namespace BeaconSsz.Json

/-- Leading digits as a number, and the power of ten that they count. -/
structure Magnitude where
  significand : Nat
  exponent : Int

/-- Numbers below this one fit into the significand. -/
def significandLimit : Nat := 0x10000000000000000

namespace Magnitude

/-- The magnitude of the digits of an integer. From the first digit on that would make the
significand too large, digits only count in the exponent. -/
def ofInteger (digits : List Char) : Magnitude :=
  digits.foldl
    (fun m c =>
      let next := 10 * m.significand + Decimal.digitValue c
      if m.exponent = 0 ∧ next < significandLimit then ⟨next, 0⟩
      else ⟨m.significand, m.exponent + 1⟩)
    ⟨0, 0⟩

/-- The magnitude with the digits of a fraction behind it, up to the first one that would make
the significand too large. -/
def addFraction (m : Magnitude) : List Char → Magnitude
  | [] => m
  | c :: rest =>
    let next := 10 * m.significand + Decimal.digitValue c
    if next < significandLimit then addFraction ⟨next, m.exponent - 1⟩ rest else m

/-- The magnitude scaled by a power of ten. -/
def scale (m : Magnitude) (exponent : Int) : Magnitude :=
  ⟨m.significand, m.exponent + exponent⟩

/-- The nearest number of 53 significant bits; of two equally near, the even one. -/
def nearest (n : Nat) : Nat :=
  if n < 1 <<< 53 then n
  else
    let unit := 1 <<< (n.log2 - 52)
    let kept := n / unit
    let left := n % unit
    if unit < 2 * left ∨ (unit = 2 * left ∧ kept % 2 = 1) then (kept + 1) * unit
    else kept * unit

/-- From this number on, numbers round to infinity. It is half a unit above the greatest float. -/
def infinite : Nat := 0x3fffffffffffff <<< 970

/-- Whether the magnitude is that of a float. -/
def inRange (m : Magnitude) : Bool :=
  m.significand = 0 || m.exponent < 0 ||
    (m.exponent ≤ 308 && nearest m.significand * nearest (Nat.pow 10 m.exponent.toNat) < infinite)

end Magnitude

/-- The digits at the front of a text, and the rest. -/
def spanDigits (text : List Char) : List Char × List Char :=
  text.span Decimal.isDigit

/-- The fraction at the front of a text, if there is one, and the rest. -/
def readFraction : List Char → Option (List Char × List Char)
  | '.' :: rest =>
    let (digits, rest) := spanDigits rest
    if digits.isEmpty then none else some (digits, rest)
  | rest => some ([], rest)

/-- The digits of an exponent, with its sign, and the rest. -/
def readExponentDigits (negative : Bool) (text : List Char) : Option (Option Int × List Char) :=
  let (digits, rest) := spanDigits text
  if digits.isEmpty then none
  else
    let value : Int := Decimal.valueFrom 0 digits
    some (some (if negative then -value else value), rest)

/-- The exponent at the front of a text, if there is one, and the rest. -/
def readExponent : List Char → Option (Option Int × List Char)
  | c :: rest =>
    if c = 'e' ∨ c = 'E' then
      match rest with
      | '+' :: rest => readExponentDigits false rest
      | '-' :: rest => readExponentDigits true rest
      | rest => readExponentDigits false rest
    else some (none, c :: rest)
  | [] => some (none, [])

/-- The number behind its sign at the front of a text, and the rest. -/
def readMagnitude (negative : Bool) (text : List Char) : Option (Json × List Char) := do
  let (digits, rest) := spanDigits text
  if Decimal.isCanonical digits then
    let (fraction, rest) ← readFraction rest
    let (exponent, rest) ← readExponent rest
    let m := ((Magnitude.ofInteger digits).addFraction fraction).scale (exponent.getD 0)
    if !m.inRange then none
    else if !negative && fraction.isEmpty && exponent.isNone && m.exponent = 0 then
      some (natural (UInt64.ofNat m.significand), rest)
    else some (decimal negative m.significand m.exponent, rest)
  else none

/-- The number at the front of a text, and the rest. -/
def readNumber : List Char → Option (Json × List Char)
  | '-' :: rest => readMagnitude true rest
  | text => readMagnitude false text

end BeaconSsz.Json
