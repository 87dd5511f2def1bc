/-!
# Machine words, memory and traps

Lengths, widths and positions are 64-bit words. An operation whose exact result is not a word
does not wrap: it stops the computation. So does asking for a piece of memory that is larger than
any piece can be. A trap is the reason for such a stop. It is kept apart from the errors that a
computation reports about its input, because a trap says that the computation itself could not go
on.
-/

namespace BeaconSsz

/-- Why a computation stopped without an answer. -/
inductive Trap where
  /-- A sum that is not a word. -/
  | addOverflow
  /-- A product that is not a word. -/
  | multiplyOverflow
  /-- A remainder by zero. -/
  | zeroDivisor
  /-- A string or a sequence that is larger than a piece of memory can be. -/
  | capacityOverflow
  /-- An element past the end of a table. -/
  | indexOutOfBounds (length index : Nat)
  /-- A slice that ends before it starts. -/
  | sliceReversed (start stop : Nat)
  /-- A slice that ends past the end of its bytes. -/
  | sliceOutOfRange (stop length : Nat)
  /-- An integer of more than 32 bytes. -/
  | integerTooWide
  /-- More chunks than the tree has leaves for. -/
  | chunkLimit (count limit : Nat)
  /-- A value of another kind than its shape, met while hashing. -/
  | valueMismatch (expected found : String)
  /-- A basic value that does not encode, met while hashing. -/
  | notHashable (shape reason : String)
  deriving DecidableEq

/-- The text shown for a trap. -/
def Trap.message : Trap → String
  | addOverflow => "attempt to add with overflow"
  | multiplyOverflow => "attempt to multiply with overflow"
  | zeroDivisor => "attempt to calculate the remainder with a divisor of zero"
  | capacityOverflow => "capacity overflow"
  | indexOutOfBounds length index =>
    s!"index out of bounds: the len is {length} but the index is {index}"
  | sliceReversed start stop => s!"slice index starts at {start} but ends at {stop}"
  | sliceOutOfRange stop length =>
    s!"range end index {stop} out of range for slice of length {length}"
  | integerTooWide => "assertion failed: 4 * 8 >= slice.len()"
  | chunkLimit count limit => s!"{count} chunks exceed the limit of {limit}"
  | valueMismatch expected found => s!"expected a {expected} value, found {found}"
  | notHashable shape reason => s!"cannot merkleize {shape}: {reason}"

/-- Everything below this number is a word. -/
def wordLimit : Nat := 0x10000000000000000

namespace Word

/-- The exact sum, when it is a word. -/
def add (a b : Nat) : Except Trap Nat :=
  if a + b < wordLimit then .ok (a + b) else .error .addOverflow

/-- The exact product, when it is a word. -/
def mul (a b : Nat) : Except Trap Nat :=
  if a * b < wordLimit then .ok (a * b) else .error .multiplyOverflow

/-- The exact sum, when it is a word. -/
def add? (a b : Nat) : Option Nat :=
  if a + b < wordLimit then some (a + b) else none

/-- The exact product, when it is a word. -/
def mul? (a b : Nat) : Option Nat :=
  if a * b < wordLimit then some (a * b) else none

/-- The exact product, or the largest word when the product is not a word. -/
def saturatingMul (a b : Nat) : Nat :=
  min (a * b) (wordLimit - 1)

end Word

namespace Memory

/-- Every piece of memory has fewer bytes than this. -/
def limit : Nat := 0x8000000000000000

/-- Asks for one piece of memory with room for so many items of a size. -/
def reserve (count size : Nat) : Except Trap Unit :=
  if count * size < limit then .ok () else .error .capacityOverflow

end Memory

/-- How a computation that may also report errors of type `ε` ends early. -/
inductive Stop (ε : Type) where
  /-- The input is refused with an error. -/
  | refused (error : ε)
  /-- The computation could not go on. -/
  | trapped (trap : Trap)
  deriving DecidableEq

namespace Stop

variable {ε δ α : Type}

/-- Changes the error of a refusal and keeps a trap as it is. -/
def mapError (f : ε → δ) : Stop ε → Stop δ
  | refused error => refused (f error)
  | trapped trap => trapped trap

/-- Lets a computation that only refuses take part in one that may also trap. -/
def orRefuse (result : Except ε α) : Except (Stop ε) α :=
  result.mapError refused

/-- Lets a computation that only traps take part in one that may also refuse. -/
def orTrap (result : Except Trap α) : Except (Stop ε) α :=
  result.mapError trapped

/-- Ends a computation with a refusal. -/
def refuse (error : ε) : Except (Stop ε) α :=
  .error (refused error)

end Stop

end BeaconSsz
