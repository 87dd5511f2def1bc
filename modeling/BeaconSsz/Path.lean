/-!
# Places in a value

An error found inside a value carries the way to the place where it was found, outermost step
first. Errors start at the place itself and gain a step at every level they leave.
-/

namespace BeaconSsz

/-- One step from a value to a part of it. -/
inductive Step where
  /-- Into the field of a container; the first step of a path is the name of the container. -/
  | field (name : String)
  /-- Into an element of a sequence. -/
  | index (position : Nat)
  deriving DecidableEq

/-- The way to a place, outermost step first. -/
abbrev Path := List Step

namespace Path

/-- The steps behind the first one. -/
def renderRest : Path → String
  | [] => ""
  | .field name :: rest => "." ++ name ++ renderRest rest
  | .index position :: rest => s!"[{position}]" ++ renderRest rest

/-- A path as it is shown, such as `BeaconBlockBody.attestations[3].aggregation_bits`. -/
def render : Path → String
  | .field name :: rest => name ++ renderRest rest
  | path => renderRest path

end Path

/-- A cause of failure and the place where it arose. -/
structure Located (κ : Type) where
  path : Path
  cause : κ
  deriving DecidableEq

namespace Located

variable {κ ι : Type}

/-- A cause at the place that is being looked at. -/
def here (cause : κ) : Located κ :=
  ⟨[], cause⟩

/-- The same error, seen from one level further out. -/
def within (step : Step) (error : Located κ) : Located κ :=
  ⟨step :: error.path, error.cause⟩

/-- The same place with another account of the cause. -/
def mapCause (f : κ → ι) (error : Located κ) : Located ι :=
  ⟨error.path, f error.cause⟩

/-- The text shown for an error whose cause has the given text. -/
def message (text : κ → String) (error : Located κ) : String :=
  if error.path.isEmpty then text error.cause
  else error.path.render ++ ": " ++ text error.cause

end Located

end BeaconSsz
