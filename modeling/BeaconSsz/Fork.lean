import BeaconSsz.Text.Quoted

/-!
# Forks

The protocol changes at forks, one after the other. Each fork starts from what its parent left.
-/

namespace BeaconSsz

/-- A stage of the protocol. -/
inductive Fork where
  | phase0
  | altair
  | bellatrix
  | capella
  | deneb
  | electra
  deriving DecidableEq

namespace Fork

/-- The name of a fork. -/
def name : Fork → String
  | phase0 => "phase0"
  | altair => "altair"
  | bellatrix => "bellatrix"
  | capella => "capella"
  | deneb => "deneb"
  | electra => "electra"

/-- Every fork, oldest first. -/
def all : List Fork := [phase0, altair, bellatrix, capella, deneb, electra]

/-- The fork that a fork starts from. -/
def parent? : Fork → Option Fork
  | phase0 => none
  | altair => some phase0
  | bellatrix => some altair
  | capella => some bellatrix
  | deneb => some capella
  | electra => some deneb

/-- How many forks are older. -/
def position : Fork → Nat
  | phase0 => 0
  | altair => 1
  | bellatrix => 2
  | capella => 3
  | deneb => 4
  | electra => 5

instance : LE Fork := ⟨fun fork other => fork.position ≤ other.position⟩

instance (fork other : Fork) : Decidable (fork ≤ other) :=
  inferInstanceAs (Decidable (fork.position ≤ other.position))

/-- A letter of the Latin alphabet in lower case, and any other character as it is. -/
def lowerAscii (c : Char) : Char :=
  if 'A' ≤ c ∧ c ≤ 'Z' then Char.ofNat (c.toNat + 32) else c

/-- Whether two texts are equal up to the case of the letters of the Latin alphabet. -/
def sameIgnoringCase (text other : String) : Bool :=
  text.toList.map lowerAscii == other.toList.map lowerAscii

/-- The fork of a name, in letters of either case. -/
def parse? (text : String) : Option Fork :=
  all.find? fun fork => sameIgnoringCase fork.name text

/-- The fork of a name, exactly as written. -/
def ofName? (text : String) : Option Fork :=
  all.find? fun fork => fork.name == text

/-- What is said of a text that names no fork. -/
def unknownMessage (text : String) : String :=
  "unknown fork " ++ Text.quoted text

end Fork

end BeaconSsz
