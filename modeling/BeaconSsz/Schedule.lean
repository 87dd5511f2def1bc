import BeaconSsz.Fork
import BeaconSsz.Preset

/-!
# Fork schedules

A schedule says at which epoch each fork after the first one starts. Forks start in order, and
several may start at one epoch. A fork without a date is put into the far future.
-/

namespace BeaconSsz

/-- The epoch at which the chain starts. -/
def genesisEpoch : UInt64 := 0

/-- The epoch of what has no date. -/
def farFutureEpoch : UInt64 := 18446744073709551615

/-- The first epoch of each fork after the first one. -/
structure ForkSchedule where
  altair : UInt64
  bellatrix : UInt64
  capella : UInt64
  deneb : UInt64
  electra : UInt64
  deriving DecidableEq

/-- Why there is no schedule. -/
inductive ScheduleError where
  /-- The text is not a chain configuration. -/
  | unreadable
  /-- A fork would start before its parent. -/
  | outOfOrder (earlier : Fork) (earlierEpoch : UInt64) (later : Fork) (laterEpoch : UInt64)
  deriving DecidableEq

/-- The text shown for an error. -/
def ScheduleError.message : ScheduleError → String
  | unreadable => "failed to parse chain config"
  | outOfOrder earlier earlierEpoch later laterEpoch =>
    later.name ++ s!" is scheduled at epoch {laterEpoch}, before " ++ earlier.name ++
      s!" at epoch {earlierEpoch}"

namespace ForkSchedule

/-- No fork after the first one has a date. -/
def unscheduled : ForkSchedule :=
  ⟨farFutureEpoch, farFutureEpoch, farFutureEpoch, farFutureEpoch, farFutureEpoch⟩

/-- The schedule of the main network. -/
def mainnet : ForkSchedule := ⟨74240, 144896, 194048, 269568, 364032⟩

/-- Every fork starts with the chain. -/
def allAtGenesis : ForkSchedule :=
  ⟨genesisEpoch, genesisEpoch, genesisEpoch, genesisEpoch, genesisEpoch⟩

/-- The first epoch of a fork. -/
def forkEpoch (schedule : ForkSchedule) : Fork → UInt64
  | .phase0 => genesisEpoch
  | .altair => schedule.altair
  | .bellatrix => schedule.bellatrix
  | .capella => schedule.capella
  | .deneb => schedule.deneb
  | .electra => schedule.electra

/-- The schedule with another first epoch of a fork. The first fork has no date to change. -/
def withEpoch (schedule : ForkSchedule) (epoch : UInt64) : Fork → ForkSchedule
  | .phase0 => schedule
  | .altair => { schedule with altair := epoch }
  | .bellatrix => { schedule with bellatrix := epoch }
  | .capella => { schedule with capella := epoch }
  | .deneb => { schedule with deneb := epoch }
  | .electra => { schedule with electra := epoch }

/-- The forks that have a date. -/
def scheduledForks : List Fork := Fork.all.tail

/-- The key of a fork in a chain configuration. -/
def key : Fork → String
  | .phase0 => "PHASE0_FORK_EPOCH"
  | .altair => "ALTAIR_FORK_EPOCH"
  | .bellatrix => "BELLATRIX_FORK_EPOCH"
  | .capella => "CAPELLA_FORK_EPOCH"
  | .deneb => "DENEB_FORK_EPOCH"
  | .electra => "ELECTRA_FORK_EPOCH"

/-- Requires that no fork starts before the one in front of it. -/
def checkOrder (schedule : ForkSchedule) : List Fork → Except ScheduleError Unit
  | earlier :: later :: rest =>
    if schedule.forkEpoch later < schedule.forkEpoch earlier then
      .error (.outOfOrder earlier (schedule.forkEpoch earlier) later (schedule.forkEpoch later))
    else checkOrder schedule (later :: rest)
  | _ => .ok ()

/-- Requires that no fork starts before its parent. -/
def validate (schedule : ForkSchedule) : Except ScheduleError Unit :=
  schedule.checkOrder Fork.all

/-- The fork that an epoch belongs to: the last one that starts no later. -/
def forkAtEpoch (schedule : ForkSchedule) (epoch : UInt64) : Fork :=
  (Fork.all.reverse.find? fun fork => schedule.forkEpoch fork ≤ epoch).getD .phase0

/-- The fork that a slot belongs to. -/
def forkAtSlot (schedule : ForkSchedule) (preset : Preset) (slot : UInt64) : Fork :=
  schedule.forkAtEpoch (slot / UInt64.ofNat preset.parameters.slotsPerEpoch)

end ForkSchedule

end BeaconSsz
