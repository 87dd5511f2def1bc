import BeaconSsz.Schedule
import BeaconSsz.Trap
import BeaconSsz.Yaml.Document
import BeaconSsz.Yaml.Number

/-!
# Reading chain configurations

A chain configuration is a YAML mapping. It gives the first epochs of forks under their keys, each
at most once, and may say much else. A fork that it does not mention has no date.
-/

namespace BeaconSsz

open Yaml (Node Entry AnchoredNodes)

/-- The first epochs that have been read. -/
structure ScheduleDraft where
  schedule : ForkSchedule
  /-- The forks whose epochs have been read. -/
  dated : List Fork

namespace ScheduleDraft

/-- No epochs have been read. -/
def empty : ScheduleDraft := ⟨.unscheduled, []⟩

/-- Adds what an entry of a document says, given the nodes of the document that have an anchor. -/
def addEntry (anchored : AnchoredNodes) (draft : ScheduleDraft) :
    Entry → Except ScheduleError ScheduleDraft
  | .mk keyNode value =>
    match (anchored.resolve? keyNode).bind Node.text? with
    | none => .error .unreadable
    | some text =>
      match ForkSchedule.scheduledForks.find? (ForkSchedule.key · == text) with
      | none => .ok draft
      | some fork =>
        match (anchored.resolve? value).bind (·.natural? wordLimit) with
        | none => .error .unreadable
        | some epoch =>
          if draft.dated.contains fork then .error .unreadable
          else
            .ok ⟨draft.schedule.withEpoch (UInt64.ofNat epoch) fork, fork :: draft.dated⟩

end ScheduleDraft

namespace ForkSchedule

/-- The schedule that a document gives, in whatever order its forks start. -/
def ofDocument (document : Node) : Except ScheduleError ForkSchedule :=
  match document.entries? with
  | none => .error .unreadable
  | some entries => do
    let draft ← entries.foldlM (ScheduleDraft.addEntry (.ofDocument document)) .empty
    return draft.schedule

/-- The schedule that a chain configuration gives, in whatever order its forks start. -/
def ofText (text : String) : Except ScheduleError ForkSchedule :=
  match Node.ofText? text with
  | none => .error .unreadable
  | some document => ofDocument document

/-- The schedule that a chain configuration gives, in which forks must start in order. -/
def read (text : String) : Except ScheduleError ForkSchedule := do
  let schedule ← ofText text
  schedule.validate
  return schedule

end ForkSchedule

end BeaconSsz
