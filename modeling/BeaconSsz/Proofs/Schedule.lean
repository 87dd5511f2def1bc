import BeaconSsz.Schedule.Reader
import BeaconSsz.Proofs.Fork
import BeaconSsz.Proofs.Result

/-!
# Which fork an epoch or a slot belongs to

Validation goes along the line of forks and stops at the first one that starts before its parent.
On a schedule that passes, the forks that have started by an epoch are those up to one of them, so
that looking for the last one that has started finds all of them. A slot is compared by the epoch
that it lies in, which is the same as comparing it with the first slot of a fork, also where the
number of that slot would not be a word.
-/

namespace BeaconSsz

/-- An epoch has more than one slot, and the number of them is a word. -/
theorem Preset.slotsPerEpoch_bounds (preset : Preset) :
    1 < preset.parameters.slotsPerEpoch ∧ preset.parameters.slotsPerEpoch < wordLimit := by
  cases preset <;> decide

namespace ForkSchedule

/-- The line of forks starts with the chain, and no fork starts before its parent. -/
structure InOrder (schedule : ForkSchedule) : Prop where
  genesis : schedule.forkEpoch .phase0 = 0
  parent_le {fork parent : Fork} (hparent : fork.parent? = some parent) :
    schedule.forkEpoch parent ≤ schedule.forkEpoch fork

/-- The fork `later` starts before its parent `earlier`, and no older fork starts before its own
parent. -/
structure FirstOutOfOrder (schedule : ForkSchedule) (earlier later : Fork) : Prop where
  parent : later.parent? = some earlier
  lt : schedule.forkEpoch later < schedule.forkEpoch earlier
  parent_le {fork parent : Fork} (hparent : fork.parent? = some parent)
    (holder : fork.position < later.position) : schedule.forkEpoch parent ≤ schedule.forkEpoch fork

/-- The number of the first slot of a fork, which need not be a word. -/
def firstSlot (schedule : ForkSchedule) (preset : Preset) (fork : Fork) : Nat :=
  (schedule.forkEpoch fork).toNat * preset.parameters.slotsPerEpoch

/-- Every epoch and every slot belongs to the last of the forks that have started by then. -/
structure SelectsStarted (schedule : ForkSchedule) : Prop where
  le_forkAtEpoch_iff (fork : Fork) (epoch : UInt64) :
    fork ≤ schedule.forkAtEpoch epoch ↔ schedule.forkEpoch fork ≤ epoch
  le_forkAtSlot_iff (preset : Preset) (fork : Fork) (slot : UInt64) :
    fork ≤ schedule.forkAtSlot preset slot ↔ schedule.firstSlot preset fork ≤ slot.toNat
  forkAtEpoch_mono {epoch later : UInt64} (hle : epoch ≤ later) :
    schedule.forkAtEpoch epoch ≤ schedule.forkAtEpoch later
  forkAtSlot_mono (preset : Preset) {slot later : UInt64} (hle : slot ≤ later) :
    schedule.forkAtSlot preset slot ≤ schedule.forkAtSlot preset later
  active_from_firstSlot (preset : Preset) {fork : Fork} {slot : UInt64}
    (hslot : slot.toNat = schedule.firstSlot preset fork) :
    fork ≤ schedule.forkAtSlot preset slot ∧
      ∀ earlier < slot, ¬ fork ≤ schedule.forkAtSlot preset earlier
  farFuture_not_selected (preset : Preset) {fork : Fork}
    (hfar : schedule.forkEpoch fork = farFutureEpoch) (slot : UInt64) :
    schedule.forkAtSlot preset slot ≠ fork

variable {schedule : ForkSchedule}

/-- A schedule in order has no fork that starts before its parent. -/
theorem InOrder.not_firstOutOfOrder (h : schedule.InOrder) {earlier later : Fork} :
    ¬ schedule.FirstOutOfOrder earlier later :=
  fun hfirst => UInt64.not_lt.mpr (h.parent_le hfirst.parent) hfirst.lt

/-- Only one fork is the first to start before its parent. -/
theorem FirstOutOfOrder.unique {earlier later earlier' later' : Fork}
    (h : schedule.FirstOutOfOrder earlier later) (h' : schedule.FirstOutOfOrder earlier' later') :
    earlier = earlier' ∧ later = later' := by
  obtain rfl : later = later' := by
    apply Fork.le_antisymm
    · exact Nat.le_of_not_lt fun hlt =>
        UInt64.not_lt.mpr (h.parent_le h'.parent hlt) h'.lt
    · exact Nat.le_of_not_lt fun hlt =>
        UInt64.not_lt.mpr (h'.parent_le h.parent hlt) h.lt
  exact ⟨Option.some.inj (h.parent.symm.trans h'.parent), rfl⟩

/-- From a fork on, if it and all older ones are in order, the rest of the line is found to be in
order, or else the first fork that is not is named. -/
theorem checkOrder_ends {before after : List Fork} {fork : Fork}
    (hall : Fork.all = before ++ fork :: after)
    (holder : ∀ older parent, older ≤ fork → older.parent? = some parent →
      schedule.forkEpoch parent ≤ schedule.forkEpoch older) :
    (schedule.checkOrder (fork :: after) = .ok () ∧ schedule.InOrder) ∨
      ∃ earlier later, schedule.FirstOutOfOrder earlier later ∧
        schedule.checkOrder (fork :: after) = .error (.outOfOrder earlier
          (schedule.forkEpoch earlier) later (schedule.forkEpoch later)) := by
  induction after generalizing before fork with
  | nil =>
    refine .inl ⟨rfl, rfl, fun {older parent} hparent => holder older parent ?_ hparent⟩
    exact (Fork.le_or_mem_after hall older).resolve_right List.not_mem_nil
  | cons later after ih =>
    have hline : Fork.all = (before ++ [fork]) ++ later :: after := by simpa using hall
    have hparent : later.parent? = some fork := by
      rw [Fork.parent?_eq hline, List.getLast?_concat]
    rw [checkOrder]
    split
    · next hlt =>
      refine .inr ⟨fork, later, ⟨hparent, hlt, fun {older parent} hparent' holder' => ?_⟩, rfl⟩
      have hposition := Fork.position_parent hparent
      exact holder older parent (Nat.le_of_lt_succ (by omega)) hparent'
    · next hle =>
      refine ih hline fun older parent hle' hparent' => ?_
      rcases Fork.le_parent_or_eq hparent hle' with hlefork | rfl
      · exact holder older parent hlefork hparent'
      · cases hparent.symm.trans hparent'
        exact UInt64.not_lt.mp hle

/-- Validation passes a schedule in order, and names the first fork out of order of any other. -/
theorem validate_ends (schedule : ForkSchedule) :
    (schedule.validate = .ok () ∧ schedule.InOrder) ∨
      ∃ earlier later, schedule.FirstOutOfOrder earlier later ∧
        schedule.validate = .error (.outOfOrder earlier (schedule.forkEpoch earlier) later
          (schedule.forkEpoch later)) := by
  have hall : Fork.all = [] ++ .phase0 :: scheduledForks := rfl
  refine checkOrder_ends hall fun older parent hle hparent => ?_
  have hposition := Fork.position_parent hparent
  have hfirst : older.position ≤ 0 := hle
  omega

/-- Validation passes exactly the schedules in order. -/
theorem validate_eq_ok : schedule.validate = .ok () ↔ schedule.InOrder := by
  rcases schedule.validate_ends with ⟨hok, horder⟩ | ⟨earlier, later, hfirst, herror⟩
  · exact iff_of_true hok horder
  · rw [herror]
    exact iff_of_false nofun fun horder => horder.not_firstOutOfOrder hfirst

/-- Validation refuses a schedule exactly for its first fork out of order. -/
theorem validate_eq_error {error : ScheduleError} :
    schedule.validate = .error error ↔
      ∃ earlier later, schedule.FirstOutOfOrder earlier later ∧
        error = .outOfOrder earlier (schedule.forkEpoch earlier) later
          (schedule.forkEpoch later) := by
  rcases schedule.validate_ends with ⟨hok, horder⟩ | ⟨earlier, later, hfirst, herror⟩
  · rw [hok]
    refine iff_of_false nofun fun h => ?_
    obtain ⟨earlier, later, hfirst, -⟩ := h
    exact horder.not_firstOutOfOrder hfirst
  · rw [herror, Except.error.injEq]
    apply Iff.intro
    · intro h
      exact ⟨earlier, later, hfirst, h.symm⟩
    · intro h
      obtain ⟨earlier', later', hfirst', rfl⟩ := h
      obtain ⟨rfl, rfl⟩ := hfirst.unique hfirst'
      rfl

/-- A chain configuration is read as the schedule that it gives, if that one passes. -/
theorem read_eq_ok {text : String} :
    read text = .ok schedule ↔ ofText text = .ok schedule ∧ schedule.validate = .ok () := by
  rw [read, bind_eq_ok]
  apply Iff.intro
  · rintro ⟨given, hgiven, h⟩
    obtain ⟨hvalid, h⟩ := check_bind_eq_ok.mp h
    obtain rfl := pure_eq_ok.mp h
    exact ⟨hgiven, hvalid⟩
  · rintro ⟨hgiven, hvalid⟩
    exact ⟨schedule, hgiven, check_bind_eq_ok.mpr ⟨hvalid, rfl⟩⟩

/-- A chain configuration is refused because it gives no schedule, or because the one that it gives
does not pass. -/
theorem read_eq_error {text : String} {error : ScheduleError} :
    read text = .error error ↔ ofText text = .error error ∨
      ∃ given, ofText text = .ok given ∧ given.validate = .error error := by
  have hvalid (given : ForkSchedule) : (do given.validate; return given) = .error error ↔
      given.validate = .error error := by
    simp [bind_eq_error, pure, Except.pure]
  rw [read, bind_eq_error]
  simp only [hvalid]

/-- In a schedule in order, younger forks do not start before older ones. -/
theorem InOrder.forkEpoch_mono (horder : schedule.InOrder) {earlier later : Fork}
    (hle : earlier ≤ later) : schedule.forkEpoch earlier ≤ schedule.forkEpoch later :=
  Fork.le_induction UInt64.le_rfl
    (fun _ _ hparent _ hstarted => UInt64.le_trans hstarted (horder.parent_le hparent)) later hle

/-- The fork of an epoch has started by then, and no fork behind it has. -/
theorem exists_forkAtEpoch (schedule : ForkSchedule) (epoch : UInt64) :
    schedule.forkEpoch (schedule.forkAtEpoch epoch) ≤ epoch ∧
      ∃ before after, Fork.all = before ++ schedule.forkAtEpoch epoch :: after ∧
        ∀ fork ∈ after, ¬ schedule.forkEpoch fork ≤ epoch := by
  unfold forkAtEpoch
  cases hfind : Fork.all.reverse.find? fun fork => schedule.forkEpoch fork ≤ epoch with
  | none =>
    have hfirst := List.find?_eq_none.mp hfind .phase0 (by decide)
    exact absurd (decide_eq_true (UInt64.zero_le : (0 : UInt64) ≤ epoch)) hfirst
  | some fork =>
    obtain ⟨hstarted, after, before, hall, hafter⟩ := List.find?_eq_some_iff_append.mp hfind
    refine ⟨of_decide_eq_true hstarted, before.reverse, after.reverse, ?_, fun other hother => ?_⟩
    · rw [← List.reverse_reverse Fork.all, hall]
      simp
    · simpa using hafter other (List.mem_reverse.mp hother)

/-- A fork has started by an epoch exactly if it is not behind the fork of the epoch. -/
theorem InOrder.le_forkAtEpoch_iff (horder : schedule.InOrder) (fork : Fork) (epoch : UInt64) :
    fork ≤ schedule.forkAtEpoch epoch ↔ schedule.forkEpoch fork ≤ epoch := by
  obtain ⟨hstarted, before, after, hall, hafter⟩ := schedule.exists_forkAtEpoch epoch
  apply Iff.intro
  · intro hle
    exact UInt64.le_trans (horder.forkEpoch_mono hle) hstarted
  · intro hepoch
    exact (Fork.le_or_mem_after hall fork).resolve_right fun hmem => hafter fork hmem hepoch

/-- A fork has started by a slot exactly if its first slot is not behind it. -/
theorem InOrder.le_forkAtSlot_iff (horder : schedule.InOrder) (preset : Preset) (fork : Fork)
    (slot : UInt64) :
    fork ≤ schedule.forkAtSlot preset slot ↔ schedule.firstSlot preset fork ≤ slot.toNat := by
  obtain ⟨hmany, hword⟩ := preset.slotsPerEpoch_bounds
  rw [forkAtSlot, horder.le_forkAtEpoch_iff, UInt64.le_iff_toNat_le, UInt64.toNat_div,
    UInt64.toNat_ofNat_of_lt' hword, Nat.le_div_iff_mul_le (by omega), firstSlot]

/-- On a schedule in order, the last of the forks that have started is selected. -/
theorem InOrder.selectsStarted (horder : schedule.InOrder) : schedule.SelectsStarted where
  le_forkAtEpoch_iff := horder.le_forkAtEpoch_iff
  le_forkAtSlot_iff := horder.le_forkAtSlot_iff
  forkAtEpoch_mono {epoch later} hle := by
    have hstarted := (horder.le_forkAtEpoch_iff _ epoch).mp (Nat.le_refl _)
    exact (horder.le_forkAtEpoch_iff _ later).mpr (UInt64.le_trans hstarted hle)
  forkAtSlot_mono preset {slot later} hle := by
    have hstarted := (horder.le_forkAtSlot_iff preset _ slot).mp (Nat.le_refl _)
    exact (horder.le_forkAtSlot_iff preset _ later).mpr
      (Nat.le_trans hstarted (UInt64.le_iff_toNat_le.mp hle))
  active_from_firstSlot preset {fork slot} hslot := by
    refine ⟨(horder.le_forkAtSlot_iff preset fork slot).mpr (Nat.le_of_eq hslot.symm),
      fun earlier hlt hle => ?_⟩
    have hstarted := (horder.le_forkAtSlot_iff preset fork earlier).mp hle
    have hlt := UInt64.lt_iff_toNat_lt.mp hlt
    omega
  farFuture_not_selected preset {fork} hfar slot := by
    rintro rfl
    have hstarted := (horder.le_forkAtSlot_iff preset _ slot).mp (Nat.le_refl _)
    have hmany := preset.slotsPerEpoch_bounds.1
    have hword := slot.toNat_lt
    have hfirst : farFutureEpoch.toNat * preset.parameters.slotsPerEpoch ≤ slot.toNat := by
      rwa [firstSlot, hfar] at hstarted
    have hdouble := Nat.mul_le_mul_left farFutureEpoch.toNat hmany
    have hlast : farFutureEpoch.toNat = 18446744073709551615 := rfl
    omega

/-- Fork selection is exact. Validation passes the schedules in order, and names the first fork
out of order of every other. A chain configuration is read as the schedule that it gives exactly if
that one passes, and is refused for what validation refuses it for, or because it gives none. On a
schedule that passes, every epoch and every slot belongs to the last of the forks that have started
by then. -/
theorem forks_selected_exactly (schedule : ForkSchedule) :
    (schedule.validate = .ok () ↔ schedule.InOrder) ∧
      (∀ error, schedule.validate = .error error ↔
        ∃ earlier later, schedule.FirstOutOfOrder earlier later ∧
          error = .outOfOrder earlier (schedule.forkEpoch earlier) later
            (schedule.forkEpoch later)) ∧
      (∀ text, read text = .ok schedule ↔
        ofText text = .ok schedule ∧ schedule.validate = .ok ()) ∧
      (∀ text error, read text = .error error ↔ ofText text = .error error ∨
        ∃ given, ofText text = .ok given ∧ given.validate = .error error) ∧
      (schedule.validate = .ok () → schedule.SelectsStarted) :=
  ⟨validate_eq_ok, fun _ => validate_eq_error, fun _ => read_eq_ok, fun _ _ => read_eq_error,
    fun hvalid => (validate_eq_ok.mp hvalid).selectsStarted⟩

/-- Two forks start at one epoch, and the last two have no date. -/
def tieExample : ForkSchedule :=
  ⟨10, 10, 20, farFutureEpoch, farFutureEpoch⟩

/-- The example is in order, and its forks are selected from their first slots on. -/
theorem forks_selected_tieExample :
    tieExample.validate = .ok () ∧ tieExample.InOrder ∧ tieExample.SelectsStarted := by
  have hvalid : tieExample.validate = .ok () := by decide
  obtain ⟨hiff, -, -, -, hselects⟩ := forks_selected_exactly tieExample
  exact ⟨hvalid, hiff.mp hvalid, hselects hvalid⟩

example : tieExample.forkAtSlot .minimal 79 = .phase0 ∧
    tieExample.forkAtSlot .minimal 80 = .bellatrix ∧
    tieExample.forkAtSlot .minimal 18446744073709551615 = .capella := by
  decide

end ForkSchedule

end BeaconSsz
