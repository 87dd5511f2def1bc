import BeaconSsz.Fork
import Mathlib.Data.List.Nodup

/-!
# The order of forks

Forks stand in line. The parent of a fork is the one right in front of it, so that what is kept
from parents to their forks holds from a fork on.
-/

namespace BeaconSsz.Fork

variable {fork parent earlier later : Fork} {before after : List Fork}

/-- The forks up to a fork are those up to its parent, and then the fork itself. -/
theorem filter_le (fork : Fork) : all.filter (· ≤ fork) =
    (fork.parent?.elim [] fun parent => all.filter (· ≤ parent)) ++ [fork] := by
  cases fork <;> rfl

/-- The forks in front of a fork. -/
theorem eq_takeWhile (h : all = before ++ fork :: after) :
    before = all.takeWhile (· ≠ fork) := by
  have hnodup : (before ++ fork :: after).Nodup := h ▸ by decide
  have hnew : fork ∉ before := fun hmem =>
    List.disjoint_of_nodup_append hnodup hmem List.mem_cons_self
  rw [h, List.takeWhile_append_of_pos fun other hother => by
    simpa using ne_of_mem_of_not_mem hother hnew, List.takeWhile_cons_of_neg (by simp),
    List.append_nil]

/-- The parent is the last fork in front of a fork. -/
theorem parent?_eq (h : all = before ++ fork :: after) : fork.parent? = before.getLast? := by
  rw [eq_takeWhile h]
  cases fork <;> rfl

/-- The forks up to a fork are those in front of it and the fork itself. -/
theorem filter_le_eq (h : all = before ++ fork :: after) :
    all.filter (· ≤ fork) = before ++ [fork] := by
  rw [eq_takeWhile h]
  cases fork <;> rfl

/-- The forks in front of a fork are those that are older. -/
theorem mem_before_iff (h : all = before ++ fork :: after) {other : Fork} :
    other ∈ before ↔ other.position < fork.position := by
  rw [eq_takeWhile h]
  cases fork <;> cases other <;> decide

/-- Every fork is listed. -/
theorem mem_all (fork : Fork) : fork ∈ all := by
  cases fork <;> decide

/-- A fork is in front of another one, or that one, or behind it. -/
theorem le_or_mem_after (h : all = before ++ fork :: after) (other : Fork) :
    other ≤ fork ∨ other ∈ after := by
  have hmem := h ▸ mem_all other
  rcases List.mem_append.mp hmem with hbefore | hrest
  · exact .inl (Nat.le_of_lt ((mem_before_iff h).mp hbefore))
  · rcases List.mem_cons.mp hrest with rfl | hafter
    · exact .inl (Nat.le_refl _)
    · exact .inr hafter

/-- A parent is one step older. -/
theorem position_parent (h : fork.parent? = some parent) : parent.position + 1 = fork.position := by
  cases fork <;> cases h <;> rfl

/-- A fork that is younger than another one has a parent. -/
theorem exists_parent (h : earlier.position < later.position) :
    ∃ parent, later.parent? = some parent := by
  cases later with
  | phase0 => exact absurd h (Nat.not_lt_zero _)
  | _ => exact ⟨_, rfl⟩

/-- Forks that are not younger than each other are one fork. -/
theorem le_antisymm (h : earlier ≤ later) (h' : later ≤ earlier) : earlier = later := by
  have hposition : earlier.position = later.position := Nat.le_antisymm h h'
  revert hposition
  cases earlier <;> cases later <;> decide

/-- What is not younger than a fork is that fork or not younger than its parent. -/
theorem le_parent_or_eq (h : fork.parent? = some parent) (hle : earlier ≤ fork) :
    earlier ≤ parent ∨ earlier = fork := by
  rcases Nat.lt_or_ge parent.position earlier.position with hlt | hge
  · exact .inr (le_antisymm hle (position_parent h ▸ hlt : fork.position ≤ earlier.position))
  · exact .inl hge

/-- What holds at a fork, and at every later fork if it holds at its parent, holds from that fork
on. -/
theorem le_induction {P : Fork → Prop} (hbase : P earlier)
    (hstep : ∀ fork parent, fork.parent? = some parent → earlier ≤ parent → P parent → P fork)
    (later : Fork) (hle : earlier ≤ later) : P later := by
  by_cases hlt : earlier.position < later.position
  · obtain ⟨parent, hparent⟩ := exists_parent hlt
    have hposition := position_parent hparent
    have hle : earlier.position ≤ parent.position := by omega
    exact hstep later parent hparent hle (le_induction hbase hstep parent hle)
  · exact le_antisymm hle (Nat.le_of_not_lt hlt) ▸ hbase
termination_by later.position

end BeaconSsz.Fork
