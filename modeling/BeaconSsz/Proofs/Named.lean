import Mathlib.Data.List.Nodup

/-!
# Lists searched by name

Fields, definitions and the members of an object are found by their names. If the names are
distinct, the first one found is the only one, and the order does not matter.
-/

namespace BeaconSsz

variable {α : Type} {nameOf : α → String} {xs : List α} {name : String} {x : α}

/-- Something of a name is found exactly when the name occurs. -/
theorem exists_find?_name :
    (∃ x, xs.find? (nameOf · == name) = some x) ↔ name ∈ xs.map nameOf := by
  rw [← Option.isSome_iff_exists, List.find?_isSome, List.mem_map]
  simp only [beq_iff_eq]

/-- What is found under a name has that name. -/
theorem name_of_find? (h : xs.find? (nameOf · == name) = some x) : nameOf x = name := by
  simpa using List.find?_some h

/-- If the names are distinct, everything is found under its name. -/
theorem find?_name_eq_some (hdistinct : (xs.map nameOf).Nodup) :
    xs.find? (nameOf · == name) = some x ↔ x ∈ xs ∧ nameOf x = name := by
  constructor
  · intro h
    exact ⟨List.mem_of_find?_eq_some h, name_of_find? h⟩
  · rintro ⟨hx, rfl⟩
    obtain ⟨found, hfound⟩ := exists_find?_name.mpr (List.mem_map_of_mem hx)
    rw [hfound, List.inj_on_of_nodup_map hdistinct (List.mem_of_find?_eq_some hfound) hx
      (name_of_find? hfound)]

/-- Putting something in the place of its name changes what is found under that name only. -/
theorem find?_name_map_replace :
    (xs.map fun y => if nameOf y == nameOf x then x else y).find? (nameOf · == name) =
      if name = nameOf x then (xs.find? (nameOf · == name)).map fun _ => x
      else xs.find? (nameOf · == name) := by
  induction xs with
  | nil => simp
  | cons y xs ih =>
    rw [List.map_cons, List.find?_cons, List.find?_cons, ih]
    rcases eq_or_ne name (nameOf x) with rfl | hname
    · cases hy : nameOf y == nameOf x <;> simp [hy]
    · have hx : (nameOf x == name) = false := by simpa using hname.symm
      cases hy : nameOf y == nameOf x with
      | false => simp [hname]
      | true => simp [hx, beq_iff_eq.mp hy, hname]

end BeaconSsz
