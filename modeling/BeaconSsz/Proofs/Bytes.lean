import BeaconSsz.Bytes
import Mathlib.Algebra.Order.Group.Nat
import Mathlib.Tactic.Ring

/-!
# Pieces and little-endian numbers

Cutting a string into pieces loses nothing, and pieces of full length that are put together are
cut at the same places again. A number that fits a width and the bytes of that width stand for
each other.
-/

namespace BeaconSsz.Bytes

variable {α : Type}

/-- Pieces are cut behind those already cut. -/
theorem cutPieces_eq_append (size count : Nat) (pieces : List (List α)) (xs : List α) :
    cutPieces size count pieces xs = pieces.reverse ++ cutPieces size count [] xs := by
  induction count generalizing pieces xs with
  | zero => simp [cutPieces]
  | succ count ih =>
    rw [cutPieces, ih, cutPieces, ih [xs.take size]]
    simp

/-- No elements take no pieces. -/
@[simp] theorem pieceCount_zero (size : Nat) : pieceCount 0 size = 0 := by
  unfold pieceCount
  cases size with
  | zero => simp
  | succ size => exact Nat.div_eq_of_lt (by omega)

/-- The first piece of a nonempty string takes one off the count. -/
theorem pieceCount_eq_succ {count size : Nat} (hsize : 0 < size) (hcount : 0 < count) :
    pieceCount count size = pieceCount (count - size) size + 1 := by
  unfold pieceCount
  by_cases h : size ≤ count
  · rw [← Nat.add_div_right _ hsize]
    congr 1
    omega
  · rw [show count - size + (size - 1) = size - 1 by omega,
      Nat.div_eq_of_lt (by omega : size - 1 < size),
      show count + (size - 1) = count - 1 + size by omega, Nat.add_div_right _ hsize,
      Nat.div_eq_of_lt (by omega : count - 1 < size)]

/-- An empty string has no pieces. -/
@[simp] theorem pieces_nil (size : Nat) : pieces size ([] : List α) = [] := by
  simp [pieces, cutPieces]

/-- A nonempty string is cut into its first piece and the pieces of the rest. -/
theorem pieces_of_ne_nil {size : Nat} (hsize : 0 < size) {xs : List α} (hxs : xs ≠ []) :
    pieces size xs = xs.take size :: pieces size (xs.drop size) := by
  have hlength : 0 < xs.length := List.length_pos_iff.mpr hxs
  rw [pieces, pieceCount_eq_succ hsize hlength, cutPieces, cutPieces_eq_append, pieces,
    List.length_drop]
  simp

/-- What holds of the empty string, and of every string that holds it behind its first piece,
holds of all strings. -/
theorem pieces_induction {motive : List α → Prop} {size : Nat} (hsize : 0 < size)
    (nil : motive []) (cut : ∀ xs, xs ≠ [] → motive (xs.drop size) → motive xs)
    (xs : List α) : motive xs := by
  induction h : xs.length using Nat.strong_induction_on generalizing xs with
  | _ length ih =>
    by_cases hxs : xs = []
    · exact hxs ▸ nil
    · have hlength : 0 < xs.length := List.length_pos_iff.mpr hxs
      exact cut xs hxs (ih (xs.drop size).length (by rw [List.length_drop]; omega) _ rfl)

/-- The pieces of a string make up the string. -/
theorem flatten_pieces {size : Nat} (hsize : 0 < size) (xs : List α) :
    (pieces size xs).flatten = xs := by
  induction xs using pieces_induction hsize with
  | nil => simp
  | cut xs hxs ih => rw [pieces_of_ne_nil hsize hxs, List.flatten_cons, ih, List.take_append_drop]

/-- The number of pieces follows from the length. -/
theorem length_pieces {size : Nat} (hsize : 0 < size) (xs : List α) :
    (pieces size xs).length = pieceCount xs.length size := by
  induction xs using pieces_induction hsize with
  | nil => simp
  | cut xs hxs ih =>
    rw [pieces_of_ne_nil hsize hxs, List.length_cons, ih, List.length_drop,
      ← pieceCount_eq_succ hsize (List.length_pos_iff.mpr hxs)]

/-- Full pieces put together are cut apart again. -/
theorem pieces_flatten {size : Nat} (hsize : 0 < size) {items : List (List α)}
    (hitems : ∀ item ∈ items, item.length = size) : pieces size items.flatten = items := by
  induction items with
  | nil => simp
  | cons item items ih =>
    rw [List.forall_mem_cons] at hitems
    have nonempty : (item :: items).flatten ≠ [] := by
      intro h
      have := congrArg List.length h
      simp [hitems.1] at this
      omega
    rw [pieces_of_ne_nil hsize nonempty, List.flatten_cons, List.take_left' hitems.1,
      List.drop_left' hitems.1, ih hitems.2]

/-- The pieces of a string whose length is a multiple of theirs are all full. -/
theorem length_of_mem_pieces {size : Nat} (hsize : 0 < size) {xs : List α}
    (hxs : size ∣ xs.length) : ∀ piece ∈ pieces size xs, piece.length = size := by
  induction xs using pieces_induction hsize with
  | nil => simp
  | cut xs nonempty ih =>
    have hlength : size ≤ xs.length := Nat.le_of_dvd (List.length_pos_iff.mpr nonempty) hxs
    rw [pieces_of_ne_nil hsize nonempty, List.forall_mem_cons]
    refine ⟨by rw [List.length_take]; omega, ih ?_⟩
    rw [List.length_drop]
    exact Nat.dvd_sub hxs dvd_rfl

/-- Full pieces together are as long as their number says. -/
theorem length_flatten_of_full {size : Nat} {items : List (List α)}
    (hitems : ∀ item ∈ items, item.length = size) :
    items.flatten.length = items.length * size := by
  induction items with
  | nil => simp
  | cons item items ih =>
    rw [List.forall_mem_cons] at hitems
    rw [List.flatten_cons, List.length_append, ih hitems.2, hitems.1, List.length_cons]
    ring

/-- A string of full length is cut into given pieces exactly when these are full and make it up. -/
theorem pieces_eq_iff {size : Nat} (hsize : 0 < size) {xs : List α} {items : List (List α)} :
    size ∣ xs.length ∧ pieces size xs = items ↔
      (∀ item ∈ items, item.length = size) ∧ items.flatten = xs := by
  apply Iff.intro
  · intro h
    obtain ⟨hxs, rfl⟩ := h
    exact ⟨length_of_mem_pieces hsize hxs, flatten_pieces hsize xs⟩
  · intro h
    obtain ⟨hitems, rfl⟩ := h
    rw [length_flatten_of_full hitems]
    exact ⟨Dvd.intro_left _ rfl, pieces_flatten hsize hitems⟩

/-- A number takes exactly the bytes of its width. -/
@[simp] theorem length_littleEndian (width n : Nat) : (littleEndian width n).length = width := by
  induction width generalizing n with
  | zero => rfl
  | succ width ih => simp [littleEndian, ih]

/-- Reading back the bytes of a number gives what of it fits the width. -/
theorem toNatLittleEndian_littleEndian (width n : Nat) :
    toNatLittleEndian (littleEndian width n) = n % 256 ^ width := by
  induction width generalizing n with
  | zero => simp [littleEndian, toNatLittleEndian, Nat.mod_one]
  | succ width ih =>
    rw [littleEndian, toNatLittleEndian, ih, pow_succ', Nat.mod_mul]
    simp

/-- Writing the number of some bytes gives the bytes. -/
theorem littleEndian_toNatLittleEndian (bytes : Bytes) :
    littleEndian bytes.length (toNatLittleEndian bytes) = bytes := by
  induction bytes with
  | nil => rfl
  | cons byte bytes ih =>
    have hbyte := byte.toNat_lt
    rw [List.length_cons, littleEndian, toNatLittleEndian,
      show (byte.toNat + 256 * toNatLittleEndian bytes) % 256 = byte.toNat by omega,
      show (byte.toNat + 256 * toNatLittleEndian bytes) / 256 = toNatLittleEndian bytes by omega,
      ih, UInt8.ofNat_toNat]

/-- The number of some bytes fits their width. -/
theorem toNatLittleEndian_lt (bytes : Bytes) :
    toNatLittleEndian bytes < 256 ^ bytes.length := by
  induction bytes with
  | nil => simp [toNatLittleEndian]
  | cons byte bytes ih =>
    have hbyte := byte.toNat_lt
    rw [toNatLittleEndian, List.length_cons, pow_succ']
    omega

/-- Bytes write a number that fits exactly when they have its width and read as the number. -/
theorem littleEndian_eq_iff {width n : Nat} {bytes : Bytes} (hn : n < 256 ^ width) :
    littleEndian width n = bytes ↔ bytes.length = width ∧ toNatLittleEndian bytes = n := by
  apply Iff.intro
  · intro heq
    obtain rfl := heq
    rw [length_littleEndian, toNatLittleEndian_littleEndian, Nat.mod_eq_of_lt hn]
    exact ⟨rfl, rfl⟩
  · intro h
    obtain ⟨rfl, rfl⟩ := h
    exact littleEndian_toNatLittleEndian bytes

end BeaconSsz.Bytes
