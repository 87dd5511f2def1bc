import BeaconSsz.Proofs.Wire.TrapFree
import Mathlib.Algebra.BigOperators.Group.List.Basic
import Mathlib.Algebra.Order.BigOperators.Group.List

/-!
# What the offsets divide

The offsets of a container are checked once, when its parts are registered. From then on they are
in order and end with the bytes, so that no part is missing when the parts are taken, and the
parts of variable size divide what lies behind the fixed part among themselves. So what can be
taken out are exactly the parts that can be joined to the bytes, and so it is with sequences.
-/

namespace BeaconSsz

/-- A slot that is counted as less than the largest word has this length: the count has not been
cut off. -/
theorem Shape.slotSize_eq_of_slotLength : {shape : Shape} → {length : Nat} →
    shape.slotLength = .ok length → length < wordLimit - 1 → shape.slotSize = length
  | .vector element count, length, h, hword => by
    rw [Shape.slotLength] at h
    rw [Shape.slotSize]
    split at h
    · next hFixed =>
      obtain ⟨each, heach, h⟩ := bind_eq_ok.mp h
      obtain rfl := pure_eq_ok.mp h
      have hexact : Word.saturatingMul each count.toNat = each * count.toNat := by
        unfold Word.saturatingMul at hword ⊢
        omega
      rw [if_pos hFixed, hexact]
      rcases Nat.eq_zero_or_pos count.toNat with hzero | hpos
      · rw [hzero, Nat.mul_zero, Nat.mul_zero]
      · have hle : each ≤ each * count.toNat := Nat.le_mul_of_pos_right each hpos
        rw [Shape.slotSize_eq_of_slotLength heach (by omega)]
    · next hVariable =>
      rw [if_neg hVariable]
      exact Except.ok.inj h
  | .bitvector count, length, h, _ => by
    obtain ⟨padded, hpadded, h⟩ := bind_eq_ok.mp h
    obtain ⟨-, rfl⟩ := Word.add_eq_ok.mp hpadded
    exact pure_eq_ok.mp h
  | .boolean, _, h, _ | .uint _, _, h, _ | .byteVector _, _, h, _ | .byteList _, _, h, _
  | .bitlist _, _, h, _ | .list _ _, _, h, _ | .container _, _, h, _ => Except.ok.inj h

/-- The slot of a shape of variable size is counted as that of an offset. -/
theorem Shape.slotLength_of_variable {shape : Shape} (h : shape.isFixed = false) :
    shape.slotLength = .ok offsetLength := by
  cases shape <;> simp_all [Shape.isFixed, Shape.slotLength]

/-- Slots that are each counted as less than the largest word are counted exactly. -/
theorem counted_of_forall₂ {shapes : List Shape} {lengths : List Nat}
    (h : List.Forall₂ (fun shape length => shape.slotLength = .ok length) shapes lengths)
    (hsmall : ∀ length ∈ lengths, length < wordLimit - 1) :
    Counted shapes ∧ slotSum shapes = lengths.sum := by
  induction h with
  | nil => exact ⟨nofun, rfl⟩
  | cons hlength _ ih =>
    rw [List.forall_mem_cons] at hsmall
    obtain ⟨hcounted, hsum⟩ := ih hsmall.2
    have hsize := Shape.slotSize_eq_of_slotLength hlength hsmall.1
    refine ⟨List.forall_mem_cons.mpr ⟨hsize ▸ hlength, hcounted⟩, ?_⟩
    rw [slotSum_cons, hsum, hsize, List.sum_cons]

/-- Slots that are counted as a word together, with an offset among them, are counted exactly. -/
theorem counted_of_slotLengths {shapes : List Shape} {lengths : List Nat}
    (hlengths : shapes.mapM Shape.slotLength = .ok lengths)
    (hvariable : ∃ shape ∈ shapes, shape.isFixed = false) (hword : lengths.sum < wordLimit) :
    Counted shapes ∧ slotSum shapes = lengths.sum := by
  rw [mapM_eq_ok] at hlengths
  have hoffset : offsetLength ∈ lengths := by
    obtain ⟨shape, hshape, hvariable⟩ := hvariable
    obtain ⟨length, hlength, hslot⟩ := exists_of_forall₂ hlengths.flip hshape
    rw [Shape.slotLength_of_variable hvariable] at hslot
    exact Except.ok.inj hslot ▸ hlength
  refine counted_of_forall₂ hlengths fun length hlength => ?_
  by_cases heq : length = offsetLength
  · rw [heq]
    decide
  · -- The offset is counted beside the length, so that the length is not the whole of a word.
    have hsum := List.sum_erase hlength
    have hbeside := List.single_le_sum (fun _ _ => Nat.zero_le _) _
      ((List.mem_erase_of_ne (Ne.symm heq)).mpr hoffset)
    have hpos : 1 < offsetLength := by decide
    omega

/-- Slices have the sizes of counted slots if they are as long as these are counted. -/
theorem sized_iff {shapes : List Shape} (h : Counted shapes) {slices : List Bytes} :
    Sized shapes slices ↔ List.Forall₂ (fun shape slice => shape.isFixed = true →
      shape.slotLength = .ok slice.length) shapes slices := by
  induction shapes generalizing slices with
  | nil => simp [Sized]
  | cons shape shapes ih =>
    obtain ⟨hslot, hslots⟩ := List.forall_mem_cons.mp h
    cases slices with
    | nil => simp [Sized]
    | cons slice slices =>
      rw [Sized, List.forall₂_cons, List.forall₂_cons, hslot, Except.ok.injEq,
        eq_comm (a := slice.length)]
      exact and_congr_right fun _ => ih hslots

/-- The position lies between the offset of the body at an index and the end of that body. -/
def Covers (offsets : List Nat) (bodies : List Bytes) (position index : Nat) : Prop :=
  ∃ offset body, offsets[index]? = some offset ∧ bodies[index]? = some body ∧
    offset ≤ position ∧ position < offset + body.length

/-- No offset lies in front of the first one. -/
theorem le_of_mem_runningOffsets {start offset : Nat} {bodies : List Bytes}
    (h : offset ∈ runningOffsets start bodies) : start ≤ offset := by
  induction bodies generalizing start with
  | nil => cases h
  | cons body bodies ih =>
    rw [runningOffsets, List.mem_cons] at h
    rcases h with rfl | h
    · exact le_rfl
    · exact (Nat.le_add_right _ _).trans (ih h)

/-- Bodies in a row divide the positions that they take: each one lies in exactly one body. -/
theorem existsUnique_covers {start position : Nat} {bodies : List Bytes} (hlow : start ≤ position)
    (hhigh : position < start + bodies.flatten.length) :
    ∃! index, Covers (runningOffsets start bodies) bodies position index := by
  induction bodies generalizing start with
  | nil =>
    rw [List.flatten_nil, List.length_nil] at hhigh
    omega
  | cons body bodies ih =>
    rw [List.flatten_cons, List.length_append] at hhigh
    by_cases hbody : position < start + body.length
    · refine ⟨0, ⟨start, body, rfl, rfl, hlow, hbody⟩, fun index hcovers => ?_⟩
      cases index with
      | zero => rfl
      | succ index =>
        obtain ⟨offset, _, hoffset, -, hle, -⟩ := hcovers
        have hmem : offset ∈ runningOffsets (start + body.length) bodies :=
          List.mem_of_getElem? hoffset
        have hbehind := le_of_mem_runningOffsets hmem
        omega
    · obtain ⟨index, hcovers, hunique⟩ := @ih (start + body.length) (by omega) (by omega)
      refine ⟨index + 1, hcovers, fun other hother => ?_⟩
      cases other with
      | zero =>
        obtain ⟨_, _, hoffset, hfirst, -, hlt⟩ := hother
        cases hoffset
        cases hfirst
        exact absurd hlt hbody
      | succ other => exact congrArg (· + 1) (hunique other hother)

/-- An offset in order lies inside the bytes, as the fixed part does. -/
theorem Ordered.le {fixedPart size offset : Nat} {previous : Option Nat}
    (h : Ordered fixedPart size previous [offset]) (hfixedPart : fixedPart ≤ size) :
    offset ≤ size := by
  cases previous with
  | none => exact h.1 ▸ hfixedPart
  | some previous => exact h.2.1

/-- Where the next offset or the end of the bytes lies is not in front of the last offset. -/
theorem Ordered.le_headD {fixedPart size offset : Nat} {later : List Nat} (hoffset : offset ≤ size)
    (h : Ordered fixedPart size (some offset) later) :
    offset ≤ later.headD size ∧ later.headD size ≤ size := by
  cases later with
  | nil => exact ⟨hoffset, le_rfl⟩
  | cons next later => exact ⟨h.1, h.2.1⟩

namespace Reader

/-- Once the offsets that remain are in order, all parts can be taken. -/
theorem exists_takeAll {shapes : List Shape} (hslots : Counted shapes) {reader : Reader}
    (hword : reader.taken + slotSum shapes < wordLimit)
    (hroom : reader.taken + slotSum shapes ≤ reader.store.size)
    (hcount : reader.remaining.length = variableCount shapes) {previous : Option Nat}
    (hfixedPart : reader.fixedPart ≤ reader.store.size)
    (hordered : Ordered reader.fixedPart reader.store.size previous reader.remaining) :
    ∃ slices, takeAll shapes reader = .ok slices := by
  -- Along the shapes, a part of fixed size leaves the remaining offsets alone, and one of variable
  -- size takes the first of them; what remains stays in order behind it.
  induction shapes generalizing reader previous with
  | nil => exact ⟨[], rfl⟩
  | cons shape shapes ih =>
    obtain ⟨hslot, hslots⟩ := List.forall_mem_cons.mp hslots
    rw [slotSum_cons] at hword hroom
    have hhead : reader.taken + shape.slotSize < wordLimit := by omega
    have hrest : reader.taken + shape.slotSize + slotSum shapes < wordLimit := by omega
    have hslotRoom : reader.taken + shape.slotSize ≤ reader.store.size := by omega
    have hfits : reader.taken + shape.slotSize + slotSum shapes ≤ reader.store.size := by omega
    simp only [takeAll, bind_eq_ok, pure_eq_ok, Prod.exists]
    cases hfixed : shape.isFixed with
    | true =>
      have hcount : reader.remaining.length = variableCount shapes := by
        simpa [variableCount, hfixed] using hcount
      obtain ⟨slices, hslices⟩ :=
        @ih hslots { reader with taken := reader.taken + shape.slotSize } hrest hfits hcount
          previous hfixedPart hordered
      obtain ⟨hlength, hfront⟩ := (extract_eq_iff (Nat.le_add_right _ _) hslotRoom).mp rfl
      exact ⟨_, _, _, (next_fixed_eq_ok hslot hfixed hhead hslotRoom).mpr
        ⟨⟨by omega, hfront⟩, rfl⟩, slices, hslices, rfl⟩
    | false =>
      have hcount : reader.remaining.length = variableCount shapes + 1 := by
        simpa [variableCount, hfixed] using hcount
      obtain ⟨offset, later, hremaining⟩ := List.exists_cons_of_length_eq_add_one hcount
      have hlater : remaining { reader with
          taken := reader.taken + shape.slotSize
          takenOffsets := reader.takenOffsets + 1 } = later :=
        (remaining_eq_cons.mp hremaining).2
      rw [hremaining] at hcount hordered
      obtain ⟨hfirst, hordered⟩ := ordered_cons.mp hordered
      obtain ⟨hnext, hstop⟩ := hordered.le_headD (hfirst.le hfixedPart)
      obtain ⟨hlength, hfront⟩ := (extract_eq_iff hnext hstop).mp rfl
      obtain ⟨slices, hslices⟩ :=
        @ih hslots { reader with
            taken := reader.taken + shape.slotSize
            takenOffsets := reader.takenOffsets + 1 } hrest hfits
          (by rw [hlater]; simpa using hcount) (some offset) hfixedPart (by rwa [hlater])
      exact ⟨_, _, _, (next_variable_eq_ok hslot hfixed hhead).mpr
        ⟨offset, later, hremaining, ⟨hlength, by omega, hfront⟩, rfl⟩, slices, hslices, rfl⟩

/-- The parts that registered offsets stand for can all be taken, and those of variable size divide
what lies behind the fixed part. -/
theorem exists_takeAll_of_registerAll {shapes : List Shape} (hslots : Counted shapes)
    (hvariable : ∃ shape ∈ shapes, shape.isFixed = false) (hword : slotSum shapes < wordLimit)
    {bytes : Bytes} {reader registered : Reader}
    (hstart : start bytes (slotSum shapes) = .ok reader)
    (hregister : registerAll shapes reader = .ok registered) :
    ∃ slices, takeAll shapes registered = .ok slices ∧
      (bodiesOf shapes slices).flatten = bytes.drop (slotSum shapes) ∧
      registered.offsets.toList = runningOffsets (slotSum shapes) (bodiesOf shapes slices) := by
  obtain ⟨hsize, rfl⟩ := start_eq_ok.mp hstart
  rw [registerAll_eq_ok hslots (by simpa using hword) (by simpa using hsize)] at hregister
  obtain ⟨offsets, hoffsets, hordered, rfl⟩ := hregister
  have hremaining : remaining ⟨bytes.toArray, slotSum shapes, 0 + slotSum shapes, 0,
      (#[] : Array Nat) ++ offsets, 0⟩ = offsets := by
    simp [remaining]
  have hcount := length_of_offsetsAt hoffsets
  have hword : 0 + slotSum shapes < wordLimit := by omega
  have hroom : 0 + slotSum shapes ≤ bytes.toArray.size := by simpa using hsize
  obtain ⟨slices, hslices⟩ := exists_takeAll hslots hword hroom (by rwa [hremaining])
    (by simpa using hsize) (by rwa [hremaining])
  refine ⟨slices, hslices, ?_⟩
  rw [takeAll_eq_ok hslots hword hroom (by rwa [hremaining]), hremaining] at hslices
  have hbodies : BodiesAt bytes offsets (bodiesOf shapes slices) := hslices.2
  -- The first offset is the end of the fixed part, and there is one.
  cases offsets with
  | nil =>
    have hpos : 0 < variableCount shapes := List.countP_pos_iff.mpr (by simpa using hvariable)
    rw [← hcount] at hpos
    exact absurd hpos (Nat.lt_irrefl 0)
  | cons offset later =>
    obtain rfl : offset = slotSum shapes := hordered.1
    obtain ⟨hrunning, hflat⟩ := hbodies.eq_runningOffsets
    exact ⟨hflat, by simpa using hrunning⟩

/-- If a part of a container is of variable size, what can be taken out of bytes are exactly the
parts that join to them. Once all offsets are registered, all parts can be taken, and each position
behind the fixed part lies in exactly one part of variable size. -/
theorem readAll_iff_joinItems {shapes : List Shape} {lengths : List Nat}
    (hlengths : shapes.mapM Shape.slotLength = .ok lengths)
    (hvariable : ∃ shape ∈ shapes, shape.isFixed = false) (hword : lengths.sum < wordLimit)
    (bytes : Bytes) :
    (∀ slices, readAll shapes lengths.sum bytes = .ok slices ↔
      List.Forall₂ (fun shape slice => shape.isFixed = true →
          shape.slotLength = .ok slice.length) shapes slices ∧
        joinItems (partsOf shapes slices) (bodiesOf shapes slices) = .ok bytes) ∧
      ∀ reader registered, start bytes lengths.sum = .ok reader →
        registerAll shapes reader = .ok registered →
        ∃ slices, takeAll shapes registered = .ok slices ∧
          (bodiesOf shapes slices).flatten = bytes.drop lengths.sum ∧
          ∀ position, lengths.sum ≤ position → position < bytes.length →
            ∃! index, Covers registered.offsets.toList (bodiesOf shapes slices) position index := by
  obtain ⟨hslots, hsum⟩ := counted_of_slotLengths hlengths hvariable hword
  rw [← hsum] at hword ⊢
  refine ⟨fun slices => ?_, fun reader registered hstart hregister => ?_⟩
  · rw [readAll_eq_ok hslots hword, sized_iff hslots]
    intro hfixed
    obtain ⟨shape, hshape, hopen⟩ := hvariable
    simp [hfixed shape hshape] at hopen
  · obtain ⟨slices, hslices, hflat, hoffsets⟩ :=
      exists_takeAll_of_registerAll hslots hvariable hword hstart hregister
    refine ⟨slices, hslices, hflat, fun position hlow hhigh => ?_⟩
    rw [hoffsets]
    refine existsUnique_covers hlow ?_
    rw [hflat, List.length_drop]
    omega

/-- The parts of the example are taken out of its bytes, and the byte behind the first part of
variable size lies in the second one alone. -/
theorem takeAll_outerBytes :
    (Field.shapes outerExample.fields).mapM Shape.slotLength = .ok [1, 4, 4, 3] ∧
      joinItems [some [1], none, none, some [2, 1, 3]] [[8, 0, 0, 0, 10, 0, 0, 0, 1, 2], [13]] =
        .ok outerBytes ∧
      registerAll (Field.shapes outerExample.fields) ⟨outerBytes.toArray, 12, 0, 0, #[], 0⟩ =
        .ok ⟨outerBytes.toArray, 12, 12, 0, #[12, 22], 0⟩ ∧
      ∃! index, Covers [12, 22] [[8, 0, 0, 0, 10, 0, 0, 0, 1, 2], [13]] 22 index := by
  have hlengths : (Field.shapes outerExample.fields).mapM Shape.slotLength = .ok [1, 4, 4, 3] := rfl
  have hregister : registerAll (Field.shapes outerExample.fields)
      ⟨outerBytes.toArray, 12, 0, 0, #[], 0⟩ =
        .ok ⟨outerBytes.toArray, 12, 12, 0, #[12, 22], 0⟩ := by cbv
  have htaken : takeAll (Field.shapes outerExample.fields)
      ⟨outerBytes.toArray, 12, 12, 0, #[12, 22], 0⟩ =
        .ok [[1], [8, 0, 0, 0, 10, 0, 0, 0, 1, 2], [13], [2, 1, 3]] := by decide +kernel
  have hread : readAll (Field.shapes outerExample.fields) 12 outerBytes =
      .ok [[1], [8, 0, 0, 0, 10, 0, 0, 0, 1, 2], [13], [2, 1, 3]] := by decide +kernel
  have hvotes : Shape.bitlist 10 ∈ Field.shapes outerExample.fields :=
    List.mem_of_getElem? (i := 2) rfl
  obtain ⟨hjoin, htake⟩ :=
    readAll_iff_joinItems hlengths ⟨_, hvotes, rfl⟩ (by decide) outerBytes
  obtain ⟨slices, hslices, -, hcovers⟩ := htake _ _ rfl hregister
  obtain rfl := Except.ok.inj (htaken.symm.trans hslices)
  exact ⟨hlengths, ((hjoin _).mp hread).2, hregister, hcovers 22 (by decide) (by decide)⟩

end Reader

/-- What a sequence is split into are exactly the items, no more than allowed, that join to it. A
sequence that is not split is refused. -/
theorem splitItems_iff_joinItems (bytes : Bytes) (limit : Nat) :
    (∀ items, splitItems bytes limit = .ok items ↔
      items.length ≤ limit ∧
        joinItems (List.replicate items.length none) items = .ok bytes) ∧
      ((∃ items, splitItems bytes limit = .ok items) ∨
        ∃ error, splitItems bytes limit = .error (.refused error)) := by
  refine ⟨fun items => ?_, (trapFree_splitItems bytes limit).ok_or_refused⟩
  rw [splitItems_eq_ok, List.map_const']

end BeaconSsz
