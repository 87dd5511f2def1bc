import BeaconSsz.Wire.Offset
import BeaconSsz.Proofs.Bytes
import BeaconSsz.Proofs.Result

/-!
# Offset tables

Joined items are the parts with the offsets of the bodies in the open places, followed by the
bodies. Reading a table checks that what lies at each place is such an offset, and that every
body starts where its offset says and ends where the next one starts. Both say the same about the
bytes, which makes splitting a sequence the inverse of joining its items: the slices leave no gap,
do not overlap, and end with the bytes.
-/

namespace BeaconSsz

/-- The offsets of bodies that follow one another from a position on. -/
def runningOffsets : Nat → List Bytes → List Nat
  | _, [] => []
  | start, body :: bodies => start :: runningOffsets (start + body.length) bodies

/-- The parts in order, with the offsets in the places of those that are not given. -/
def fillHead : List (Option Bytes) → List Nat → Bytes
  | [], _ => []
  | some part :: parts, offsets => part ++ fillHead parts offsets
  | none :: parts, offsets =>
    Bytes.littleEndian offsetLength (offsets.headD 0) ++ fillHead parts offsets.tail

/-- The number of parts that are not given. -/
def openCount (parts : List (Option Bytes)) : Nat :=
  parts.countP Option.isNone

/-- There is one offset for each body. -/
@[simp] theorem length_runningOffsets (start : Nat) (bodies : List Bytes) :
    (runningOffsets start bodies).length = bodies.length := by
  induction bodies generalizing start with
  | nil => rfl
  | cons body bodies ih => simp [runningOffsets, ih]

/-- The filled parts take the bytes counted for them. -/
@[simp] theorem length_fillHead (parts : List (Option Bytes)) (offsets : List Nat) :
    (fillHead parts offsets).length = headSize parts := by
  induction parts generalizing offsets with
  | nil => rfl
  | cons part parts ih => cases part <;> simp [fillHead, headSize, slotSize, ih]

/-- A table of open places alone takes four bytes for each one. -/
theorem headSize_open (items : List Bytes) :
    headSize (items.map fun _ => none) = items.length * offsetLength := by
  induction items with
  | nil => simp [headSize]
  | cons item items ih =>
    simp only [List.map_cons, headSize, slotSize, ih, List.length_cons]
    ring

/-- A part is written exactly if its offset has four bytes. -/
@[simp] theorem encodeOffset_eq_ok {offset : Nat} {slot : Bytes} :
    encodeOffset offset = .ok slot ↔
      offset < offsetLimit ∧ Bytes.littleEndian offsetLength offset = slot := by
  unfold encodeOffset
  split <;> simp <;> omega

/-- The head is written exactly if all offsets have four bytes, and it is then the filled parts
behind those already written. -/
theorem writeHead_eq_ok {parts : List (Option Bytes)} {bodies : List Bytes}
    (hcount : openCount parts = bodies.length) {start : Nat} {written head : List Bytes}
    (h : writeHead start bodies written parts = .ok head) :
    (∀ offset ∈ runningOffsets start bodies, offset < offsetLimit) ∧
      head.flatten = written.reverse.flatten ++ fillHead parts (runningOffsets start bodies) := by
  induction parts generalizing start bodies written with
  | nil =>
    obtain rfl : bodies = [] := List.length_eq_zero_iff.mp (by simpa [openCount] using hcount.symm)
    obtain rfl : written.reverse = head := by simpa [writeHead] using h
    simp [runningOffsets, fillHead]
  | cons part parts ih =>
    cases part with
    | some part =>
      obtain ⟨hlt, hflat⟩ := ih (by simpa [openCount] using hcount) h
      exact ⟨hlt, by rw [hflat]; simp [fillHead]⟩
    | none =>
      cases bodies with
      | nil => simp [openCount] at hcount
      | cons body bodies =>
        simp only [writeHead, bind_eq_ok, encodeOffset_eq_ok] at h
        obtain ⟨slot, ⟨hstart, rfl⟩, h⟩ := h
        obtain ⟨hlt, hflat⟩ := ih (by simpa [openCount] using hcount) h
        refine ⟨?_, by rw [hflat]; simp [fillHead, runningOffsets]⟩
        rw [runningOffsets, List.forall_mem_cons]
        exact ⟨hstart, hlt⟩

/-- The head can be written if all offsets have four bytes. -/
theorem exists_writeHead {parts : List (Option Bytes)} {bodies : List Bytes}
    (hcount : openCount parts = bodies.length) {start : Nat} (written : List Bytes)
    (hlt : ∀ offset ∈ runningOffsets start bodies, offset < offsetLimit) :
    ∃ head, writeHead start bodies written parts = .ok head := by
  induction parts generalizing start bodies written with
  | nil => exact ⟨_, rfl⟩
  | cons part parts ih =>
    cases part with
    | some part => exact ih (by simpa [openCount] using hcount) _ hlt
    | none =>
      cases bodies with
      | nil => simp [openCount] at hcount
      | cons body bodies =>
        rw [runningOffsets, List.forall_mem_cons] at hlt
        have hcount : openCount parts = bodies.length := by simpa [openCount] using hcount
        obtain ⟨head, hhead⟩ := ih hcount
          (Bytes.littleEndian offsetLength start :: written) hlt.2
        refine ⟨head, ?_⟩
        simp only [writeHead, bind_eq_ok, encodeOffset_eq_ok]
        exact ⟨_, ⟨hlt.1, rfl⟩, hhead⟩

/-- Joined items are the filled parts and the bodies behind them, if all offsets have four
bytes. -/
theorem joinItems_eq_ok {parts : List (Option Bytes)} {bodies : List Bytes} {bytes : Bytes}
    (hcount : openCount parts = bodies.length) :
    joinItems parts bodies = .ok bytes ↔
      (∀ offset ∈ runningOffsets (headSize parts) bodies, offset < offsetLimit) ∧
        fillHead parts (runningOffsets (headSize parts) bodies) ++ bodies.flatten = bytes := by
  simp only [joinItems, bind_eq_ok, pure_eq_ok]
  apply Iff.intro
  · intro h
    obtain ⟨head, hhead, rfl⟩ := h
    obtain ⟨hlt, hflat⟩ := writeHead_eq_ok hcount hhead
    exact ⟨hlt, by simp [hflat]⟩
  · intro h
    obtain ⟨hlt, rfl⟩ := h
    obtain ⟨head, hhead⟩ := exists_writeHead hcount [] hlt
    exact ⟨head, hhead, by simp [(writeHead_eq_ok hcount hhead).2]⟩

/-- Two strings lie in a row at a place exactly when the first lies there and the second behind
it. -/
theorem append_prefix_drop_iff {α : Type} {xs ys store : List α} {start : Nat} :
    xs ++ ys <+: store.drop start ↔
      xs <+: store.drop start ∧ ys <+: store.drop (start + xs.length) := by
  apply Iff.intro
  · intro h
    obtain ⟨rest, h⟩ := h
    refine ⟨⟨ys ++ rest, by rw [← h, List.append_assoc]⟩, rest, ?_⟩
    rw [← List.drop_drop, ← h, List.append_assoc, List.drop_left]
  · intro h
    obtain ⟨⟨rest, h⟩, tail⟩ := h
    rw [← List.drop_drop, ← h, List.drop_left] at tail
    rw [← h]
    exact (List.prefix_append_right_inj xs).mpr tail

/-- A string ends with two others in a row exactly when the first lies where they start, and the
second is what remains. -/
theorem append_eq_drop_iff {α : Type} {xs ys store : List α} {start : Nat} :
    xs ++ ys = store.drop start ↔
      xs <+: store.drop start ∧ ys = store.drop (start + xs.length) := by
  apply Iff.intro
  · intro h
    refine ⟨⟨ys, h⟩, ?_⟩
    rw [← List.drop_drop, ← h, List.drop_left]
  · intro h
    obtain ⟨⟨rest, h⟩, rfl⟩ := h
    rw [← List.drop_drop, ← h, List.drop_left]

/-- Two strings in a row are in front exactly when the first is and the second lies behind it. -/
theorem append_prefix_iff {α : Type} {xs ys store : List α} :
    xs ++ ys <+: store ↔ xs <+: store ∧ ys <+: store.drop xs.length := by
  simpa using @append_prefix_drop_iff _ xs ys store 0

/-- Two strings in a row are all exactly when the first is in front, and the second is what
remains. -/
theorem append_eq_iff {α : Type} {xs ys store : List α} :
    xs ++ ys = store ↔ xs <+: store ∧ ys = store.drop xs.length := by
  simpa using @append_eq_drop_iff _ xs ys store 0

/-- What lies between two positions, in order and inside the store. -/
theorem extract_eq_iff {store : Array UInt8} {start stop : Nat} {part : Bytes}
    (hstart : start ≤ stop) (hstop : stop ≤ store.size) :
    (store.extract start stop).toList = part ↔
      start + part.length = stop ∧ part <+: store.toList.drop start := by
  rw [Array.toList_extract, List.extract_eq_take_drop]
  have hlength : ((store.toList.drop start).take (stop - start)).length = stop - start := by
    rw [List.length_take, List.length_drop, Array.length_toList]
    omega
  apply Iff.intro
  · intro heq
    obtain rfl := heq
    exact ⟨by omega, List.take_prefix _ _⟩
  · intro h
    obtain ⟨rfl, hfront⟩ := h
    rw [Nat.add_sub_cancel_left]
    exact (List.prefix_iff_eq_take.mp hfront).symm

/-- A slice is what lies between two positions in order. -/
theorem slice?_eq_some {store : Array UInt8} {start stop : Nat} {part : Bytes} :
    slice? store start stop = some part ↔
      start + part.length = stop ∧ stop ≤ store.size ∧ part <+: store.toList.drop start := by
  unfold slice?
  split
  · next h =>
    rw [Option.some_inj, extract_eq_iff h.1 h.2]
    tauto
  · next h =>
    simp only [reduceCtorEq, false_iff]
    intro h
    obtain ⟨rfl, hstop, -⟩ := h
    exact h ⟨by omega, hstop⟩

/-- A slice that must be there is what lies between two positions in order. -/
theorem slice_eq_ok {store : Array UInt8} {start stop : Nat} {part : Bytes} :
    slice store start stop = .ok part ↔
      start + part.length = stop ∧ stop ≤ store.size ∧ part <+: store.toList.drop start := by
  unfold slice
  split_ifs with hreversed hrange
  · simp only [false_iff]
    omega
  · simp only [false_iff]
    omega
  · rw [Except.ok.injEq, extract_eq_iff (by omega) (by omega)]
    exact and_congr_right fun _ => (and_iff_right (by omega)).symm

/-- An offset is read at a place exactly when its four bytes lie there. -/
theorem readOffset_eq_ok {store : Array UInt8} {position offset : Nat} :
    readOffset store position = .ok offset ↔
      position + offsetLength < wordLimit ∧ position + offsetLength ≤ store.size ∧
        offset < offsetLimit ∧
        Bytes.littleEndian offsetLength offset <+: store.toList.drop position := by
  simp only [readOffset, bind_eq_ok, Stop.orTrap_eq_ok, Word.add_eq_ok]
  have limit : offsetLimit = 256 ^ offsetLength := rfl
  apply Iff.intro
  · intro h
    obtain ⟨_, ⟨hword, rfl⟩, h⟩ := h
    split at h
    · next part hpart =>
      obtain ⟨hlength, hstop, hfront⟩ := slice?_eq_some.mp hpart
      have hfour : part.length = offsetLength := by omega
      rw [decodeOffset, if_pos hfour, Except.ok.injEq] at h
      subst h
      refine ⟨hword, hstop, ?_, ?_⟩
      · rw [limit, ← hfour]
        exact Bytes.toNatLittleEndian_lt part
      · rw [← hfour, Bytes.littleEndian_toNatLittleEndian]
        exact hfront
    · simp at h
  · intro h
    obtain ⟨hword, hstop, hlt, hfront⟩ := h
    refine ⟨_, ⟨hword, rfl⟩, ?_⟩
    have hpart : slice? store position (position + offsetLength) =
        some (Bytes.littleEndian offsetLength offset) :=
      slice?_eq_some.mpr ⟨by rw [Bytes.length_littleEndian], hstop, hfront⟩
    rw [hpart]
    simp only [decodeOffset, Bytes.length_littleEndian, if_true,
      Bytes.toNatLittleEndian_littleEndian, ← limit, Nat.mod_eq_of_lt hlt]

/-- An offset passes exactly when it lies between the one before it and the end. -/
theorem checkOffset_eq_ok {offset previous length checked : Nat} :
    checkOffset offset previous length = .ok checked ↔
      previous ≤ offset ∧ offset ≤ length ∧ offset = checked := by
  unfold checkOffset
  split_ifs <;> simp <;> omega

/-- Cutting off the last items gives slices that make up the rest of the bytes, the offsets of
which lie in the table. -/
theorem splitFrom_eq_ok {store : Array UInt8} {count position previous : Nat}
    {items result : List Bytes} (hprevious : previous ≤ store.size)
    (hposition : (position + count) * offsetLength < wordLimit) :
    splitFrom store (count + 1) position previous items = .ok result ↔
      ∃ slice slices, items.reverse ++ slice :: slices = result ∧ slices.length = count ∧
        (slice :: slices).flatten = store.toList.drop previous ∧
        (∀ offset ∈ runningOffsets (previous + slice.length) slices, offset < offsetLimit) ∧
        fillHead (slices.map fun _ => none) (runningOffsets (previous + slice.length) slices) <+:
          store.toList.drop (position * offsetLength) := by
  have hstore : store.toList.length = store.size := Array.length_toList
  induction count generalizing position previous items with
  | zero =>
    simp only [splitFrom, ↓reduceIte, bind_eq_ok, pure_eq_ok, Stop.orTrap_eq_ok, slice_eq_ok,
      Except.ok.injEq, List.reverse_cons, List.length_eq_zero_iff]
    apply Iff.intro
    · intro h
      obtain ⟨_, rfl, slice, ⟨hlength, -, hfront⟩, rfl⟩ := h
      refine ⟨slice, [], rfl, rfl, ?_, by simp [runningOffsets], by simp [fillHead]⟩
      rw [List.flatten_singleton]
      exact hfront.eq_of_length (by rw [List.length_drop]; omega)
    · intro h
      obtain ⟨slice, _, rfl, rfl, hflat, -, -⟩ := h
      rw [List.flatten_singleton] at hflat
      refine ⟨_, rfl, slice, ⟨?_, le_rfl, hflat ▸ List.prefix_rfl⟩, rfl⟩
      rw [hflat, List.length_drop]
      omega
  | succ count ih =>
    have hword : position * offsetLength < wordLimit :=
      (Nat.mul_le_mul_right _ (Nat.le_add_right _ _)).trans_lt hposition
    have hnext : (position + 1) * offsetLength = position * offsetLength + offsetLength := by ring
    have hpast : position * offsetLength + offsetLength < wordLimit := by
      rw [← hnext]
      exact (Nat.mul_le_mul_right _ (by omega)).trans_lt hposition
    have ih {next : Nat} {items : List Bytes} (h : next ≤ store.size) :=
      @ih (position + 1) next items h
        (by rwa [Nat.add_assoc, Nat.add_comm 1 count])
    rw [splitFrom]
    simp only [Nat.add_eq_zero_iff, one_ne_zero, and_false, ↓reduceIte, bind_eq_ok,
      Decoding.within_eq_ok, Stop.orTrap_eq_ok, Word.mul_eq_ok, readOffset_eq_ok,
      checkOffset_eq_ok, slice_eq_ok]
    apply Iff.intro
    · intro h
      obtain ⟨_, ⟨_, ⟨-, rfl⟩, next, ⟨-, -, hlt, hslot⟩, -, hsize, rfl⟩, slice,
        ⟨rfl, -, hfront⟩, h⟩ := h
      obtain ⟨slice', slices, rfl, rfl, hflat, hlts, htable⟩ := (ih hsize).mp h
      refine ⟨slice, slice' :: slices, by simp, rfl, ?_, ?_, ?_⟩
      · exact append_eq_drop_iff.mpr ⟨hfront, hflat⟩
      · rw [runningOffsets, List.forall_mem_cons]
        exact ⟨hlt, hlts⟩
      · rw [List.map_cons, fillHead, runningOffsets, append_prefix_drop_iff,
          Bytes.length_littleEndian, ← hnext]
        exact ⟨hslot, htable⟩
    · intro h
      obtain ⟨slice, slices, rfl, hcount, hflat, hlts, htable⟩ := h
      obtain ⟨slice', slices, rfl⟩ := List.exists_cons_of_length_eq_add_one hcount
      rw [List.flatten_cons] at hflat
      have hsize : previous + slice.length ≤ store.size := by
        have := congrArg List.length hflat
        rw [List.length_append, List.length_drop] at this
        omega
      obtain ⟨hfront, hflat⟩ := append_eq_drop_iff.mp hflat
      rw [runningOffsets, List.forall_mem_cons] at hlts
      rw [List.map_cons, fillHead, runningOffsets, append_prefix_drop_iff,
        Bytes.length_littleEndian, ← hnext] at htable
      have hroom : position * offsetLength + offsetLength ≤ store.size := by
        have := htable.1.length_le
        rw [Bytes.length_littleEndian, List.length_drop] at this
        have : 0 < offsetLength := by decide
        omega
      refine ⟨_, ⟨_, ⟨hword, rfl⟩, previous + slice.length, ⟨hpast, hroom, hlts.1, htable.1⟩,
        Nat.le_add_right _ _, hsize, rfl⟩, slice, ⟨rfl, hsize, hfront⟩, ?_⟩
      refine (ih hsize).mpr ⟨slice', slices, by simp, ?_, hflat, hlts.2, htable.2⟩
      simpa using hcount

/-- Every place of a table of items is open. -/
theorem openCount_open (items : List Bytes) :
    openCount (items.map fun _ => none) = items.length := by
  rw [openCount, List.countP_map]
  exact List.countP_eq_length.mpr fun _ _ => rfl

/-- Joined items are the table with the first offset in front, and the items where the table
ends. -/
theorem fillHead_append_flatten_eq_iff {bytes slice : Bytes} {slices : List Bytes} {first : Nat}
    (hfirst : first = (slices.length + 1) * offsetLength) :
    fillHead ((slice :: slices).map fun _ => none) (runningOffsets first (slice :: slices)) ++
        (slice :: slices).flatten = bytes ↔
      (Bytes.littleEndian offsetLength first <+: bytes ∧
        fillHead (slices.map fun _ => none) (runningOffsets (first + slice.length) slices) <+:
          bytes.drop offsetLength) ∧
        (slice :: slices).flatten = bytes.drop first := by
  rw [append_eq_iff, length_fillHead, headSize_open, List.length_cons, ← hfirst, List.map_cons,
    fillHead, runningOffsets, append_prefix_iff, Bytes.length_littleEndian]
  rfl

/-- Splitting a sequence undoes joining its items, and nothing else can be split. -/
theorem splitItems_eq_ok {bytes : Bytes} {limit : Nat} {items : List Bytes} :
    splitItems bytes limit = .ok items ↔
      items.length ≤ limit ∧ joinItems (items.map fun _ => none) items = .ok bytes := by
  have hlimits : offsetLimit < wordLimit := by decide
  rw [joinItems_eq_ok (openCount_open items), headSize_open, splitItems]
  by_cases hbytes : bytes = []
  · subst hbytes
    simp only [List.isEmpty_nil, ↓reduceIte, pure_eq_ok, List.append_eq_nil_iff,
      List.flatten_eq_nil_iff]
    apply Iff.intro
    · intro heq
      obtain rfl := heq
      simp [runningOffsets, fillHead]
    · intro h
      obtain ⟨-, -, hhead, -⟩ := h
      have := congrArg List.length hhead
      rw [length_fillHead, headSize_open, List.length_nil] at this
      exact (List.length_eq_zero_iff.mp (by simpa [offsetLength] using this)).symm
  · have hnonempty : bytes.isEmpty = false := by simpa using hbytes
    simp only [hnonempty, Bool.false_eq_true, ↓reduceIte, bind_eq_ok, readOffset_eq_ok,
      List.size_toArray, List.drop_zero]
    apply Iff.intro
    · intro h
      obtain ⟨first, ⟨-, -, hlt, hslot⟩, h⟩ := h
      split_ifs at h with htable hsize hlimit
      · simp at h
      · simp at h
      · simp at h
      rw [not_or, not_not] at htable
      obtain ⟨hzero, hmod⟩ := htable
      have hdiv := Nat.div_mul_cancel (Nat.dvd_of_mod_eq_zero hmod)
      obtain ⟨count, hcount⟩ : ∃ count, first / offsetLength = count + 1 :=
        Nat.exists_eq_succ_of_ne_zero fun h => hzero (by rw [← hdiv, h, Nat.zero_mul])
      have hfirst : first = (count + 1) * offsetLength := by rw [← hcount, hdiv]
      rw [hcount, splitFrom_eq_ok (by simpa using hsize)
        (by rw [Nat.add_comm 1 count, ← hfirst]; omega)] at h
      obtain ⟨slice, slices, rfl, rfl, hflat, hlts, htable⟩ := h
      rw [List.reverse_nil, List.nil_append, List.length_cons, ← hfirst,
        fillHead_append_flatten_eq_iff hfirst, runningOffsets, List.forall_mem_cons]
      rw [Nat.one_mul] at htable
      exact ⟨by omega, ⟨hlt, hlts⟩, ⟨hslot, htable⟩, hflat⟩
    · intro h
      obtain ⟨hlimit, hlts, hjoin⟩ := h
      cases items with
      | nil => exact absurd (by simpa [fillHead] using hjoin.symm) hbytes
      | cons slice slices =>
        have hsize := congrArg List.length hjoin
        rw [List.length_append, length_fillHead, headSize_open, List.length_cons] at hsize
        rw [List.length_cons] at hlts hjoin hlimit
        obtain ⟨first, hfirst⟩ : ∃ first, first = (slices.length + 1) * offsetLength := ⟨_, rfl⟩
        rw [← hfirst] at hlts hjoin hsize
        rw [fillHead_append_flatten_eq_iff hfirst] at hjoin
        obtain ⟨⟨hslot, htable⟩, hflat⟩ := hjoin
        rw [runningOffsets, List.forall_mem_cons] at hlts
        have hfour : first = slices.length * offsetLength + offsetLength := by rw [hfirst]; ring
        have hdiv : first / offsetLength = slices.length + 1 := by
          rw [hfirst]
          exact Nat.mul_div_cancel _ (by decide)
        have hmod : first % offsetLength = 0 := by rw [hfirst, Nat.mul_mod_left]
        have hpos : 0 < offsetLength := by decide
        refine ⟨first, ⟨by decide, by omega, hlts.1, hslot⟩, ?_⟩
        rw [if_neg (by omega), if_neg (by omega), hdiv, if_neg (by omega), splitFrom_eq_ok
          (by rw [List.size_toArray]; omega) (by rw [Nat.add_comm 1, ← hfirst]; omega), Nat.one_mul]
        exact ⟨slice, slices, rfl, rfl, hflat, hlts.2, htable⟩

end BeaconSsz
