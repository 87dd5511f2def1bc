import BeaconSsz.Proofs.Wire.Overflow
import BeaconSsz.Proofs.Wire.RoundTrip

/-!
# What can be read from few bytes

Bounds in a schema may be huge, and they say nothing about how much is read from given bytes. What
does is the layout: every leaf of a value has bytes of its own, or else an offset of its own. So
the leaves are counted in units of the least number of bytes that pays for each one.
-/

namespace BeaconSsz

namespace Value

variable {weight weight' : Value → Nat}

mutual

/-- The weights of all leaves of a value: of everything that is not a container or a sequence, and
of empty sequences. -/
def leafSum (weight : Value → Nat) : Value → Nat
  | .sequence (element :: elements) => leafSum weight element + leafSums weight elements
  | .container fields => leafSums weight fields
  | leaf => weight leaf

/-- The weights of all leaves of values. -/
def leafSums (weight : Value → Nat) : List Value → Nat
  | [] => 0
  | value :: rest => leafSum weight value + leafSums weight rest

end

/-- The number of leaves. -/
def leafCount : Value → Nat :=
  leafSum fun _ => 1

/-- The bytes of all byte strings in a value. -/
def byteCount : Value → Nat :=
  leafSum fun leaf => (leaf.bytes?.getD []).length

/-- The bits of all bit strings in a value. -/
def bitCount : Value → Nat :=
  leafSum fun leaf => (leaf.bits?.getD []).length

/-- The least number of bytes that pays for a leaf. -/
def leafSize : Value → Nat
  | .bytes content => max 1 content.length
  | .bits content => max 1 ((content.length + 7) / 8)
  | _ => 1

mutual

/-- Leaves that weigh at most so many times what others do make up at most so many times as
much. -/
theorem leafSum_le {factor : Nat} (h : ∀ leaf, weight leaf ≤ factor * weight' leaf) :
    (value : Value) → value.leafSum weight ≤ factor * value.leafSum weight'
  | .sequence (element :: elements) => by
    have := leafSum_le h element
    have := leafSums_le h elements
    rw [leafSum, leafSum, Nat.mul_add]
    omega
  | .container fields => by
    rw [leafSum, leafSum]
    exact leafSums_le h fields
  | .boolean _ | .uint _ | .big _ | .bytes _ | .bits _ | .sequence [] => by
    simpa only [leafSum] using h _

/-- The same of the leaves of several values. -/
theorem leafSums_le {factor : Nat} (h : ∀ leaf, weight leaf ≤ factor * weight' leaf) :
    (values : List Value) → leafSums weight values ≤ factor * leafSums weight' values
  | [] => Nat.zero_le _
  | value :: rest => by
    have := leafSum_le h value
    have := leafSums_le h rest
    rw [leafSums, leafSums, Nat.mul_add]
    omega

end

/-- A sequence of elements is no leaf. -/
theorem leafSum_sequence {elements : List Value} (h : elements ≠ []) :
    leafSum weight (.sequence elements) = leafSums weight elements := by
  cases elements with
  | nil => exact absurd rfl h
  | cons element elements => rw [leafSum, leafSums]

end Value

namespace Item

/-- The bytes that an item takes in front of all bodies and among them. -/
def charge (item : Item) : Nat :=
  item.slot + item.body

/-- The items take their bytes one after the other. -/
theorem total_cons (item : Item) (items : List Item) :
    total (item :: items) = item.charge + total items := by
  simp only [total, slots, bodies, charge, List.map_cons, List.sum_cons]
  omega

/-- An item takes at least its size. -/
theorem size_le_charge (isFixed : Bool) (size : Nat) : size ≤ charge ⟨isFixed, size⟩ := by
  cases isFixed with
  | true => exact Nat.le_refl size
  | false => exact Nat.le_add_left size offsetLength

/-- An item takes as much as it holds, and at least one byte if it is not empty or has an
offset. -/
theorem max_le_charge {isFixed : Bool} {held size : Nat} (hheld : held ≤ size)
    (hpos : isFixed = true → 0 < size) : max 1 held ≤ charge ⟨isFixed, size⟩ := by
  refine max_le ?_ (hheld.trans (size_le_charge isFixed size))
  cases isFixed with
  | true => exact hpos rfl
  | false => exact (by decide : 1 ≤ offsetLength).trans (Nat.le_add_right offsetLength size)

end Item

/-- Elements that are charged for their leaves are so together. -/
theorem Value.leafSums_le_total {element : Shape} {elements : List Value}
    (h : ∀ value ∈ elements, value.leafSum Value.leafSize ≤
      Item.charge ⟨element.isFixed, element.writtenSize value⟩) :
    Value.leafSums Value.leafSize elements ≤
      Item.total (Item.ofElements element.isFixed element.writtenSize elements) := by
  induction elements with
  | nil => exact Nat.zero_le _
  | cons value elements ih =>
    rw [List.forall_mem_cons] at h
    rw [Value.leafSums, Item.ofElements, List.map_cons, Item.total_cons]
    exact Nat.add_le_add h.1 (ih h.2)

mutual

/-- The leaves of a value are paid for by the bytes of the value or by its offset. -/
theorem Shape.leafSum_le_charge : {shape : Shape} → shape.Sound → {value : Value} →
    shape.Fits value → value.leafSum Value.leafSize ≤
      Item.charge ⟨shape.isFixed, shape.writtenSize value⟩
  | .boolean, _, .boolean _, _ => Item.size_le_charge true 1
  | .uint _, hSound, .uint _, _ | .uint _, hSound, .big _, _ =>
    Nat.le_trans (toNat_of_mem_uintWidths hSound).1 (Item.size_le_charge true _)
  | .byteVector _, hSound, .bytes _, hFits => by
    rw [Shape.Fits] at hFits
    exact Item.max_le_charge le_rfl fun _ => by
      rw [Shape.writtenSize, hFits]
      exact hSound
  | .byteList _, _, .bytes _, _ => Item.max_le_charge le_rfl Bool.false_ne_true.elim
  | .bitvector length, hSound, .bits _, hFits => by
    rw [Shape.Fits] at hFits
    have hpos : 0 < length.toNat := hSound.1
    exact Item.max_le_charge le_rfl fun _ => by
      rw [Shape.writtenSize, hFits]
      omega
  | .bitlist _, _, .bits _, _ =>
    Item.max_le_charge (by rw [Shape.writtenSize]; omega) Bool.false_ne_true.elim
  | .vector element _, hSound, .sequence elements, hFits => by
    rw [Shape.Fits] at hFits
    have hne : elements ≠ [] := List.ne_nil_of_length_pos (hFits.1 ▸ hSound.1)
    have hall := Value.leafSums_le_total fun value hvalue =>
      Shape.leafSum_le_charge hSound.2.1 (hFits.2 value hvalue)
    rw [Value.leafSum_sequence hne]
    exact hall.trans (Item.size_le_charge _ _)
  | .list _ _, _, .sequence [], _ =>
    Item.max_le_charge (Nat.zero_le _) Bool.false_ne_true.elim
  | .list element _, hSound, .sequence (first :: elements), hFits => by
    rw [Shape.Fits] at hFits
    have hall := Value.leafSums_le_total fun value hvalue =>
      Shape.leafSum_le_charge hSound.1 (hFits.2 value hvalue)
    exact hall.trans (Item.size_le_charge _ _)
  | .container schema, hSound, value, hFits => by
    rw [Shape.writtenSize]
    exact (Schema.leafSum_le_total hSound hFits).trans (Item.size_le_charge _ _)

/-- The leaves of a container are paid for by its bytes. -/
theorem Schema.leafSum_le_total : {schema : Schema} → schema.Sound → {value : Value} →
    schema.Fits value → value.leafSum Value.leafSize ≤ Item.total (schema.items value)
  | ⟨_, fields, _, _, _⟩, ⟨_, _, hFields, _⟩, .container values, hFits => by
    rw [Value.leafSum, Schema.items]
    exact Field.leafSums_le_total hFields hFits

/-- The leaves of values are paid for by the bytes of the values and their offsets. -/
theorem Field.leafSums_le_total : {fields : List Field} → Field.AllSound fields →
    {values : List Value} → Field.AllFit fields values →
    Value.leafSums Value.leafSize values ≤ Item.total (Field.items fields values)
  | [], _, [], _ => Nat.zero_le _
  | ⟨_, _⟩ :: _, ⟨hShape, hFields⟩, value :: values, ⟨hFit, hFits⟩ => by
    rw [Value.leafSums, Field.items, Item.total_cons]
    exact Nat.add_le_add (Shape.leafSum_le_charge hShape hFit)
      (Field.leafSums_le_total hFields hFits)

end

namespace Schema

/-- Reading does not amplify: from few bytes come few leaves, few bytes and few bits, whatever the
bounds of the schema. -/
theorem leaves_le_of_deserialize {schema : Schema} (hDrawn : schema.Drawn) {bytes : Bytes}
    {value : Value} (h : schema.deserialize bytes = .ok value) :
    value.leafCount ≤ bytes.length ∧ value.byteCount ≤ bytes.length ∧
      value.bitCount ≤ 8 * bytes.length := by
  have hwrite := (deserialize_iff_serialize hDrawn).mp h
  have hfits := fits_of_serialize hDrawn hwrite
  rw [serialize, Encoding.within_eq_ok] at hwrite
  have hsum : value.leafSum Value.leafSize ≤ bytes.length := by
    rw [length_of_encodeFields_eq_ok hwrite]
    exact leafSum_le_total (sound_of_drawn hDrawn) hfits
  have hcount : value.leafCount ≤ 1 * value.leafSum Value.leafSize := by
    refine Value.leafSum_le (fun leaf => ?_) value
    cases leaf <;> simp [Value.leafSize]
  have hbytes : value.byteCount ≤ 1 * value.leafSum Value.leafSize := by
    refine Value.leafSum_le (fun leaf => ?_) value
    cases leaf <;> simp [Value.leafSize, Value.bytes?]
  have hbits : value.bitCount ≤ 8 * value.leafSum Value.leafSize := by
    refine Value.leafSum_le (fun leaf => ?_) value
    cases leaf <;> simp [Value.leafSize, Value.bits?]
    omega
  omega

/-- The bytes of the example are read as few leaves. -/
theorem leaves_outerValue_le :
    outerExample.deserialize outerBytes = .ok outerValue ∧ outerValue.leafCount ≤ 23 ∧
      outerValue.byteCount ≤ 23 ∧ outerValue.bitCount ≤ 184 := by
  have h : outerExample.deserialize outerBytes = .ok outerValue := by decide +kernel
  exact ⟨h, leaves_le_of_deserialize outerExample_drawn h⟩

end Schema

end BeaconSsz
