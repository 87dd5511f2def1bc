import BeaconSsz.Proofs.Schema.Variation
import BeaconSsz.Proofs.Wire.RoundTrip

/-!
# Larger bounds

The limits of lists, byte lists and bit lists say which values are accepted and nothing more. They
show neither in the bytes of a value nor in how bytes are cut, so what is written or read under
some limits is written and read alike under larger ones, and what is read under the larger ones
is read alike under the smaller ones if it keeps within them.
-/

namespace BeaconSsz

/-- The second shape is the first one, or has a limit at least as large. -/
inductive Shape.Loosened : Shape → Shape → Prop
  | same (shape : Shape) : Loosened shape shape
  | byteList {limit limit' : UInt64} (h : limit ≤ limit') :
    Loosened (.byteList limit) (.byteList limit')
  | bitlist {limit limit' : UInt64} (h : limit ≤ limit') :
    Loosened (.bitlist limit) (.bitlist limit')

/-- The shapes differ in limits only, which are at least as large in the second one. -/
def Shape.WidensTo : Shape → Shape → Prop :=
  Shape.VariesBy Shape.Loosened (· ≤ ·)

/-- The schemas differ in limits only, which are at least as large in the second one. -/
def Schema.WidensTo : Schema → Schema → Prop :=
  Schema.VariesBy Shape.Loosened (· ≤ ·)

/-- The fields differ in limits only, which are at least as large in the second ones. -/
def Field.AllWidenTo : List Field → List Field → Prop :=
  Field.AllVaryBy Shape.Loosened (· ≤ ·)

/-- The container around them cannot tell larger limits from smaller ones. -/
theorem Shape.Loosened.slotAlike {shape other : Shape} (h : shape.Loosened other) :
    shape.SlotAlike other := by
  cases h <;> exact ⟨rfl, rfl, rfl⟩

/-- Nor can it tell shapes with larger limits from shapes with smaller ones. -/
theorem Shape.WidensTo.slotAlike {shape other : Shape} (h : shape.WidensTo other)
    (hSound : shape.Sound) (hOther : other.Sound) : shape.SlotAlike other :=
  Shape.VariesBy.slotAlike Shape.Loosened.slotAlike h hSound hOther

/-- A number of elements within a limit passes under every larger one. -/
theorem checkLimit_of_le {count : Nat} {limit limit' : UInt64} (h : limit ≤ limit')
    (hCount : count ≤ limit.toNat) :
    checkLimit count limit.toNat = .ok () ∧ checkLimit count limit'.toNat = .ok () := by
  have hLimit : limit.toNat ≤ limit'.toNat := UInt64.le_iff_toNat_le.mp h
  exact ⟨checkLimit_eq_ok.mpr hCount, checkLimit_eq_ok.mpr (hCount.trans hLimit)⟩

/-- What keeps within the limit of a place is written in the same way under a larger one. -/
theorem Shape.Loosened.encode_eq {shape other : Shape} (h : shape.Loosened other) {value : Value}
    (hFits : shape.Fits value) : shape.encode value = other.encode value := by
  cases h with
  | same => rfl
  | byteList h =>
    cases value with
    | bytes content =>
      obtain ⟨hPass, hPass'⟩ := checkLimit_of_le h hFits
      rw [Shape.encode, Shape.encode, hPass, hPass']
    | _ => exact hFits.elim
  | bitlist h =>
    cases value with
    | bits content =>
      obtain ⟨hPass, hPass'⟩ := checkLimit_of_le h hFits
      rw [Shape.encode, Shape.encode, hPass, hPass']
    | _ => exact hFits.elim

mutual

/-- What fits a shape is written in the same way through one with larger limits. -/
theorem Shape.WidensTo.encode_eq : {shape other : Shape} → shape.WidensTo other → shape.Sound →
    other.Sound → {value : Value} → shape.Fits value → shape.encode value = other.encode value
  | .vector element length, _, h, ⟨_, hSound, _⟩, hOther, value, hFits => by
    obtain ⟨element', rfl, h⟩ := h
    cases value with
    | sequence elements =>
      have hSlot := Shape.WidensTo.slotAlike h hSound hOther.2.1
      have hParts : ∀ part ∈ elements, element.encode part = element'.encode part :=
        fun part hPart => Shape.WidensTo.encode_eq h hSound hOther.2.1 (hFits.2 part hPart)
      rw [Shape.encode, Shape.encode, hSlot.isFixed_eq, Encoding.mapElements_congr hParts]
    | _ => exact hFits.elim
  | .list element limit, _, h, ⟨hSound, _⟩, hOther, value, hFits => by
    obtain ⟨element', limit', rfl, hLimit, h⟩ := h
    cases value with
    | sequence elements =>
      have hSlot := Shape.WidensTo.slotAlike h hSound hOther.1
      have hParts : ∀ part ∈ elements, element.encode part = element'.encode part :=
        fun part hPart => Shape.WidensTo.encode_eq h hSound hOther.1 (hFits.2 part hPart)
      obtain ⟨hPass, hPass'⟩ := checkLimit_of_le hLimit hFits.1
      rw [Shape.encode, Shape.encode, hPass, hPass', hSlot.isFixed_eq,
        Encoding.mapElements_congr hParts]
    | _ => exact hFits.elim
  | .container schema, _, h, hSound, hOther, value, hFits => by
    obtain ⟨schema', rfl, h⟩ := h
    rw [Shape.Fits] at hFits
    rw [Shape.encode_container, Shape.encode_container,
      Schema.WidensTo.encodeFields_eq h hSound hOther hFits]
  | .boolean, _, h, _, _, _, hFits | .uint _, _, h, _, _, _, hFits
  | .byteVector _, _, h, _, _, _, hFits | .byteList _, _, h, _, _, _, hFits
  | .bitvector _, _, h, _, _, _, hFits | .bitlist _, _, h, _, _, _, hFits =>
    Shape.Loosened.encode_eq h hFits

/-- A container that fits a schema is written in the same way through one with larger limits. -/
theorem Schema.WidensTo.encodeFields_eq : {schema other : Schema} → schema.WidensTo other →
    schema.Sound → other.Sound → {value : Value} → schema.Fits value →
    schema.encodeFields value = other.encodeFields value
  | ⟨_, fields, _, _, _⟩, ⟨_, _, _, _, _⟩, ⟨_, h⟩, ⟨_, _, hSound, _⟩, ⟨_, _, hOther, _⟩, value,
      hFits => by
    cases value with
    | container values =>
      have hLength : values.length = fields.length := Field.AllFit.length_eq hFits
      exact Schema.encodeFields_congr hLength (hLength.trans (Field.AllVaryBy.length_eq h))
        (Field.AllWidenTo.encodeAll_eq h hSound hOther hFits)
    | _ => exact hFits.elim

/-- Values that fit fields are written in the same way through fields with larger limits. -/
theorem Field.AllWidenTo.encodeAll_eq : {fields others : List Field} →
    Field.AllWidenTo fields others → Field.AllSound fields → Field.AllSound others →
    {values : List Value} → Field.AllFit fields values →
    Field.encodeAll fields values = Field.encodeAll others values
  | [], _, h, _, _, _, _ => by
    obtain rfl : _ = [] := h
    rfl
  | ⟨name, shape⟩ :: fields, _, h, hSound, hOther, value :: values, ⟨hFits, hAll⟩ => by
    obtain ⟨shape', fields', rfl, hShape, hFields⟩ := h
    have hSlot := Shape.WidensTo.slotAlike hShape hSound.1 hOther.1
    rw [Field.encodeAll, Field.encodeAll, hSlot.isFixed_eq,
      Shape.WidensTo.encode_eq hShape hSound.1 hOther.1 hFits,
      Field.AllWidenTo.encodeAll_eq hFields hSound.2 hOther.2 hAll]

end

namespace Schema

/-- What fits a drawn-up schema is written in the same way through one with larger limits. -/
theorem WidensTo.serialize_eq {schema other : Schema} (h : schema.WidensTo other)
    (hDrawn : schema.Drawn) (hOther : other.Drawn) {value : Value} (hFits : schema.Fits value) :
    schema.serialize value = other.serialize value := by
  rw [serialize, serialize, VariesBy.name_eq h,
    h.encodeFields_eq (sound_of_drawn hDrawn) (sound_of_drawn hOther) hFits]

/-- Limits do not show in bytes. Of two drawn-up schemas that differ in limits only, the one with
the larger limits writes and reads whatever the other one does, with the same bytes and values; and
what it reads is read by the other one, if it is valid there. -/
theorem reads_of_widensTo {schema other : Schema} (hDrawn : schema.Drawn) (hOther : other.Drawn)
    (h : schema.WidensTo other) (bytes : Bytes) (value : Value) :
    (schema.serialize value = .ok bytes → other.serialize value = .ok bytes) ∧
    (schema.deserialize bytes = .ok value → other.deserialize bytes = .ok value) ∧
    (other.deserialize bytes = .ok value → schema.validate value = .ok () →
      schema.deserialize bytes = .ok value) := by
  have hWrite (hWritten : schema.serialize value = .ok bytes) :
      other.serialize value = .ok bytes :=
    h.serialize_eq hDrawn hOther (fits_of_serialize hDrawn hWritten) ▸ hWritten
  refine ⟨hWrite, fun hRead => ?_, fun hRead hValid => ?_⟩
  · rw [deserialize_iff_serialize hDrawn] at hRead
    exact (deserialize_iff_serialize hOther).mpr (hWrite hRead)
  · have hFits := (validate_eq_ok hDrawn).mp hValid
    rw [deserialize_iff_serialize hOther, ← h.serialize_eq hDrawn hOther hFits] at hRead
    exact (deserialize_iff_serialize hDrawn).mpr hRead

/-- The example of a container with larger limits for its list, for the strings in it and for its
bits. -/
def widerExample : Schema :=
  ⟨"Outer", [⟨"flag", .boolean⟩, ⟨"notes", .list (.byteList 300) 6⟩, ⟨"votes", .bitlist 64⟩,
    ⟨"inner", .container innerExample⟩], 12, false, 2⟩

/-- The bytes of the value of the example stand for it under both limits. -/
theorem reads_widerExample :
    outerExample.Drawn ∧ widerExample.Drawn ∧ outerExample.WidensTo widerExample ∧
      outerExample.serialize outerValue = .ok outerBytes ∧
      outerExample.validate outerValue = .ok () ∧
      widerExample.serialize outerValue = .ok outerBytes ∧
      widerExample.deserialize outerBytes = .ok outerValue ∧
      outerExample.deserialize outerBytes = .ok outerValue := by
  have hOther : widerExample.Drawn :=
    ⟨rfl, trivial, trivial, trivial, ⟨rfl, trivial, trivial, trivial⟩, trivial⟩
  have h : outerExample.WidensTo widerExample :=
    ⟨rfl, _, _, rfl, .same _, _, _, rfl, ⟨_, _, rfl, by decide, .byteList (by decide)⟩, _, _, rfl,
      .bitlist (by decide), _, _, rfl, ⟨_, rfl, rfl, _, _, rfl, .same _, _, _, rfl, .same _, rfl⟩,
      rfl⟩
  obtain ⟨hWrite, hRead, hBack⟩ :=
    reads_of_widensTo outerExample_drawn hOther h outerBytes outerValue
  have hWritten : outerExample.serialize outerValue = .ok outerBytes := by decide +kernel
  have hBytes : outerExample.deserialize outerBytes = .ok outerValue := by decide +kernel
  have hValid : outerExample.validate outerValue = .ok () := by decide +kernel
  exact ⟨outerExample_drawn, hOther, h, hWritten, hValid, hWrite hWritten, hRead hBytes,
    hBack (hRead hBytes) hValid⟩

end Schema

end BeaconSsz
