import BeaconSsz.Proofs.Wire.Fit

/-!
# All-zero values and the memory for them

The all-zero value of a shape follows the shape. It fits a shape that is part of a drawn-up schema,
but a schema may ask for strings and sequences that are larger than a piece of memory can be. The
largest piece that an all-zero value takes can be told from its shape, and decides whether the
value is made at all.
-/

namespace BeaconSsz

mutual

/-- The all-zero value of a shape, whatever memory it takes. -/
def Shape.zeroValue : Shape → Value
  | .boolean => .boolean false
  | .uint width => if width ≤ 8 then .uint 0 else .big 0
  | .byteVector length => .bytes (Bytes.zeros length.toNat)
  | .bitvector length => .bits (List.replicate length.toNat false)
  | .byteList _ => .bytes []
  | .bitlist _ => .bits []
  | .vector element length => .sequence (List.replicate length.toNat element.zeroValue)
  | .list _ _ => .sequence []
  | .container schema => schema.zeroValue

/-- The container of the all-zero values of the fields. -/
def Schema.zeroValue : Schema → Value
  | ⟨_, fields, _, _, _⟩ => .container (Field.zeroValues fields)

/-- The all-zero values of fields. -/
def Field.zeroValues : List Field → List Value
  | [] => []
  | ⟨_, shape⟩ :: fields => shape.zeroValue :: Field.zeroValues fields

end

mutual

/-- The bytes of the largest piece of memory for a string or a sequence of the all-zero value. -/
def Shape.largestPiece : Shape → Nat
  | .byteVector length | .bitvector length => length.toNat
  | .vector element length => max element.largestPiece (length.toNat * Value.footprint)
  | .container schema => schema.largestPiece
  | .boolean | .uint _ | .byteList _ | .bitlist _ | .list _ _ => 0

/-- The bytes of the largest such piece for a container. -/
def Schema.largestPiece : Schema → Nat
  | ⟨_, fields, _, _, _⟩ => Field.largestPiece fields

/-- The bytes of the largest such piece for fields. -/
def Field.largestPiece : List Field → Nat
  | [] => 0
  | ⟨_, shape⟩ :: fields => max shape.largestPiece (Field.largestPiece fields)

end

namespace Memory

variable {α β : Type}

/-- An answer, if the largest piece of memory for it can be had. -/
def given (largest : Nat) (answer : α) : Except Trap α :=
  if largest < limit then .ok answer else .error .capacityOverflow

/-- An answer is given exactly if the pieces for it can be had. -/
theorem given_eq_ok {largest : Nat} {answer a : α} :
    given largest answer = .ok a ↔ largest < limit ∧ answer = a := by
  rw [given]
  split_ifs with h <;> simp [h]

/-- What is made of an answer takes no further piece. -/
theorem given_map (largest : Nat) (a : α) (f : α → β) :
    (do return f (← given largest a)) = given largest (f a) := by
  rw [given, given]
  split_ifs <;> rfl

/-- Pieces are asked for one after the other, and the larger one decides. -/
theorem given_bind {first second : Nat} {a : α} {b : β} {next : α → Except Trap β}
    (h : next a = given second b) : (given first a >>= next) = given (max first second) b := by
  by_cases hfirst : first < limit
  · have hboth : max first second < limit ↔ second < limit := by simp [hfirst]
    simp only [given, hboth, if_pos hfirst]
    exact h
  · have hboth : ¬ max first second < limit := fun hmax => hfirst (Nat.max_lt.mp hmax).1
    rw [given, given, if_neg hfirst, if_neg hboth]
    rfl

/-- Memory for items can be had if all of them take fewer bytes than the limit. -/
theorem reserve_bind (count size : Nat) (answer : α) :
    (do reserve count size; return answer) = given (count * size) answer := by
  rw [reserve, given]
  split_ifs <;> rfl

end Memory

mutual

/-- The all-zero value is made, if the largest piece of memory for it can be had. -/
theorem Shape.defaultValue_eq : (shape : Shape) →
    shape.defaultValue = Memory.given shape.largestPiece shape.zeroValue
  | .boolean | .uint _ | .byteList _ | .bitlist _ | .list _ _ => rfl
  | .byteVector length | .bitvector length => by
    rw [Shape.defaultValue, Shape.largestPiece, Shape.zeroValue, Memory.reserve_bind, Nat.mul_one]
  | .vector element length => by
    rw [Shape.defaultValue, Shape.largestPiece, Shape.zeroValue, Shape.defaultValue_eq element]
    exact Memory.given_bind (Memory.reserve_bind ..)
  | .container schema => by
    rw [Shape.defaultValue, Shape.largestPiece, Shape.zeroValue, Schema.defaultValue_eq schema]

/-- The all-zero container is made, if the largest piece of memory for it can be had. -/
theorem Schema.defaultValue_eq : (schema : Schema) →
    schema.defaultValue = Memory.given schema.largestPiece schema.zeroValue
  | ⟨_, fields, _, _, _⟩ => by
    rw [Schema.defaultValue, Schema.largestPiece, Schema.zeroValue, Field.defaultValues_eq fields]
    exact Memory.given_map _ _ _

/-- The all-zero fields are made, if the largest piece of memory for them can be had. -/
theorem Field.defaultValues_eq : (fields : List Field) →
    Field.defaultValues fields = Memory.given (Field.largestPiece fields) (Field.zeroValues fields)
  | [] => rfl
  | ⟨_, shape⟩ :: fields => by
    rw [Field.defaultValues, Field.largestPiece, Field.zeroValues, Shape.defaultValue_eq shape,
      Field.defaultValues_eq fields]
    exact Memory.given_bind (Memory.given_map _ _ _)

end

mutual

/-- The all-zero value of a shape fits it. -/
theorem Shape.fits_zeroValue : {shape : Shape} → shape.Sound → shape.Fits shape.zeroValue
  | .boolean, _ => trivial
  | .uint width, _ => by
    have hpos : 0 < 256 ^ width.toNat := Nat.pow_pos (by decide)
    rw [Shape.zeroValue]
    split
    · next hnarrow => exact ⟨hnarrow, hpos⟩
    · next hwide => exact ⟨UInt64.not_le.mp hwide, hpos⟩
  | .byteVector length, _ => List.length_replicate
  | .bitvector length, _ => List.length_replicate
  | .byteList _, _ | .bitlist _, _ => Nat.zero_le _
  | .vector element length, hSound => by
    rw [Shape.zeroValue, Shape.Fits]
    refine ⟨List.length_replicate, fun value hvalue => ?_⟩
    rw [List.eq_of_mem_replicate hvalue]
    exact Shape.fits_zeroValue hSound.2.1
  | .list _ _, _ => by
    rw [Shape.zeroValue, Shape.Fits]
    exact ⟨Nat.zero_le _, nofun⟩
  | .container schema, hSound => by
    rw [Shape.zeroValue, Shape.Fits]
    exact Schema.fits_zeroValue hSound

/-- The all-zero value of a schema fits it. -/
theorem Schema.fits_zeroValue : {schema : Schema} → schema.Sound → schema.Fits schema.zeroValue
  | ⟨_, _, _, _, _⟩, ⟨_, _, hFields, _⟩ => by
    rw [Schema.zeroValue]
    exact Field.allFit_zeroValues hFields

/-- The all-zero values of fields fit them. -/
theorem Field.allFit_zeroValues : {fields : List Field} → Field.AllSound fields →
    Field.AllFit fields (Field.zeroValues fields)
  | [], _ => trivial
  | ⟨_, _⟩ :: _, ⟨hShape, hFields⟩ =>
    ⟨Shape.fits_zeroValue hShape, Field.allFit_zeroValues hFields⟩

end

end BeaconSsz
