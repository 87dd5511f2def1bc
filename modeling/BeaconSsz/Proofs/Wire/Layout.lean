import BeaconSsz.Proofs.Wire.FixedPart

/-!
# The layout of items

A container and a sequence are laid out alike: a row of slots, and behind it the bodies of the
items of variable size. How many bytes that makes and where each body starts follow from the sizes
of the items alone. Items can be joined exactly if every body starts where an offset can say.
-/

namespace BeaconSsz

/-- A field or an element, as far as it decides where the others lie. -/
structure Item where
  isFixed : Bool
  size : Nat

namespace Item

/-- The item that an encoding is. -/
def ofEncoding (encoding : Bool × Bytes) : Item :=
  ⟨encoding.1, encoding.2.length⟩

/-- The items that elements are, all of fixed size or all of variable size. -/
def ofElements (isFixed : Bool) (size : Value → Nat) (elements : List Value) : List Item :=
  elements.map fun value => ⟨isFixed, size value⟩

/-- The bytes that the item takes in front of all bodies. -/
def slot (item : Item) : Nat :=
  if item.isFixed then item.size else offsetLength

/-- The bytes that the item takes behind all slots. -/
def body (item : Item) : Nat :=
  if item.isFixed then 0 else item.size

/-- The bytes of the slots of items. -/
def slots (items : List Item) : Nat :=
  (items.map slot).sum

/-- The bytes of the bodies of items. -/
def bodies (items : List Item) : Nat :=
  (items.map body).sum

/-- The bytes of all items together. -/
def total (items : List Item) : Nat :=
  slots items + bodies items

/-- An item of variable size starts so far behind the start of its container that no offset says
where: behind all slots and the bodies in front of it. -/
def OutOfReach (items : List Item) : Prop :=
  ∃ front item behind, items = front ++ item :: behind ∧ item.isFixed = false ∧
    2 ^ 32 ≤ slots items + bodies front

/-- What holds of every element and the elements in front of it holds of the first one, and of
every later one with the first one in front. -/
theorem forall_split_cons {α : Type} {P : List α → α → Prop} {x : α} {xs : List α} :
    (∀ front y behind, x :: xs = front ++ y :: behind → P front y) ↔
      P [] x ∧ ∀ front y behind, xs = front ++ y :: behind → P (x :: front) y := by
  apply Iff.intro
  · intro h
    exact ⟨h [] x xs rfl, fun front y behind hxs => h (x :: front) y behind (by rw [hxs]; rfl)⟩
  · intro h front y behind hsplit
    cases front with
    | nil =>
      rw [List.nil_append, List.cons.injEq] at hsplit
      exact hsplit.1 ▸ h.1
    | cons z front =>
      rw [List.cons_append, List.cons.injEq] at hsplit
      exact hsplit.1 ▸ h.2 front y behind hsplit.2

/-- The bodies are counted one after the other. -/
theorem bodies_cons (item : Item) (items : List Item) :
    bodies (item :: items) = item.body + bodies items := by
  rw [bodies, List.map_cons, List.sum_cons, bodies]

/-- Items are within reach if every one of variable size starts at a smaller place. -/
theorem not_outOfReach {items : List Item} :
    ¬ OutOfReach items ↔
      ∀ front item behind, items = front ++ item :: behind →
        item.isFixed = false → slots items + bodies front < offsetLimit := by
  simp only [OutOfReach, not_exists, not_and, not_le]
  exact Iff.rfl

end Item

section Joined

variable {encoded : List (Bool × Bytes)}

/-- The written slots take the bytes counted for them. -/
theorem headSize_fixedPartOf (encoded : List (Bool × Bytes)) :
    headSize (encoded.map fixedPartOf) = Item.slots (encoded.map Item.ofEncoding) := by
  induction encoded with
  | nil => rfl
  | cons encoding encoded ih =>
    obtain ⟨isFixed, bytes⟩ := encoding
    rw [List.map_cons, headSize, ih, List.map_cons, Item.slots, Item.slots, List.map_cons,
      List.sum_cons]
    cases isFixed <;> rfl

/-- The written bodies take the bytes counted for them. -/
theorem length_bodies (encoded : List (Bool × Bytes)) :
    (encoded.filterMap bodyOf?).flatten.length = Item.bodies (encoded.map Item.ofEncoding) := by
  induction encoded with
  | nil => rfl
  | cons encoding encoded ih =>
    obtain ⟨isFixed, bytes⟩ := encoding
    rw [List.map_cons, Item.bodies_cons, ← ih]
    cases isFixed <;> simp [bodyOf?, Item.body, Item.ofEncoding]

/-- The offsets are the places where the items of variable size start. -/
theorem runningOffsets_bodies_lt {start : Nat} :
    (∀ offset ∈ runningOffsets start (encoded.filterMap bodyOf?), offset < offsetLimit) ↔
      ∀ front item behind, encoded.map Item.ofEncoding = front ++ item :: behind →
        item.isFixed = false → start + Item.bodies front < offsetLimit := by
  induction encoded generalizing start with
  | nil => simp [runningOffsets]
  | cons encoding encoded ih =>
    obtain ⟨isFixed, bytes⟩ := encoding
    rw [List.map_cons, Item.forall_split_cons]
    simp only [Item.bodies_cons, ← Nat.add_assoc]
    rw [← ih]
    cases isFixed with
    | true => simp [bodyOf?, Item.ofEncoding, Item.body]
    | false => simp [bodyOf?, Item.ofEncoding, Item.body, Item.bodies, runningOffsets]

/-- Encodings can be joined exactly if the items are within reach. -/
theorem exists_joinItems_iff :
    (∃ bytes, joinItems (encoded.map fixedPartOf) (encoded.filterMap bodyOf?) = .ok bytes) ↔
      ¬ Item.OutOfReach (encoded.map Item.ofEncoding) := by
  simp only [joinItems_eq_ok (openCount_fixedPartOf encoded), exists_and_left, exists_eq', and_true]
  rw [runningOffsets_bodies_lt, Item.not_outOfReach, headSize_fixedPartOf]

/-- Joined encodings take the bytes counted for the items. -/
theorem length_of_joinItems {bytes : Bytes}
    (h : joinItems (encoded.map fixedPartOf) (encoded.filterMap bodyOf?) = .ok bytes) :
    bytes.length = Item.total (encoded.map Item.ofEncoding) := by
  obtain ⟨-, rfl⟩ := (joinItems_eq_ok (openCount_fixedPartOf encoded)).mp h
  rw [List.length_append, length_fillHead, headSize_fixedPartOf, length_bodies, Item.total]

/-- Parts that are all given are put together. -/
theorem fillHead_given (items : List Bytes) (offsets : List Nat) :
    fillHead (items.map some) offsets = items.flatten := by
  induction items with
  | nil => rfl
  | cons item items ih => rw [List.map_cons, fillHead, ih, List.flatten_cons]

/-- Items that are all given are joined one after the other. -/
theorem joinItems_given (items : List Bytes) :
    joinItems (items.map some) [] = .ok items.flatten := by
  have hcount : openCount (items.map some) = ([] : List Bytes).length := by simp [openCount]
  rw [joinItems_eq_ok hcount, fillHead_given, List.flatten_nil, List.append_nil]
  exact ⟨fun offset hoffset => absurd hoffset List.not_mem_nil, rfl⟩

/-- Elements are joined like fields of one shape. -/
theorem joinElements_eq_joinItems (isFixed : Bool) (items : List Bytes) :
    joinElements isFixed items =
      joinItems ((items.map (isFixed, ·)).map fixedPartOf)
        ((items.map (isFixed, ·)).filterMap bodyOf?) := by
  rw [List.map_map, List.filterMap_map]
  cases isFixed with
  | true =>
    have hparts : items.map (fixedPartOf ∘ (true, ·)) = items.map some := rfl
    have hbodies : items.filterMap (bodyOf? ∘ (true, ·)) = [] := by simp [bodyOf?]
    rw [hparts, hbodies, joinItems_given, joinElements, if_pos rfl]
  | false =>
    have hbodies : items.filterMap (bodyOf? ∘ (false, ·)) = items := List.filterMap_some
    rw [hbodies]
    rfl

end Joined

end BeaconSsz
