import BeaconSsz.Json.Record
import BeaconSsz.Proofs.Named
import BeaconSsz.Proofs.Text.Interface
import Mathlib.Data.List.Forall2
import Mathlib.Data.List.Perm.Subperm

/-!
# Spellings of JSON

JSON that is written for a value can be spelled in other ways: an integer without its quotes, the
digits of bytes in capital letters, and an object with its members in another order and with more
of them. Which spellings there are is said for the JSON alone; that exactly these are read as the
value is for later.
-/

namespace BeaconSsz

/-- The second JSON is a spelling of the first, which is of the form written for a value. -/
inductive Json.Respells : Json → Json → Prop
  | boolean (value : Bool) : Respells (boolean value) (boolean value)
  | string (content : String) : Respells (string content) (string content)
  /-- An integer that is a word can do without its quotes. -/
  | unquoted (n : UInt64) : Respells (string (toString n.toNat)) (natural n)
  /-- The digits behind `0x` can have letters of either case. -/
  | digits {written digits : List Char} (hcase : digits.map Char.toLower = written) :
      Respells (string (String.ofList ('0' :: 'x' :: written)))
        (string (String.ofList ('0' :: 'x' :: digits)))
  | array {written elements : List Json} (helements : List.Forall₂ Respells written elements) :
      Respells (array written) (array elements)
  /-- Every key has a spelling of its value, among whatever other keys and in any order. -/
  | object {written members : List (String × Json)} {found : List Json}
      (hfound : List.Forall₂ (fun key value => lookup key members = some value)
        (written.map Prod.fst) found)
      (hvalues : List.Forall₂ Respells (written.map Prod.snd) found) :
      Respells (object written) (object members)

namespace Json

/-- No number is shown with the marker of bytes in front. -/
theorem toString_ne_marked (n : ℕ) (digits : List Char) :
    toString n ≠ String.ofList ('0' :: 'x' :: digits) := by
  intro h
  have hcanonical := Decimal.isCanonical_toDigits n
  rw [← Nat.toList_repr, ← Nat.toString_eq_repr, h, String.toList_ofList] at hcanonical
  exact absurd hcanonical Bool.false_ne_true

/-- A boolean has one spelling. -/
theorem respells_boolean_iff {value : Bool} {json : Json} :
    (boolean value).Respells json ↔ json = boolean value := by
  constructor
  · intro h
    cases h
    rfl
  · rintro rfl
    exact .boolean value

/-- An integer is spelled as its decimal string, or without quotes if it is a word. -/
theorem respells_toString_iff {n : ℕ} {json : Json} :
    (string (toString n)).Respells json ↔
      json = string (toString n) ∨ ∃ word : UInt64, word.toNat = n ∧ json = natural word := by
  constructor
  · intro h
    generalize htext : toString n = text at h
    cases h with
    | string => exact .inl rfl
    | unquoted word => exact .inr ⟨word, (decimalText.write_inj.mp htext).symm, rfl⟩
    | digits => exact absurd htext (toString_ne_marked n _)
  · rintro (rfl | ⟨word, rfl, rfl⟩)
    · exact .string _
    · exact .unquoted word

/-- A byte string is spelled with its digits behind `0x`, in letters of either case. -/
theorem respells_ofBytes_iff {bytes : Bytes} {json : Json} :
    (ofBytes bytes).Respells json ↔
      ∃ digits, digits.map Char.toLower = Hex.encode bytes ∧
        json = string (String.ofList ('0' :: 'x' :: digits)) := by
  rw [ofBytes, Hex.markedText]
  constructor
  · intro h
    generalize htext : String.ofList ('0' :: 'x' :: Hex.encode bytes) = text at h
    cases h with
    | string => exact ⟨Hex.encode bytes, hexText.map_toLower_encode bytes, by rw [htext]⟩
    | unquoted word => exact absurd htext.symm (toString_ne_marked _ _)
    | digits hcase =>
      have hdigits := congrArg String.toList htext
      simp only [String.toList_ofList, List.cons.injEq, true_and] at hdigits
      exact ⟨_, hcase.trans hdigits.symm, rfl⟩
  · rintro ⟨digits, hcase, rfl⟩
    exact .digits hcase

/-- An array is spelled as an array of spellings. -/
theorem respells_array_iff {written : List Json} {json : Json} :
    (array written).Respells json ↔
      ∃ elements, json = array elements ∧ List.Forall₂ Respells written elements := by
  constructor
  · intro h
    cases h with
    | array helements => exact ⟨_, rfl, helements⟩
  · rintro ⟨elements, rfl, helements⟩
    exact .array helements

/-- An object is spelled as an object. -/
theorem exists_of_respells_object {written : List (String × Json)} {json : Json}
    (h : (object written).Respells json) : ∃ members, json = object members := by
  cases h
  exact ⟨_, rfl⟩

/-- Every object is a spelling of the empty one. -/
theorem respells_object_nil (members : List (String × Json)) :
    (object []).Respells (object members) :=
  .object .nil .nil

/-- One member more has a spelling of its value under its key. -/
theorem respells_object_cons {key : String} {value : Json} {written members : List (String × Json)} :
    (object ((key, value) :: written)).Respells (object members) ↔
      (∃ found, lookup key members = some found ∧ value.Respells found) ∧
        (object written).Respells (object members) := by
  constructor
  · intro h
    cases h with
    | object hfound hvalues =>
      cases hfound with
      | cons hkey hkeys =>
        cases hvalues with
        | cons hvalue hvalues => exact ⟨⟨_, hkey, hvalue⟩, .object hkeys hvalues⟩
  · rintro ⟨⟨_, hkey, hvalue⟩, h⟩
    cases h with
    | object hkeys hvalues => exact .object (.cons hkey hkeys) (.cons hvalue hvalues)

/-- A key has a value exactly when they are a member, if the keys are distinct. -/
theorem lookup_eq_some {members : List (String × Json)}
    (hdistinct : (members.map Prod.fst).Nodup) {key : String} {value : Json} :
    lookup key members = some value ↔ (key, value) ∈ members := by
  rw [lookup, Option.map_eq_some_iff]
  simp only [find?_name_eq_some hdistinct]
  constructor
  · rintro ⟨_, ⟨hmember, rfl⟩, rfl⟩
    exact hmember
  · intro hmember
    exact ⟨_, ⟨hmember, rfl⟩, rfl⟩

/-- Between objects, each with distinct keys, respelling means to put spellings of the values in
the places of the values, to add members, and to reorder them all. -/
theorem respells_object_iff_perm {written members : List (String × Json)}
    (hwritten : (written.map Prod.fst).Nodup) (hmembers : (members.map Prod.fst).Nodup) :
    (object written).Respells (object members) ↔
      ∃ respelled others, members.Perm (respelled ++ others) ∧
        respelled.map Prod.fst = written.map Prod.fst ∧
        List.Forall₂ Respells (written.map Prod.snd) (respelled.map Prod.snd) := by
  constructor
  · intro h
    cases h with
    | @object _ _ found hfound hvalues =>
      have hkeys : ((written.map Prod.fst).zip found).map Prod.fst = written.map Prod.fst :=
        List.map_fst_zip hfound.length_eq.le
      have hfrom : ((written.map Prod.fst).zip found).map Prod.snd = found :=
        List.map_snd_zip hfound.length_eq.ge
      have hsubset : (written.map Prod.fst).zip found ⊆ members := fun _ hmember =>
        (lookup_eq_some hmembers).mp (List.forall₂_zip hfound hmember)
      obtain ⟨respelled, hrespelled, hsublist⟩ :=
        (List.Nodup.of_map Prod.fst (hkeys.symm ▸ hwritten)).subperm hsubset
      obtain ⟨others, hperm⟩ := hsublist.exists_perm_append
      refine ⟨_, others, hperm.trans (hrespelled.append_right others), hkeys, ?_⟩
      rwa [hfrom]
  · rintro ⟨respelled, others, hperm, hkeys, hvalues⟩
    refine .object ?_ hvalues
    rw [← hkeys, List.forall₂_map_left_iff, List.forall₂_map_right_iff, List.forall₂_same]
    exact fun member hmember =>
      (lookup_eq_some hmembers).mpr (hperm.mem_iff.mpr (List.mem_append_left _ hmember))

end Json

end BeaconSsz
