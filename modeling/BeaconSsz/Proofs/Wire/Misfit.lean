import BeaconSsz.Proofs.Result
import BeaconSsz.Proofs.Schema.Sound
import BeaconSsz.Wire.Encode

/-!
# The first bad place of a value

A place of a value is bad when its own check fails, whatever its parts are like. A value may be
bad in many places at once. Validation names one of them: the one that comes first when parents
precede their parts and parts are taken in order.

A place is found by its route, the positions of the parts that lead to it. Places stand in the
value as their routes do in a dictionary.
-/

namespace BeaconSsz

namespace Shape

/-- What the value's own check finds wrong under the shape, its parts left aside. -/
def misfit? : Shape → Value → Option EncodeCause
  | boolean, .boolean _ => none
  | uint width, .uint n =>
    if width ≤ 8 then outOfRange? n.toNat width.toNat else wrongKind (uint width) (.uint n)
  | uint width, .big n =>
    if 8 < width then outOfRange? n.toNat width.toNat else wrongKind (uint width) (.big n)
  | byteVector length, .bytes content => wrongLength? content.length length.toNat
  | byteList limit, .bytes content => tooLong? content.length limit.toNat
  | bitvector length, .bits content => wrongLength? content.length length.toNat
  | bitlist limit, .bits content => tooLong? content.length limit.toNat
  | vector _ length, .sequence elements => wrongLength? elements.length length.toNat
  | list _ limit, .sequence elements => tooLong? elements.length limit.toNat
  | container schema, .container values =>
    if values.length = schema.fields.length then none
    else some (.fieldCountMismatch schema.name values.length schema.fields.length)
  | shape, value => wrongKind shape value
where
  wrongKind (shape : Shape) (value : Value) : Option EncodeCause :=
    some (.typeMismatch shape.text value.kind)
  outOfRange? (n width : Nat) : Option EncodeCause :=
    if n < 256 ^ width then none else some (.uintOutOfRange n width)
  wrongLength? (count expected : Nat) : Option EncodeCause :=
    if count = expected then none else some (.lengthMismatch count expected)
  tooLong? (count limit : Nat) : Option EncodeCause :=
    if count ≤ limit then none else some (.tooManyElements count limit)

/-- The parts of the value to which the shape leads, in order: the step into each part, and the
shape and the value that meet there. -/
def parts : Shape → Value → List (Step × Shape × Value)
  | container schema, .container values =>
    List.zipWith (fun field part => (.field field.name, field.shape, part)) schema.fields values
  | vector element _, .sequence elements | list element _, .sequence elements =>
    elements.zipIdx.map fun numbered => (.index numbered.2, element, numbered.1)
  | _, _ => []

/-- A route leads from the value to a place in it, along the steps of a path. -/
inductive Reaches : Shape → Value → List Nat → Path → Shape → Value → Prop
  | here {shape : Shape} {value : Value} : Reaches shape value [] [] shape value
  | inward {shape inner innermost : Shape} {value part place : Value} {position : Nat}
      {route : List Nat} {step : Step} {path : Path}
      (hpart : (shape.parts value)[position]? = some (step, inner, part))
      (hplace : Reaches inner part route path innermost place) :
      Reaches shape value (position :: route) (step :: path) innermost place

/-- The place of one route comes before that of another: a place before its parts, and of two
parts the one at the lower position with everything in it. -/
def Precedes : List Nat → List Nat → Prop :=
  List.Lex (· < ·)

/-- The place at the end of the route is bad. -/
def BadAt (shape : Shape) (value : Value) (route : List Nat) (path : Path) (cause : EncodeCause) :
    Prop :=
  ∃ innermost place, Reaches shape value route path innermost place ∧
    innermost.misfit? place = some cause

/-- The error is that of the bad place that comes first. -/
def FirstBad (shape : Shape) (value : Value) (error : EncodeError) : Prop :=
  ∃ route, shape.BadAt value route error.path error.cause ∧
    ∀ route' path' cause', shape.BadAt value route' path' cause' →
      route = route' ∨ Precedes route route'

/-- A route leads to one place, by one path. -/
theorem Reaches.unique {shape innermost innermost' : Shape} {value place place' : Value}
    {route : List Nat} {path path' : Path} (h : Reaches shape value route path innermost place)
    (h' : Reaches shape value route path' innermost' place') :
    path = path' ∧ innermost = innermost' ∧ place = place' := by
  induction h generalizing path' with
  | here =>
    cases h'
    exact ⟨rfl, rfl, rfl⟩
  | inward hpart hplace ih =>
    obtain _ | ⟨hpart', hplace'⟩ := h'
    cases hpart.symm.trans hpart'
    obtain ⟨rfl, rfl, rfl⟩ := ih hplace'
    exact ⟨rfl, rfl, rfl⟩

/-- There is only one bad place that comes first. -/
theorem FirstBad.unique {shape : Shape} {value : Value} {error error' : EncodeError}
    (h : shape.FirstBad value error) (h' : shape.FirstBad value error') : error = error' := by
  obtain ⟨path, cause⟩ := error
  obtain ⟨path', cause'⟩ := error'
  obtain ⟨route, hbad, hfirst⟩ := h
  obtain ⟨route', hbad', hfirst'⟩ := h'
  obtain rfl : route = route' := by
    rcases hfirst _ _ _ hbad' with heq | hbefore
    · exact heq
    · rcases hfirst' _ _ _ hbad with heq | hafter
      · exact heq.symm
      · exact absurd hafter (List.lex_asymm Nat.lt_asymm hbefore)
  obtain ⟨innermost, place, hreaches, hcause⟩ := hbad
  obtain ⟨innermost', place', hreaches', hcause'⟩ := hbad'
  obtain ⟨rfl, rfl, rfl⟩ := hreaches.unique hreaches'
  cases hcause.symm.trans hcause'
  rfl

/-- Requires that a part of a value fits the shape that it is read through. -/
def validatePart (part : Step × Shape × Value) : Encoding Unit :=
  Encoding.within part.1 (part.2.1.validate part.2.2)

/-- The result of a check that has found a cause of failure, or none. -/
def verdict : Option EncodeCause → Encoding Unit
  | none => .ok ()
  | some cause => Encoding.fail cause

theorem checkExactLength_eq (count expected : Nat) :
    checkExactLength count expected = verdict (misfit?.wrongLength? count expected) := by
  unfold checkExactLength misfit?.wrongLength?
  split_ifs <;> rfl

theorem checkLimit_eq (count limit : Nat) :
    checkLimit count limit = verdict (misfit?.tooLong? count limit) := by
  unfold checkLimit misfit?.tooLong?
  split_ifs <;> rfl

/-- An integer of a value fits any number of bytes from 32 on. -/
theorem checkUint_eq {n : Nat} (hn : n < 256 ^ 32) (width : Nat) :
    checkUint n width = verdict (misfit?.outOfRange? n width) := by
  have hwide : 32 ≤ width → n < 256 ^ width := fun hwidth =>
    hn.trans_le (Nat.pow_le_pow_right (by decide) hwidth)
  have hfits : 32 ≤ width ∨ n < 256 ^ width ↔ n < 256 ^ width := by tauto
  unfold checkUint misfit?.outOfRange?
  rw [Nat.pow_eq, if_congr hfits rfl rfl]
  split_ifs <;> rfl

theorem verdict_eq_ok {found : Option EncodeCause} : verdict found = .ok () ↔ found = none := by
  cases found <;> simp [verdict]

theorem verdict_eq_error {found : Option EncodeCause} {error : EncodeError} :
    verdict found = .error error ↔ ∃ cause, found = some cause ∧ .here cause = error := by
  cases found <;> simp [verdict, Encoding.fail]

/-- Nothing more is asked of a value without parts. -/
theorem verdict_bind_ok (found : Option EncodeCause) :
    (verdict found >>= fun _ => .ok ()) = verdict found := by
  cases found <;> rfl

/-- Fields are validated part by part. -/
theorem validateAll_eq (fields : List Field) (values : List Value) :
    Field.validateAll fields values =
      (List.zipWith (fun field part => (.field field.name, field.shape, part)) fields values).forM
        validatePart := by
  induction fields generalizing values with
  | nil => rfl
  | cons field fields ih =>
    obtain ⟨name, shape⟩ := field
    cases values with
    | nil => rfl
    | cons value values => rw [Field.validateAll, ih]; rfl

/-- Elements are validated part by part. -/
theorem forElements_eq (element : Shape) (elements : List Value) :
    Encoding.forElements element.validate elements =
      (elements.zipIdx.map fun numbered => (.index numbered.2, element, numbered.1)).forM
        validatePart := by
  rw [List.forM_eq_forM, List.forM_map]
  rfl

/-- Validation checks the value itself, and then its parts in order. -/
theorem validate_eq (shape : Shape) (value : Value) :
    shape.validate value =
      (verdict (shape.misfit? value) >>= fun _ => (shape.parts value).forM validatePart) := by
  cases shape with
  | boolean => cases value <;> rfl
  | uint width =>
    cases value with
    | uint n =>
      rw [validate, misfit?, checkUint_eq (n.toNat_lt.trans_le (by decide))]
      split_ifs
      · exact (verdict_bind_ok _).symm
      · rfl
    | big n =>
      rw [validate, misfit?, checkUint_eq (n.isLt.trans_le (by decide))]
      split_ifs
      · exact (verdict_bind_ok _).symm
      · rfl
    | _ => rfl
  | byteVector =>
    cases value with
    | bytes => exact (checkExactLength_eq _ _).trans (verdict_bind_ok _).symm
    | _ => rfl
  | byteList =>
    cases value with
    | bytes => exact (checkLimit_eq _ _).trans (verdict_bind_ok _).symm
    | _ => rfl
  | bitvector =>
    cases value with
    | bits => exact (checkExactLength_eq _ _).trans (verdict_bind_ok _).symm
    | _ => rfl
  | bitlist =>
    cases value with
    | bits => exact (checkLimit_eq _ _).trans (verdict_bind_ok _).symm
    | _ => rfl
  | vector =>
    cases value with
    | sequence => rw [validate, checkExactLength_eq, forElements_eq]; rfl
    | _ => rfl
  | list =>
    cases value with
    | sequence => rw [validate, checkLimit_eq, forElements_eq]; rfl
    | _ => rfl
  | container schema =>
    obtain ⟨name, fields, _, _, _⟩ := schema
    cases value with
    | container values =>
      rw [validate, Schema.validateFields, containerFields, misfit?, parts, ← validateAll_eq]
      split_ifs <;> rfl
    | _ => rfl

/-- A value passes only if its own check finds nothing and every part passes. -/
theorem of_validate_eq_ok {shape : Shape} {value : Value} (h : shape.validate value = .ok ()) :
    shape.misfit? value = none ∧
      ∀ part ∈ shape.parts value, part.2.1.validate part.2.2 = .ok () := by
  rw [validate_eq, check_bind_eq_ok, verdict_eq_ok, forM_eq_ok] at h
  exact ⟨h.1, fun part hpart => Encoding.within_eq_ok.mp (h.2 part hpart)⟩

/-- How a value fails: by its own check, or else in the first part that does not pass. -/
inductive Fails (shape : Shape) (value : Value) : EncodeError → Prop
  | itself {cause : EncodeCause} (hcause : shape.misfit? value = some cause) :
      Fails shape value (.here cause)
  | inside {position : Nat} {step : Step} {inner : Shape} {part : Value} {error : EncodeError}
      (hnone : shape.misfit? value = none)
      (hpart : (shape.parts value)[position]? = some (step, inner, part))
      (herror : inner.validate part = .error error)
      (hbefore : ∀ earlier < position, ∀ before, (shape.parts value)[earlier]? = some before →
        before.2.1.validate before.2.2 = .ok ()) :
      Fails shape value (error.within step)

/-- A value that does not pass fails in one of the two ways. -/
theorem fails_of_validate {shape : Shape} {value : Value} {error : EncodeError}
    (h : shape.validate value = .error error) : shape.Fails value error := by
  rw [validate_eq, bind_eq_error, verdict_eq_error] at h
  rcases h with ⟨cause, hcause, rfl⟩ | ⟨_, hnone, h⟩
  · exact .itself hcause
  · obtain ⟨position, ⟨step, inner, part⟩, hpart, herror, hbefore⟩ := exists_of_forM_eq_error h
    rw [validatePart, Encoding.within_eq_error] at herror
    obtain ⟨partError, herror, rfl⟩ := herror
    exact .inside (verdict_eq_ok.mp hnone) hpart herror fun earlier hearlier before hget =>
      Encoding.within_eq_ok.mp (hbefore earlier hearlier before hget)

/-- Where a value passes, no place in it is bad. -/
theorem not_badAt_of_validate {shape : Shape} {value : Value} (h : shape.validate value = .ok ())
    (route : List Nat) (path : Path) (cause : EncodeCause) :
    ¬ shape.BadAt value route path cause := by
  rintro ⟨innermost, place, hreaches, hcause⟩
  induction hreaches with
  | here => exact Option.some_ne_none cause (hcause.symm.trans (of_validate_eq_ok h).1)
  | inward hpart _ ih => exact ih ((of_validate_eq_ok h).2 _ (List.mem_of_getElem? hpart)) hcause

/-- A bad place inside the first part that does not pass comes first in the whole value, if it
comes first in the part. -/
theorem FirstBad.inward {shape inner : Shape} {value part : Value} {position : Nat} {step : Step}
    {error : EncodeError} (hfirst : inner.FirstBad part error)
    (hnone : shape.misfit? value = none)
    (hpart : (shape.parts value)[position]? = some (step, inner, part))
    (hbefore : ∀ earlier < position, ∀ before, (shape.parts value)[earlier]? = some before →
      before.2.1.validate before.2.2 = .ok ()) :
    shape.FirstBad value (error.within step) := by
  obtain ⟨route, ⟨innermost, place, hreaches, hcause⟩, hfirst⟩ := hfirst
  refine ⟨position :: route, ⟨innermost, place, .inward hpart hreaches, hcause⟩, ?_⟩
  rintro route' path' cause' ⟨innermost', place', hreaches', hcause'⟩
  cases hreaches' with
  | here => exact absurd (hcause'.symm.trans hnone) (Option.some_ne_none cause')
  | @inward _ inner' _ _ part' _ position' route' _ path' hpart' hplace' =>
    have hbad : inner'.BadAt part' route' path' cause' := ⟨innermost', place', hplace', hcause'⟩
    rcases Nat.lt_trichotomy position position' with hlt | rfl | hgt
    · exact .inr (.rel hlt)
    · cases hpart.symm.trans hpart'
      exact (hfirst route' path' cause' hbad).imp (congrArg _) .cons
    · exact absurd hbad (not_badAt_of_validate (hbefore position' hgt _ hpart') _ _ _)

/-- Where a value fails, the error is that of the first bad place. The induction is on the path of
the error, which loses a step with every level. -/
theorem firstBad_of_validate {shape : Shape} {value : Value} {error : EncodeError}
    (h : shape.validate value = .error error) : shape.FirstBad value error := by
  obtain ⟨path, cause⟩ := error
  induction path generalizing shape value with
  | nil =>
    generalize herror : (⟨[], cause⟩ : EncodeError) = error at h
    cases fails_of_validate h with
    | itself hcause =>
      refine ⟨[], ⟨shape, value, .here, hcause⟩, fun route _ _ _ => ?_⟩
      cases route with
      | nil => exact .inl rfl
      | cons position route => exact .inr .nil
    | inside => cases herror
  | cons step path ih =>
    generalize herror : (⟨step :: path, cause⟩ : EncodeError) = error at h
    cases fails_of_validate h with
    | itself => cases herror
    | inside hnone hpart hinner hbefore =>
      cases herror
      exact (ih hinner).inward hnone hpart hbefore

/-- Validation passes exactly the values without bad places. -/
theorem validate_eq_ok_iff {shape : Shape} {value : Value} :
    shape.validate value = .ok () ↔ ∀ route path cause, ¬ shape.BadAt value route path cause := by
  refine ⟨not_badAt_of_validate, fun hgood => ?_⟩
  cases h : shape.validate value with
  | ok => rfl
  | error error =>
    obtain ⟨route, hbad, _⟩ := firstBad_of_validate h
    exact absurd hbad (hgood route _ _)

/-- Validation fails exactly with the error of the first bad place. -/
theorem validate_eq_error_iff {shape : Shape} {value : Value} {error : EncodeError} :
    shape.validate value = .error error ↔ shape.FirstBad value error := by
  refine ⟨firstBad_of_validate, fun hfirst => ?_⟩
  cases h : shape.validate value with
  | ok =>
    obtain ⟨route, hbad, _⟩ := hfirst
    exact absurd hbad (not_badAt_of_validate h _ _ _)
  | error error' => rw [(firstBad_of_validate h).unique hfirst]

end Shape

/-- Validation reports the first bad place: it passes exactly the values that are bad nowhere, and
else its error has the cause of the bad place that comes first, and the path to it behind the name
of the schema. -/
theorem Schema.validate_reports_first (schema : Schema) (value : Value) :
    (schema.validate value = .ok () ↔
      ∀ route path cause, ¬ (Shape.container schema).BadAt value route path cause) ∧
    ∀ error : EncodeError, schema.validate value = .error error ↔
      ∃ path, error.path = .field schema.name :: path ∧
        (Shape.container schema).FirstBad value ⟨path, error.cause⟩ := by
  have hfields : schema.validateFields value = (Shape.container schema).validate value := by
    rw [Shape.validate]
  refine ⟨?_, fun error => ?_⟩
  · rw [validate, Encoding.within_eq_ok, hfields, Shape.validate_eq_ok_iff]
  · rw [validate, Encoding.within_eq_error, hfields]
    simp only [Shape.validate_eq_error_iff]
    obtain ⟨path, cause⟩ := error
    apply Iff.intro
    · rintro ⟨inner, hfirst, herror⟩
      cases herror
      exact ⟨inner.path, rfl, hfirst⟩
    · rintro ⟨inner, hpath, hfirst⟩
      cases hpath
      exact ⟨⟨inner, cause⟩, hfirst, rfl⟩

example :
    outerExample.validate (.container
      [.boolean true, .sequence [.bytes [1], .bits [], .boolean true], .uint 3, .sequence []]) =
      .error ⟨[.field "Outer", .field "notes", .index 1], .typeMismatch "ByteList[8]" "bits"⟩ := by
  decide +kernel

end BeaconSsz
