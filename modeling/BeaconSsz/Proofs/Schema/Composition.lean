import BeaconSsz.Proofs.Registry.Definitions
import BeaconSsz.Proofs.Schema.Resolve

/-!
# Descriptors derived field by field

A descriptor whose fields have distinct names is changed one field at a time. What a change makes
of the fields can be said without their positions: it puts a field behind the others, takes one
out, or exchanges one in its place. It is refused when the field that it names is absent, or the
name that it brings in belongs to another field. So the names stay distinct through any sequence
of changes, refused ones among them, and resolving the result never finds a repeated name.
-/

namespace BeaconSsz

/-- What a change makes of the fields; all other fields stay as they are, in their order. -/
def Edit.Changes : Edit → List (String × Form) → List (String × Form) → Prop
  | .add field form, before, after =>
    field ∉ before.map Prod.fst ∧ after = before ++ [(field, form)]
  | .remove field, before, after =>
    ∃ front form behind, before = front ++ (field, form) :: behind ∧ after = front ++ behind
  | .retype field form, before, after =>
    ∃ front old behind, before = front ++ (field, old) :: behind ∧
      after = front ++ (field, form) :: behind
  | .replace field newName form, before, after =>
    ∃ front old behind, before = front ++ (field, old) :: behind ∧
      (newName ∈ before.map Prod.fst → newName = field) ∧
      after = front ++ (newName, form) :: behind

/-- A change of fields of these names is refused with the fault. -/
def Edit.Refused (container : String) (names : List String) : Edit → SchemaError → Prop
  | .add field _, fault => field ∈ names ∧ .duplicateField container field = fault
  | .remove field, fault | .retype field _, fault =>
    field ∉ names ∧ .unknownField container field = fault
  | .replace field newName _, fault =>
    field ∉ names ∧ .unknownField container field = fault ∨
      field ∈ names ∧ (newName ∈ names ∧ newName ≠ field) ∧
        .duplicateField container newName = fault

/-- A change of fields of distinct names keeps the names distinct. -/
theorem Edit.Changes.nodup {change : Edit} {before after : List (String × Form)}
    (h : change.Changes before after) (hdistinct : (before.map Prod.fst).Nodup) :
    (after.map Prod.fst).Nodup := by
  cases change with
  | add field form =>
    obtain ⟨hnew, rfl⟩ := h
    rw [List.map_append, List.map_singleton, ← List.concat_eq_append]
    exact hdistinct.concat hnew
  | remove field =>
    obtain ⟨front, form, behind, rfl, rfl⟩ := h
    rw [List.map_append, List.map_cons, List.nodup_middle, List.nodup_cons] at hdistinct
    rw [List.map_append]
    exact hdistinct.2
  | retype field form =>
    obtain ⟨front, old, behind, rfl, rfl⟩ := h
    rwa [List.map_append, List.map_cons] at hdistinct ⊢
  | replace field newName form =>
    obtain ⟨front, old, behind, rfl, hnew, rfl⟩ := h
    rw [List.map_append, List.map_cons] at hdistinct hnew ⊢
    rw [List.nodup_middle, List.nodup_cons] at hdistinct ⊢
    refine ⟨fun hold => ?_, hdistinct.2⟩
    -- A name among the other fields can only be the one that is given up, which is not there.
    obtain rfl : newName = field := hnew (List.perm_middle.mem_iff.mpr (.tail _ hold))
    exact hdistinct.1 hold

namespace Descriptor

variable {descriptor changed : Descriptor} {field : String} {position : Nat}

/-- The names of the fields, in order. -/
def fieldNames (descriptor : Descriptor) : List String :=
  descriptor.fields.map Prod.fst

/-- The names are those of the fields, each in its place. -/
theorem mem_fieldNames :
    field ∈ descriptor.fieldNames ↔
      ∃ front form behind, descriptor.fields = front ++ (field, form) :: behind := by
  rw [fieldNames, List.mem_map]
  apply Iff.intro
  · rintro ⟨⟨_, form⟩, hmem, rfl⟩
    obtain ⟨front, behind, hfields⟩ := List.append_of_mem hmem
    exact ⟨front, form, behind, hfields⟩
  · rintro ⟨front, form, behind, hfields⟩
    exact ⟨(field, form), hfields ▸ List.mem_append_cons_self, rfl⟩

/-- A name has no position exactly when no field has it. -/
theorem position?_eq_none : descriptor.position? field = none ↔ field ∉ descriptor.fieldNames := by
  rw [position?, List.findIdx?_eq_none_iff, fieldNames, List.mem_map, not_exists]
  simp only [beq_eq_false_iff_ne, not_and]

/-- Among distinct names, a field is found where it lies. -/
theorem position?_of_fields (hdistinct : descriptor.fieldNames.Nodup)
    {front behind : List (String × Form)} {form : Form}
    (h : descriptor.fields = front ++ (field, form) :: behind) :
    descriptor.position? field = some front.length := by
  rw [fieldNames, h, List.map_append, List.map_cons, List.nodup_middle, List.nodup_cons,
    List.mem_append, not_or] at hdistinct
  have hfront : front.findIdx? (·.1 == field) = none := by
    rw [List.findIdx?_eq_none_iff]
    intro other hother
    rw [beq_eq_false_iff_ne]
    rintro rfl
    exact hdistinct.1.1 (List.mem_map.mpr ⟨other, hother, rfl⟩)
  rw [position?, h, List.findIdx?_append, hfront, List.findIdx?_cons]
  simp

/-- Asking for the position of a field fails exactly when there is none of its name. -/
theorem positionOf_eq_error {fault : SchemaError} :
    descriptor.positionOf field = .error fault ↔
      field ∉ descriptor.fieldNames ∧ .unknownField descriptor.name field = fault := by
  rw [← position?_eq_none, positionOf]
  cases descriptor.position? field <;> simp

/-- Whatever goes on at the position of a field gives an answer only if there is such a field. -/
theorem mem_of_positionOf_bind {next : Nat → Except SchemaError Descriptor}
    (h : (descriptor.positionOf field >>= next) = .ok changed) : field ∈ descriptor.fieldNames := by
  by_contra hmem
  rw [positionOf_eq_error.mpr ⟨hmem, rfl⟩] at h
  cases h

section Split

variable {front behind : List (String × Form)} {old : Form}

/-- Among distinct names, the position of a field is the number of fields in front of it. -/
theorem positionOf_of_fields (hdistinct : descriptor.fieldNames.Nodup)
    (hfields : descriptor.fields = front ++ (field, old) :: behind) :
    descriptor.positionOf field = .ok front.length := by
  rw [positionOf, position?_of_fields hdistinct hfields]

/-- Removing a field leaves those in front of it and behind it. -/
theorem remove_of_fields (hdistinct : descriptor.fieldNames.Nodup)
    (hfields : descriptor.fields = front ++ (field, old) :: behind) :
    descriptor.remove field = .ok { descriptor with fields := front ++ behind } := by
  have hplace : descriptor.fields.eraseIdx front.length = front ++ behind := by
    rw [hfields, List.eraseIdx_append_of_length_le le_rfl, Nat.sub_self, List.eraseIdx_cons_zero]
  rw [remove, positionOf_of_fields hdistinct hfields, ← hplace]
  rfl

/-- Retyping a field puts the new form in its place. -/
theorem retype_of_fields (hdistinct : descriptor.fieldNames.Nodup)
    (hfields : descriptor.fields = front ++ (field, old) :: behind) (form : Form) :
    descriptor.retype field form =
      .ok { descriptor with fields := front ++ (field, form) :: behind } := by
  rw [retype, positionOf_of_fields hdistinct hfields]
  simp [hfields, List.modify_eq_set_getElem?, Bind.bind, Except.bind, pure, Except.pure]

/-- Replacing a field puts the new one in its place, unless the new name is that of another
field. -/
theorem replace_of_fields (hdistinct : descriptor.fieldNames.Nodup)
    (hfields : descriptor.fields = front ++ (field, old) :: behind) (newName : String)
    (form : Form) :
    descriptor.replace field newName form =
      if newName ∈ descriptor.fieldNames ∧ newName ≠ field then
        .error (.duplicateField descriptor.name newName)
      else .ok { descriptor with fields := front ++ (newName, form) :: behind } := by
  have hplace : descriptor.fields.set front.length (newName, form) =
      front ++ (newName, form) :: behind := by
    rw [hfields, List.set_append_right _ _ le_rfl, Nat.sub_self, List.set_cons_zero]
  rw [replace, positionOf_of_fields hdistinct hfields, ← hplace]
  by_cases hmem : newName ∈ descriptor.fieldNames
  · obtain ⟨front', form', behind', hfields'⟩ := mem_fieldNames.mp hmem
    -- The two places are one exactly if the two names are.
    have hsame : front'.length = front.length ↔ newName = field := by
      apply Iff.intro
      · intro hlength
        have hrest := (List.append_inj (hfields'.symm.trans hfields) hlength).2
        exact congrArg Prod.fst (List.cons.inj hrest).1
      · rintro rfl
        exact Option.some.inj ((position?_of_fields hdistinct hfields').symm.trans
          (position?_of_fields hdistinct hfields))
    rw [position?_of_fields hdistinct hfields']
    by_cases hname : newName = field
    · rw [if_neg fun h => h.2 hname, hsame.mpr hname]
      simp [Bind.bind, Except.bind, pure, Except.pure]
    · rw [if_pos ⟨hmem, hname⟩]
      simp [Bind.bind, Except.bind, bne_iff_ne.mpr (mt hsame.mp hname), throw, throwThe,
        MonadExceptOf.throw]
  · rw [if_neg fun h => hmem h.1, position?_eq_none.mpr hmem]
    rfl

end Split

/-- What a change of a descriptor with distinct names gives. -/
theorem edit_eq_ok (hdistinct : descriptor.fieldNames.Nodup) {change : Edit} :
    descriptor.edit change = .ok changed ↔
      changed.name = descriptor.name ∧ change.Changes descriptor.fields changed.fields := by
  have hchanged {fields : List (String × Form)} :
      (.ok { descriptor with fields } : Except SchemaError Descriptor) = .ok changed ↔
        changed.name = descriptor.name ∧ changed.fields = fields := by
    cases changed
    simp only [Except.ok.injEq, mk.injEq, eq_comm]
  cases change with
  | add field form =>
    rw [edit, add, Edit.Changes, ← fieldNames, ← position?_eq_none]
    cases descriptor.position? field with
    | none => simp only [declare, hchanged, true_and]
    | some position => simp
  | remove field =>
    apply Iff.intro
    · intro h
      obtain ⟨front, form, behind, hfields⟩ := mem_fieldNames.mp (mem_of_positionOf_bind h)
      rw [edit, remove_of_fields hdistinct hfields, hchanged] at h
      exact ⟨h.1, front, form, behind, hfields, h.2⟩
    · rintro ⟨hname, front, form, behind, hfields, hresult⟩
      rw [edit, remove_of_fields hdistinct hfields, hchanged]
      exact ⟨hname, hresult⟩
  | retype field form =>
    apply Iff.intro
    · intro h
      obtain ⟨front, old, behind, hfields⟩ := mem_fieldNames.mp (mem_of_positionOf_bind h)
      rw [edit, retype_of_fields hdistinct hfields, hchanged] at h
      exact ⟨h.1, front, old, behind, hfields, h.2⟩
    · rintro ⟨hname, front, old, behind, hfields, hresult⟩
      rw [edit, retype_of_fields hdistinct hfields, hchanged]
      exact ⟨hname, hresult⟩
  | replace field newName form =>
    apply Iff.intro
    · intro h
      obtain ⟨front, old, behind, hfields⟩ := mem_fieldNames.mp (mem_of_positionOf_bind h)
      rw [edit, replace_of_fields hdistinct hfields] at h
      split_ifs at h with htaken
      rw [hchanged] at h
      exact ⟨h.1, front, old, behind, hfields, not_and_not_right.mp htaken, h.2⟩
    · rintro ⟨hname, front, old, behind, hfields, hfree, hresult⟩
      rw [edit, replace_of_fields hdistinct hfields, if_neg fun h => h.2 (hfree h.1), hchanged]
      exact ⟨hname, hresult⟩

/-- Why a change of a descriptor with distinct names is refused. -/
theorem edit_eq_error (hdistinct : descriptor.fieldNames.Nodup) {change : Edit}
    {fault : SchemaError} :
    descriptor.edit change = .error fault ↔
      change.Refused descriptor.name descriptor.fieldNames fault := by
  cases change with
  | add field form =>
    rw [edit, add, Edit.Refused, ← not_not (a := field ∈ _), ← position?_eq_none]
    cases descriptor.position? field <;> simp
  | remove field | retype field form =>
    simp only [edit, remove, retype, bind_eq_error, positionOf_eq_error, Edit.Refused, pure,
      Except.pure, reduceCtorEq, and_false, exists_false, or_false]
  | replace field newName form =>
    rw [edit, Edit.Refused]
    by_cases hmem : field ∈ descriptor.fieldNames
    · obtain ⟨front, old, behind, hfields⟩ := mem_fieldNames.mp hmem
      rw [replace_of_fields hdistinct hfields]
      split_ifs with htaken
      · simp [hmem, htaken.1, htaken.2]
      · simp [hmem, htaken]
    · rw [replace, positionOf_eq_error.mpr ⟨hmem, rfl⟩]
      simp [hmem, Bind.bind, Except.bind]

/-- Makes a change, or leaves the descriptor as it was if the change is refused. -/
def tryEdit (descriptor : Descriptor) (change : Edit) : Descriptor :=
  match descriptor.edit change with
  | .ok changed => changed
  | .error _ => descriptor

/-- Tries changes in order. -/
def tryEdits (descriptor : Descriptor) (changes : List Edit) : Descriptor :=
  changes.foldl tryEdit descriptor

/-- Trying a change keeps the name of the record, and distinct names distinct. -/
theorem tryEdit_preserves (hdistinct : descriptor.fieldNames.Nodup) (change : Edit) :
    (descriptor.tryEdit change).name = descriptor.name ∧
      (descriptor.tryEdit change).fieldNames.Nodup := by
  rw [tryEdit]
  cases h : descriptor.edit change with
  | error fault => exact ⟨rfl, hdistinct⟩
  | ok changed =>
    obtain ⟨hname, hchanges⟩ := (edit_eq_ok hdistinct).mp h
    exact ⟨hname, hchanges.nodup hdistinct⟩

/-- Trying any changes keeps the name of the record, and distinct names distinct. -/
theorem tryEdits_preserves (hdistinct : descriptor.fieldNames.Nodup) (changes : List Edit) :
    (descriptor.tryEdits changes).name = descriptor.name ∧
      (descriptor.tryEdits changes).fieldNames.Nodup := by
  induction changes generalizing descriptor with
  | nil => exact ⟨rfl, hdistinct⟩
  | cons change changes ih =>
    obtain ⟨hname, hnext⟩ := tryEdit_preserves hdistinct change
    obtain ⟨hnames, hlast⟩ := ih hnext
    exact ⟨hnames.trans hname, hlast⟩

end Descriptor

namespace Definitions

variable {definitions : Definitions} {descriptor : Descriptor}

/-- The definitions after trying changes of a record in order, whether they are made or refused. -/
def afterChanges (definitions : Definitions) (name : String) (changes : List Edit) : Definitions :=
  changes.foldl (fun current change => (current.modify name (·.edit change)).2) definitions

/-- Trying a change of a defined record tries it on the descriptor and on nothing else. -/
theorem get?_modify (hget : definitions.get? descriptor.name = some descriptor) (change : Edit)
    (name : String) :
    (definitions.modify descriptor.name (·.edit change)).2.get? name =
      if name = descriptor.name then some (descriptor.tryEdit change)
      else definitions.get? name := by
  rw [Descriptor.tryEdit]
  cases h : descriptor.edit change with
  | error fault =>
    rw [modify_of_refused hget h]
    split_ifs with hname
    · rw [hname, hget]
    · rfl
  | ok changed =>
    have hname := Descriptor.name_of_edit h
    rw [modify_of_changed hget h hname, get?_insert, hname]

/-- Trying a change of a defined record keeps the fork. -/
theorem fork_modify (hget : definitions.get? descriptor.name = some descriptor) (change : Edit) :
    (definitions.modify descriptor.name (·.edit change)).2.fork = definitions.fork := by
  cases h : descriptor.edit change with
  | error fault => rw [modify_of_refused hget h]
  | ok changed =>
    rw [modify_of_changed hget h (Descriptor.name_of_edit h)]
    rfl

/-- Trying changes of a defined record in order tries them on the descriptor and on nothing
else, at the same fork. -/
theorem afterChanges_eq (hget : definitions.get? descriptor.name = some descriptor)
    (hdistinct : descriptor.fieldNames.Nodup) (changes : List Edit) :
    (definitions.afterChanges descriptor.name changes).fork = definitions.fork ∧
      ∀ name, (definitions.afterChanges descriptor.name changes).get? name =
        if name = descriptor.name then some (descriptor.tryEdits changes)
        else definitions.get? name := by
  induction changes generalizing definitions descriptor with
  | nil =>
    refine ⟨rfl, fun name => ?_⟩
    split_ifs with hname
    · exact hname ▸ hget
    · rfl
  | cons change changes ih =>
    obtain ⟨hname, hnext⟩ := Descriptor.tryEdit_preserves hdistinct change
    have hchanged : (definitions.modify descriptor.name (·.edit change)).2.get?
        (descriptor.tryEdit change).name = some (descriptor.tryEdit change) := by
      rw [get?_modify hget, if_pos hname]
    obtain ⟨hfork, hnames⟩ := ih hchanged hnext
    rw [hname] at hfork hnames
    refine ⟨hfork.trans (fork_modify hget change), fun name => ?_⟩
    rw [afterChanges, List.foldl_cons, ← afterChanges, hnames, get?_modify hget]
    split_ifs <;> rfl

end Definitions

/-- The computation does not blame a repeated field. -/
def NeverRepeated {α : Type} (result : Except (Stop SchemaError) α) : Prop :=
  ∀ container field, result ≠ Stop.refuse (.duplicateField container field)

section NeverRepeated

variable {α β : Type}

/-- An answer blames nothing. -/
theorem neverRepeated_pure (a : α) : NeverRepeated (pure a) := by
  intro container field h
  cases h

/-- A trap blames nothing. -/
theorem neverRepeated_orTrap (result : Except Trap α) : NeverRepeated (Stop.orTrap result) := by
  intro container field
  cases result <;> simp [Stop.orTrap, Stop.refuse, Except.mapError]

/-- A refusal for another reason does not blame a repeated field. -/
theorem neverRepeated_refuse {error : SchemaError}
    (h : ∀ container field, error ≠ .duplicateField container field) :
    NeverRepeated (Stop.refuse error : Except (Stop SchemaError) α) := by
  intro container field hrefuse
  rw [Stop.refuse, Stop.refuse, Except.error.injEq, Stop.refused.injEq] at hrefuse
  exact h container field hrefuse

/-- The first of two steps blames no repeated field, and neither does the second one. -/
theorem NeverRepeated.bind {x : Except (Stop SchemaError) α} {f : α → Except (Stop SchemaError) β}
    (hx : NeverRepeated x) (hf : ∀ a, NeverRepeated (f a)) : NeverRepeated (x >>= f) := by
  intro container field h
  rw [Stop.refuse, bind_eq_error] at h
  rcases h with h | ⟨a, -, h⟩
  · exact hx container field h
  · exact hf a container field h

end NeverRepeated

namespace Shape

variable {container field : String}

/-- An empty shape is refused as such. -/
theorem neverRepeated_refuseZero (shape : Shape) :
    NeverRepeated (refuseZero container field shape) :=
  (neverRepeated_orTrap _).bind fun _ => neverRepeated_refuse (by simp)

/-- A shape with a size that is not a word is refused as such. -/
theorem neverRepeated_checkSizes (shape : Shape) :
    NeverRepeated (checkSizes container field shape) := by
  have hverdict (fits : Bool) : NeverRepeated (if fits = true then pure () else do
      let text ← Stop.orTrap shape.render
      Stop.refuse (.boundNotRepresentable container field text)) := by
    split
    · exact neverRepeated_pure ()
    · exact (neverRepeated_orTrap _).bind fun _ => neverRepeated_refuse (by simp)
  unfold checkSizes
  refine (neverRepeated_orTrap _).bind fun slot => ?_
  split
  · exact hverdict false
  · exact (neverRepeated_orTrap _).bind fun limit => hverdict limit.isSome

/-- Checking a shape never blames a repeated field. -/
theorem neverRepeated_check : (shape : Shape) → NeverRepeated (shape.check container field)
  | .boolean | .byteList _ | .bitlist _ | .container _ => neverRepeated_checkSizes _
  | .uint width => by
    rw [check]
    split
    · exact neverRepeated_checkSizes _
    · exact neverRepeated_refuse (by simp)
  | .byteVector length | .bitvector length => by
    rw [check]
    split
    · exact neverRepeated_refuseZero _
    · exact neverRepeated_checkSizes _
  | .vector element length => by
    rw [check]
    split
    · exact neverRepeated_refuseZero _
    · exact (neverRepeated_check element).bind fun _ => neverRepeated_checkSizes _
  | .list element limit => by
    rw [check]
    exact (neverRepeated_check element).bind fun _ => neverRepeated_checkSizes _

end Shape

namespace Schema

/-- Fields of distinct names that were not seen before are not blamed for a repeated name. -/
theorem neverRepeated_checkFields {container : String} {seen : List String} {fields : List Field}
    (hdistinct : (fields.map Field.name).Nodup)
    (hnew : ∀ name ∈ fields.map Field.name, name ∉ seen) :
    NeverRepeated (checkFields container seen fields) := by
  induction fields generalizing seen with
  | nil => exact neverRepeated_pure ()
  | cons field fields ih =>
    rw [List.map_cons, List.nodup_cons] at hdistinct
    rw [List.map_cons, List.forall_mem_cons] at hnew
    rw [checkFields, if_neg hnew.1]
    refine (Shape.neverRepeated_check field.shape).bind fun _ => ih hdistinct.2 ?_
    intro name hname hseen
    rcases List.mem_cons.mp hseen with rfl | hseen
    · exact hdistinct.1 hname
    · exact hnew.2 name hname hseen

/-- A schema of fields of distinct names is not refused for a repeated name. -/
theorem neverRepeated_make (edition : Nat) (name : String) {fields : List Field}
    (hdistinct : (fields.map Field.name).Nodup) : NeverRepeated (make edition name fields) := by
  unfold make
  split
  · exact neverRepeated_refuse (by simp)
  · refine (neverRepeated_checkFields hdistinct fun _ _ => List.not_mem_nil).bind fun _ =>
      (neverRepeated_orTrap _).bind fun sum => ?_
    split
    · exact neverRepeated_pure _
    · exact neverRepeated_refuse (by simp)

end Schema

/-- A bound that is not resolved is blamed by its name. -/
theorem Bound.of_resolve_eq_error {context : Context} {owner field : String} {bound : Bound}
    {fault : SchemaError} (h : bound.resolve context owner field = .error fault) :
    ∃ name, fault = .unresolvedBound owner field name := by
  cases bound with
  | fixed length => cases h
  | named name =>
    rw [resolve] at h
    split at h
    · cases h
    · exact ⟨name, (Except.error.inj h).symm⟩

/-- What is not resolved in a form is a bound or a container, and it is blamed in the field. -/
theorem Form.of_resolve_eq_error {context : Context} {owner field : String} {fault : SchemaError} :
    {form : Form} → form.resolve context owner field = .error fault →
    ∃ name, fault = .unresolvedBound owner field name ∨
      fault = .unresolvedContainer owner field name
  | .boolean, h | .uint _, h => by cases h
  | .byteVector length, h | .byteList length, h | .bitvector length, h | .bitlist length, h => by
    rw [resolve, bind_eq_error] at h
    rcases h with h | ⟨_, -, h⟩
    · exact (Bound.of_resolve_eq_error h).imp fun _ => .inl
    · cases h
  | .vector element length, h | .list element length, h => by
    rw [resolve, bind_eq_error] at h
    rcases h with h | ⟨_, -, h⟩
    · exact of_resolve_eq_error h
    · rcases bind_eq_error.mp h with h | ⟨_, -, h⟩
      · exact (Bound.of_resolve_eq_error h).imp fun _ => .inl
      · cases h
  | .container name, h => by
    rw [resolve] at h
    split at h
    · cases h
    · exact ⟨name, .inr (Except.error.inj h).symm⟩

namespace Descriptor

variable {descriptor : Descriptor}

/-- Resolving a descriptor with distinct names never finds a repeated one, in whatever context. -/
theorem neverRepeated_resolve (hdistinct : descriptor.fieldNames.Nodup) (context : Context)
    (edition : Nat) : NeverRepeated (descriptor.resolve context edition) := by
  rw [resolve]
  cases hfields : descriptor.resolveFields context with
  | error fault =>
    obtain ⟨source, -, hfault⟩ := exists_of_mapM_eq_error hfields
    rcases bind_eq_error.mp hfault with hfault | ⟨_, -, hfault⟩
    · obtain ⟨name, rfl | rfl⟩ := Form.of_resolve_eq_error hfault
      · exact neverRepeated_refuse (by simp)
      · exact neverRepeated_refuse (by simp)
    · cases hfault
  | ok fields =>
    refine Schema.neverRepeated_make edition descriptor.name ?_
    rw [map_name_of_resolveFields hfields]
    exact hdistinct

/-- Whatever changes are tried on a descriptor with distinct names, where a refused one leaves it as
it was, the names are distinct afterwards. A further change is refused exactly if the field that
it names is absent, or the name that it brings in is that of another field; otherwise it changes
its own field and nothing else. Resolving the result finds no repeated name. Tried on a record
among definitions, the changes make the same of that record, and nothing of the others; a further
change that is refused leaves the definitions as they are. -/
theorem tryEdits_wellFormed (hdistinct : descriptor.fieldNames.Nodup) (changes : List Edit) :
    (descriptor.tryEdits changes).fieldNames.Nodup ∧
    (∀ change fault, (descriptor.tryEdits changes).edit change = .error fault ↔
      change.Refused descriptor.name (descriptor.tryEdits changes).fieldNames fault) ∧
    (∀ change changed, (descriptor.tryEdits changes).edit change = .ok changed ↔
      changed.name = descriptor.name ∧
        change.Changes (descriptor.tryEdits changes).fields changed.fields) ∧
    (∀ context edition, NeverRepeated ((descriptor.tryEdits changes).resolve context edition)) ∧
    ∀ definitions : Definitions, definitions.get? descriptor.name = some descriptor →
      (∀ name, (definitions.afterChanges descriptor.name changes).get? name =
        if name = descriptor.name then some (descriptor.tryEdits changes)
        else definitions.get? name) ∧
      ∀ change fault, (descriptor.tryEdits changes).edit change = .error fault →
        (definitions.afterChanges descriptor.name changes).modify descriptor.name
            (·.edit change) =
          (.error (.schema definitions.fork fault),
            definitions.afterChanges descriptor.name changes) := by
  obtain ⟨hname, hcurrent⟩ := tryEdits_preserves hdistinct changes
  refine ⟨hcurrent, fun change fault => ?_, fun change changed => ?_, fun context edition => ?_,
    fun definitions hget => ?_⟩
  · rw [edit_eq_error hcurrent, hname]
  · rw [edit_eq_ok hcurrent, hname]
  · exact neverRepeated_resolve hcurrent context edition
  · obtain ⟨hfork, hnames⟩ := Definitions.afterChanges_eq hget hdistinct changes
    refine ⟨hnames, fun change fault hfault => ?_⟩
    have hrecord := (hnames descriptor.name).trans (if_pos rfl)
    rw [Definitions.modify_of_refused hrecord hfault, hfork]

/-- A record of two fields. -/
def checkpointExample : Descriptor :=
  ⟨"Checkpoint", [("epoch", .uint 8), ("root", .byteVector (.fixed 32))]⟩

/-- Changes of it: a name is given up and taken again by another field, and one change in between
asks for a name that is taken. -/
def checkpointChanges : List Edit :=
  [.remove "epoch", .add "root" .boolean, .replace "root" "epoch" (.uint 4), .add "root" .boolean]

/-- The changes of the example are made but for the second one. The result has distinct names; its
last field can be removed, but not take the name of the first one. -/
theorem tryEdits_checkpointExample :
    checkpointExample.fieldNames.Nodup ∧
      checkpointExample.tryEdits checkpointChanges =
        ⟨"Checkpoint", [("epoch", .uint 4), ("root", .boolean)]⟩ ∧
      (checkpointExample.tryEdits checkpointChanges).fieldNames.Nodup ∧
      (checkpointExample.tryEdits checkpointChanges).edit (.replace "root" "epoch" .boolean) =
        .error (.duplicateField "Checkpoint" "epoch") ∧
      (checkpointExample.tryEdits checkpointChanges).edit (.remove "root") =
        .ok ⟨"Checkpoint", [("epoch", .uint 4)]⟩ ∧
      (Definitions.afterChanges ⟨.phase0, [checkpointExample]⟩ "Checkpoint" checkpointChanges).get?
          "Checkpoint" =
        some (checkpointExample.tryEdits checkpointChanges) := by
  have hdistinct : checkpointExample.fieldNames.Nodup := by decide
  have hresult : checkpointExample.tryEdits checkpointChanges =
      ⟨"Checkpoint", [("epoch", .uint 4), ("root", .boolean)]⟩ := by decide
  obtain ⟨hnames, hrefused, hchanges, -, hdefinitions⟩ :=
    tryEdits_wellFormed hdistinct checkpointChanges
  refine ⟨hdistinct, hresult, hnames, (hrefused _ _).mpr ?_, (hchanges _ _).mpr ?_, ?_⟩
  · rw [hresult]
    exact .inr ⟨by decide, by decide, rfl⟩
  · rw [hresult]
    exact ⟨rfl, [("epoch", .uint 4)], .boolean, [], rfl, rfl⟩
  · exact (hdefinitions ⟨.phase0, [checkpointExample]⟩ rfl).1 "Checkpoint"

end Descriptor

end BeaconSsz
