import BeaconSsz.Proofs.Fork
import BeaconSsz.Proofs.Named
import BeaconSsz.Proofs.Result
import BeaconSsz.Registry.Basic

/-!
# Definitions by name

Whatever a fork or a plan does to the definitions comes down to inserting descriptors. So the
names stay distinct, and what is defined stays defined. What the definitions say of a name depends
only on what was inserted under that name, and in which order; the place of a name among the
others matters to no one.
-/

namespace BeaconSsz

/-- The fork at which a fault was found. -/
def RegistryError.fork : RegistryError → Fork
  | schema fork _ => fork
  | unknownRecord fork _ => fork
  | cyclicDefinition fork _ => fork

namespace Descriptor

/-- A change of one field keeps the name of the record. -/
theorem name_of_edit {descriptor changed : Descriptor} {change : Edit}
    (h : descriptor.edit change = .ok changed) : changed.name = descriptor.name := by
  cases change with
  | add field form =>
    rw [edit, add] at h
    split at h <;> cases h
    rfl
  | remove field | retype field form =>
    simp only [edit, remove, retype, bind_eq_ok, pure_eq_ok] at h
    obtain ⟨_, _, rfl⟩ := h
    rfl
  | replace field newName form =>
    rw [edit, replace, bind_eq_ok] at h
    obtain ⟨position, -, h⟩ := h
    obtain ⟨-, ⟨⟩⟩ | ⟨-, ⟨⟩⟩ := ite_eq_iff.mp h
    rfl

/-- Changes of fields keep the name of the record. -/
theorem name_of_editAll {descriptor changed : Descriptor} {edits : List Edit}
    (h : descriptor.editAll edits = .ok changed) : changed.name = descriptor.name := by
  rw [editAll] at h
  induction edits generalizing descriptor with
  | nil =>
    cases h
    rfl
  | cons change edits ih =>
    rw [List.foldlM_cons, bind_eq_ok] at h
    obtain ⟨next, hnext, h⟩ := h
    rw [ih h, name_of_edit hnext]

end Descriptor

namespace Definitions

variable {definitions other : Definitions}

/-- The names of the records, in order. -/
def names (definitions : Definitions) : List String :=
  definitions.records.map (·.name)

/-- A name is defined exactly when it is that of a record. -/
theorem exists_get? {name : String} :
    (∃ descriptor, definitions.get? name = some descriptor) ↔ name ∈ definitions.names :=
  exists_find?_name

/-- If names are distinct, the records are what the definitions say of their names. -/
theorem get?_eq_some (hdistinct : definitions.names.Nodup) {name : String}
    {descriptor : Descriptor} :
    definitions.get? name = some descriptor ↔
      descriptor ∈ definitions.records ∧ descriptor.name = name :=
  find?_name_eq_some hdistinct

/-- Inserting a descriptor changes what the definitions say of its name, and nothing else. -/
theorem get?_insert (descriptor : Descriptor) (name : String) :
    (definitions.insert descriptor).get? name =
      if name = descriptor.name then some descriptor else definitions.get? name := by
  rw [insert, get?, get?]
  dsimp only
  split
  · next hany =>
    rw [find?_name_map_replace]
    split
    · next hname =>
      subst hname
      rw [List.any_eq_true] at hany
      obtain ⟨found, hfound⟩ := Option.isSome_iff_exists.mp (List.find?_isSome.mpr hany)
      rw [hfound, Option.map_some]
    · rfl
  · next hany =>
    rw [List.find?_append, List.find?_singleton]
    split
    · next hname =>
      rw [beq_iff_eq] at hname
      subst hname
      have hnone : definitions.records.find? (·.name == descriptor.name) = none :=
        List.find?_eq_none.mpr fun record hrecord h =>
          hany (List.any_eq_true.mpr ⟨record, hrecord, h⟩)
      rw [hnone, Option.none_or, if_pos rfl]
    · next hname =>
      rw [beq_iff_eq] at hname
      rw [Option.or_none, if_neg (Ne.symm hname)]

/-- A new name goes behind the others. -/
theorem names_insert (descriptor : Descriptor) :
    (definitions.insert descriptor).names =
      if descriptor.name ∈ definitions.names then definitions.names
      else definitions.names ++ [descriptor.name] := by
  have hany : definitions.records.any (·.name == descriptor.name) = true ↔
      descriptor.name ∈ definitions.names := by
    simp [names]
  rw [insert, names, names]
  simp only [hany, names]
  split
  · rw [List.map_map]
    apply List.map_congr_left
    intro record _
    grind
  · rw [List.map_append, List.map_singleton]

/-- Inserting a descriptor keeps the names distinct. -/
theorem nodup_names_insert (hdistinct : definitions.names.Nodup) (descriptor : Descriptor) :
    (definitions.insert descriptor).names.Nodup := by
  rw [names_insert]
  split
  · exact hdistinct
  · next hnew =>
    rw [← List.concat_eq_append]
    exact hdistinct.concat hnew

/-- Inserting a descriptor keeps what is defined. -/
theorem mem_names_insert {name : String} (h : name ∈ definitions.names) (descriptor : Descriptor) :
    name ∈ (definitions.insert descriptor).names := by
  rw [names_insert]
  split
  · exact h
  · exact List.mem_append_left _ h

/-- After several insertions, a name stands for the last descriptor inserted under it. -/
theorem get?_foldl_insert (descriptors : List Descriptor) (name : String) :
    (descriptors.foldl insert definitions).get? name =
      (descriptors.filter (·.name == name)).getLast?.or (definitions.get? name) := by
  induction descriptors generalizing definitions with
  | nil => rfl
  | cons descriptor descriptors ih =>
    rw [List.foldl_cons, ih, get?_insert, List.filter_cons]
    by_cases hname : descriptor.name = name
    · simp [hname, List.getLast?_cons]
    · simp [hname, Ne.symm hname]

/-- What one insertion keeps, several keep. -/
theorem of_foldl_insert {P : Definitions → Prop}
    (hinsert : ∀ definitions descriptor, P definitions → P (definitions.insert descriptor))
    (hP : P definitions) (descriptors : List Descriptor) :
    P (descriptors.foldl insert definitions) := by
  induction descriptors generalizing definitions with
  | nil => exact hP
  | cons descriptor descriptors ih => exact ih (hinsert definitions descriptor hP)

/-- Insertions keep the fork. -/
theorem fork_foldl_insert (descriptors : List Descriptor) :
    (descriptors.foldl insert definitions).fork = definitions.fork :=
  of_foldl_insert (P := fun changed => changed.fork = definitions.fork) (fun _ _ h => h) rfl
    descriptors

/-- The descriptor that an amendment puts in place. -/
def amended (definitions : Definitions) : Amendment → Except RegistryError Descriptor
  | .define descriptor => .ok descriptor
  | .revise record edits =>
    match definitions.get? record with
    | none => .error (.unknownRecord definitions.fork record)
    | some descriptor => (descriptor.editAll edits).mapError (.schema definitions.fork)

section Modify

variable {name : String} {descriptor changed : Descriptor}
  {change : Descriptor → Except SchemaError Descriptor}

/-- A change of a defined record that is refused leaves the definitions as they were. -/
theorem modify_of_refused (hget : definitions.get? name = some descriptor) {source : SchemaError}
    (hchange : change descriptor = .error source) :
    definitions.modify name change = (.error (.schema definitions.fork source), definitions) := by
  simp only [modify, hget, hchange]

/-- A change of a defined record that keeps its name inserts what it makes of the record. -/
theorem modify_of_changed (hget : definitions.get? name = some descriptor)
    (hchange : change descriptor = .ok changed) (hname : changed.name = name) :
    definitions.modify name change = (.ok (), definitions.insert changed) := by
  have hany : definitions.records.any (·.name == name) = true :=
    List.any_eq_true.mpr ⟨descriptor, List.mem_of_find?_eq_some hget,
      beq_iff_eq.mpr (name_of_find? hget)⟩
  simp only [modify, hget, hchange, insert, hname, hany, if_true]

/-- Whenever a change fails, it leaves the definitions as they were. -/
theorem modify_of_error {error : RegistryError}
    (h : (definitions.modify name change).1 = .error error) :
    (definitions.modify name change).2 = definitions := by
  cases hget : definitions.get? name with
  | none => simp only [modify, hget]
  | some descriptor =>
    cases hchange : change descriptor with
    | error source => rw [modify_of_refused hget hchange]
    | ok changed => simp [modify, hget, hchange] at h

end Modify

/-- Making an amendment inserts a descriptor. -/
theorem amend_eq_map (amendment : Amendment) :
    definitions.amend amendment = (definitions.amended amendment).map definitions.insert := by
  cases amendment with
  | define descriptor => rfl
  | revise record edits =>
    rw [amend, amended]
    cases hget : definitions.get? record with
    | none =>
      simp only [modify, hget]
      rfl
    | some descriptor =>
      dsimp only
      cases hedit : descriptor.editAll edits with
      | error source =>
        rw [modify_of_refused hget hedit]
        rfl
      | ok changed =>
        have hname : changed.name = record := by
          rw [Descriptor.name_of_editAll hedit, name_of_find? hget]
        rw [modify_of_changed hget hedit hname]
        rfl

/-- A fault of an amendment is found at the fork of the definitions. -/
theorem fork_of_amended_error {amendment : Amendment} {error : RegistryError}
    (h : definitions.amended amendment = .error error) : error.fork = definitions.fork := by
  cases amendment with
  | define descriptor => cases h
  | revise record edits =>
    rw [amended] at h
    split at h
    · cases h
      rfl
    · next descriptor _ =>
      cases hedit : descriptor.editAll edits <;> rw [hedit] at h <;> cases h
      rfl

/-- What insertions keep, amendments keep. -/
theorem of_foldlM_amend {P : Definitions → Prop}
    (hinsert : ∀ definitions descriptor, P definitions → P (definitions.insert descriptor))
    {amendments : List Amendment} {changed : Definitions} (hP : P definitions)
    (h : amendments.foldlM amend definitions = .ok changed) : P changed := by
  induction amendments generalizing definitions with
  | nil =>
    cases h
    exact hP
  | cons amendment amendments ih =>
    rw [List.foldlM_cons, bind_eq_ok] at h
    obtain ⟨next, hnext, h⟩ := h
    rw [amend_eq_map, map_eq_ok] at hnext
    obtain ⟨descriptor, -, rfl⟩ := hnext
    exact ih (hinsert definitions descriptor hP) h

/-- A fault of amendments is found at the fork of the definitions. -/
theorem fork_of_foldlM_amend_error {amendments : List Amendment} {error : RegistryError}
    (h : amendments.foldlM amend definitions = .error error) : error.fork = definitions.fork := by
  induction amendments generalizing definitions with
  | nil => cases h
  | cons amendment amendments ih =>
    rw [List.foldlM_cons, bind_eq_error, amend_eq_map, map_eq_error] at h
    rcases h with hamended | ⟨next, hnext, h⟩
    · exact fork_of_amended_error hamended
    · obtain ⟨descriptor, -, rfl⟩ := map_eq_ok.mp hnext
      exact (ih h :)

/-- Two definitions are alike if they are of one fork and say the same of every name. -/
structure Alike (definitions other : Definitions) : Prop where
  fork : definitions.fork = other.fork
  get? : ∀ name, definitions.get? name = other.get? name

namespace Alike

/-- Being alike goes both ways. -/
theorem symm (h : Alike definitions other) : Alike other definitions :=
  ⟨h.fork.symm, fun name => (h.get? name).symm⟩

/-- Alike definitions have the same names. -/
theorem mem_names (h : Alike definitions other) {name : String} :
    name ∈ definitions.names ↔ name ∈ other.names := by
  rw [← exists_get?, ← exists_get?, h.get? name]

/-- Alike definitions stay alike at the next fork. -/
theorem withFork (h : Alike definitions other) (fork : Fork) :
    Alike { definitions with fork } { other with fork } :=
  ⟨rfl, h.get?⟩

/-- The same insertion keeps definitions alike. -/
theorem insert (h : Alike definitions other) (descriptor : Descriptor) :
    Alike (definitions.insert descriptor) (other.insert descriptor) :=
  ⟨h.fork, fun name => by rw [get?_insert, get?_insert, h.get? name]⟩

/-- An amendment puts the same descriptor in place in alike definitions. -/
theorem amended_eq (h : Alike definitions other) (amendment : Amendment) :
    definitions.amended amendment = other.amended amendment := by
  cases amendment with
  | define descriptor => rfl
  | revise record edits => rw [amended, amended, h.fork, h.get? record]

/-- Alike definitions are amended alike. -/
theorem foldlM_amend (h : Alike definitions other) {amendments : List Amendment}
    {changed : Definitions} (hamend : amendments.foldlM amend definitions = .ok changed) :
    ∃ changed', amendments.foldlM amend other = .ok changed' ∧ Alike changed changed' := by
  induction amendments generalizing definitions other with
  | nil =>
    cases hamend
    exact ⟨other, rfl, h⟩
  | cons amendment amendments ih =>
    rw [List.foldlM_cons, bind_eq_ok] at hamend
    obtain ⟨next, hnext, hamend⟩ := hamend
    rw [amend_eq_map, map_eq_ok] at hnext
    obtain ⟨descriptor, hamended, rfl⟩ := hnext
    rw [List.foldlM_cons, amend_eq_map, ← h.amended_eq, hamended]
    exact ih (h.insert descriptor) hamend

/-- Insertions that are the same under every name keep definitions alike. -/
theorem foldl_insert (h : Alike definitions other) {descriptors descriptors' : List Descriptor}
    (hsame : ∀ name, descriptors.filter (·.name == name) = descriptors'.filter (·.name == name)) :
    Alike (descriptors.foldl Definitions.insert definitions)
      (descriptors'.foldl Definitions.insert other) where
  fork := by rw [fork_foldl_insert, fork_foldl_insert, h.fork]
  get? name := by rw [get?_foldl_insert, get?_foldl_insert, hsame name, h.get? name]

end Alike

end Definitions

namespace RegistryPlan

variable {plan other : RegistryPlan} {definitions changed : Definitions} {fork : Fork}

/-- The descriptors that the plan defines at a fork, in order. -/
def definedAt (plan : RegistryPlan) (fork : Fork) : List Descriptor :=
  (plan.defined.filter (·.1 == fork)).map (·.2)

/-- The definitions of a fork are those of the catalogue with the planned ones inserted. -/
theorem definitionsAt_eq :
    plan.definitionsAt definitions fork =
      (definitions.upgrade fork).map ((plan.definedAt fork).foldl Definitions.insert) := by
  have hfold (upgraded : Definitions) :
      (plan.defined.filter (·.1 == fork)).foldl
        (fun definitions entry => definitions.insert entry.2) upgraded =
          (plan.definedAt fork).foldl Definitions.insert upgraded := by
    rw [definedAt, List.foldl_map]
  rw [definitionsAt]
  simp only [hfold]
  cases definitions.upgrade fork <;> rfl

/-- What insertions keep from the start of a fork on holds of the definitions of the fork. -/
theorem of_definitionsAt {P : Definitions → Prop}
    (hinsert : ∀ definitions descriptor, P definitions → P (definitions.insert descriptor))
    (h : plan.definitionsAt definitions fork = .ok changed) (hP : P { definitions with fork }) :
    P changed := by
  rw [definitionsAt_eq, map_eq_ok] at h
  obtain ⟨upgraded, hupgrade, rfl⟩ := h
  exact Definitions.of_foldl_insert hinsert (Definitions.of_foldlM_amend hinsert hP hupgrade) _

/-- The definitions of a fork are of that fork. -/
theorem fork_of_definitionsAt (h : plan.definitionsAt definitions fork = .ok changed) :
    changed.fork = fork :=
  of_definitionsAt (P := (·.fork = fork)) (fun _ _ h => h) h rfl

/-- The names stay distinct from fork to fork. -/
theorem nodup_names_of_definitionsAt (hdistinct : definitions.names.Nodup)
    (h : plan.definitionsAt definitions fork = .ok changed) : changed.names.Nodup :=
  of_definitionsAt (P := (·.names.Nodup)) (fun _ descriptor hnames =>
    Definitions.nodup_names_insert hnames descriptor) h hdistinct

/-- What is defined at a fork stays defined at the next. -/
theorem mem_names_of_definitionsAt {name : String} (hname : name ∈ definitions.names)
    (h : plan.definitionsAt definitions fork = .ok changed) : name ∈ changed.names :=
  of_definitionsAt (P := (name ∈ ·.names)) (fun _ descriptor hname =>
    Definitions.mem_names_insert hname descriptor) h hname

/-- A fault in the definitions of a fork is found at that fork. -/
theorem fork_of_definitionsAt_error {error : RegistryError}
    (h : plan.definitionsAt definitions fork = .error error) : error.fork = fork := by
  rw [definitionsAt_eq, map_eq_error] at h
  exact Definitions.fork_of_foldlM_amend_error h

/-- Two plans define the same descriptors at every fork under every name, in the same order. So do
plans of which one is the other with definitions of different names in another order. -/
def DefinesAlike (plan other : RegistryPlan) : Prop :=
  ∀ fork name, plan.defined.filter (fun entry => entry.1 == fork && entry.2.name == name) =
    other.defined.filter (fun entry => entry.1 == fork && entry.2.name == name)

/-- Definitions of different names may change places. -/
theorem definesAlike_swap {required : List (Fork × String)}
    {before after : List (Fork × Descriptor)} {first second : Fork × Descriptor}
    (h : first.2.name ≠ second.2.name) :
    DefinesAlike ⟨required, before ++ first :: second :: after⟩
      ⟨required, before ++ second :: first :: after⟩ := by
  intro fork name
  simp only [List.filter_append, List.filter_cons, Bool.and_eq_true, beq_iff_eq]
  grind

/-- Plans that define alike make alike definitions from alike ones. -/
theorem DefinesAlike.definitionsAt (hplan : plan.DefinesAlike other) {definitions' : Definitions}
    (halike : definitions.Alike definitions')
    (h : plan.definitionsAt definitions fork = .ok changed) :
    ∃ changed', other.definitionsAt definitions' fork = .ok changed' ∧ changed.Alike changed' := by
  have hsame (name : String) : (plan.definedAt fork).filter (·.name == name) =
      (other.definedAt fork).filter (·.name == name) := by
    have := congrArg (List.map Prod.snd) (hplan fork name)
    simpa [definedAt, List.filter_map, List.filter_filter, Function.comp_def, Bool.and_comm]
      using this
  rw [definitionsAt_eq, map_eq_ok] at h
  obtain ⟨upgraded, hupgrade, rfl⟩ := h
  obtain ⟨upgraded', hupgrade', hupgraded⟩ := (halike.withFork fork).foldlM_amend hupgrade
  rw [definitionsAt_eq, Definitions.upgrade, hupgrade']
  exact ⟨_, rfl, hupgraded.foldl_insert hsame⟩

/-- The definitions in force at a fork, made fork by fork from none. -/
def definitionsOf (plan : RegistryPlan) (fork : Fork) : Except RegistryError Definitions :=
  (Fork.all.filter (· ≤ fork)).foldlM plan.definitionsAt .empty

/-- The definitions of a fork are made from those of its parent. -/
theorem definitionsOf_eq (plan : RegistryPlan) (fork : Fork) : plan.definitionsOf fork =
    fork.parent?.elim (.ok .empty) plan.definitionsOf >>= (plan.definitionsAt · fork) := by
  rw [definitionsOf, Fork.filter_le, List.foldlM_append]
  cases fork.parent? with
  | none =>
    simp only [Option.elim_none, List.foldlM_cons, List.foldlM_nil, bind_pure]
    rfl
  | some parent => simp [definitionsOf]

/-- The definitions in force at a fork are of that fork. -/
theorem fork_of_definitionsOf (h : plan.definitionsOf fork = .ok definitions) :
    definitions.fork = fork := by
  rw [definitionsOf_eq, bind_eq_ok] at h
  obtain ⟨previous, -, h⟩ := h
  exact fork_of_definitionsAt h

/-- The names in force at a fork are distinct. -/
theorem nodup_names_of_definitionsOf (h : plan.definitionsOf fork = .ok definitions) :
    definitions.names.Nodup := by
  have hforks (forks : List Fork) (previous : Definitions) (hdistinct : previous.names.Nodup)
      (h : forks.foldlM plan.definitionsAt previous = .ok definitions) :
      definitions.names.Nodup := by
    induction forks generalizing previous with
    | nil =>
      cases h
      exact hdistinct
    | cons fork forks ih =>
      rw [List.foldlM_cons, bind_eq_ok] at h
      obtain ⟨next, hnext, h⟩ := h
      exact ih next (nodup_names_of_definitionsAt hdistinct hnext) h
  exact hforks _ .empty List.nodup_nil h

/-- Plans that define alike have alike definitions in force. -/
theorem DefinesAlike.definitionsOf (hplan : plan.DefinesAlike other)
    (h : plan.definitionsOf fork = .ok definitions) :
    ∃ definitions', other.definitionsOf fork = .ok definitions' ∧
      definitions.Alike definitions' := by
  have hforks (forks : List Fork) (previous previous' : Definitions)
      (halike : previous.Alike previous')
      (h : forks.foldlM plan.definitionsAt previous = .ok definitions) :
      ∃ definitions', forks.foldlM other.definitionsAt previous' = .ok definitions' ∧
        definitions.Alike definitions' := by
    induction forks generalizing previous previous' with
    | nil =>
      cases h
      exact ⟨previous', rfl, halike⟩
    | cons fork forks ih =>
      rw [List.foldlM_cons, bind_eq_ok] at h
      obtain ⟨next, hnext, h⟩ := h
      obtain ⟨next', hnext', hnextAlike⟩ := hplan.definitionsAt halike hnext
      rw [List.foldlM_cons, hnext']
      exact ih next next' hnextAlike h
  exact hforks _ .empty .empty ⟨rfl, fun _ => rfl⟩ h

end RegistryPlan

end BeaconSsz
