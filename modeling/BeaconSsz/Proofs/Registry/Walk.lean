import BeaconSsz.Proofs.Registry.Definitions
import BeaconSsz.Proofs.Schema.Resolve

/-!
# The walk that builds the records of a fork

How the walk runs on the records that are built, and what it adds to them. A record is passed over
if it is built, and it waits while its parts are built, which no other record of its name does. So
a fork draws up a name once at most, whatever the definitions are, and also where the walk fails:
the name of a schema and the fork at which it was drawn up tell which schema it is.
-/

namespace BeaconSsz

namespace Records

/-- A record is found exactly when its name is there. -/
theorem isSome_find? {records : Records} {name : String} :
    (records.find? name).isSome ↔ name ∈ records.map (·.name) := by
  rw [Option.isSome_iff_exists]
  exact exists_find?_name

/-- What a walk does to the records while others wait: what was built stays, names that are added
are new, and none of them waits. -/
structure Grows (waiting : List String) (built after : Records) : Prop where
  kept : built ⊆ after
  distinct : (built.map (·.name)).Nodup → (after.map (·.name)).Nodup
  waits : ∀ name ∈ waiting, name ∈ after.map (·.name) → name ∈ built.map (·.name)

namespace Grows

variable {waiting : List String} {built next after : Records}

/-- Records that are not changed have not lost anything. -/
theorem refl : Grows waiting built built :=
  ⟨List.Subset.refl built, id, fun _ _ => id⟩

/-- Two walks in a row are a walk. -/
theorem trans (h : Grows waiting built next) (h' : Grows waiting next after) :
    Grows waiting built after :=
  ⟨List.Subset.trans h.kept h'.kept, fun hdistinct => h'.distinct (h.distinct hdistinct),
    fun name hwaits hname => h.waits name hwaits (h'.waits name hwaits hname)⟩

/-- A name that waits for others behind it is not built by them. -/
theorem not_mem {name : String} (h : Grows (waiting ++ [name]) built after)
    (hnew : name ∉ built.map (·.name)) : name ∉ after.map (·.name) :=
  mt (h.waits name (List.mem_append_right _ List.mem_cons_self)) hnew

/-- Fewer records wait. -/
theorem of_append {names : List String} (h : Grows (waiting ++ names) built after) :
    Grows waiting built after :=
  ⟨h.kept, h.distinct, fun name hwaits => h.waits name (List.mem_append_left _ hwaits)⟩

/-- A record whose name waits last is added behind what it waited for. -/
theorem add {schema : Schema} (h : Grows (waiting ++ [schema.name]) built after)
    (hnew : schema.name ∉ built.map (·.name)) (hwaits : schema.name ∉ waiting) :
    Grows waiting built (after ++ [schema]) := by
  refine ⟨List.subset_append_of_subset_left _ h.kept, fun hdistinct => ?_, fun name hname => ?_⟩
  · rw [List.map_append, List.map_singleton, ← List.concat_eq_append]
    exact (h.distinct hdistinct).concat (h.not_mem hnew)
  · rw [List.map_append, List.map_singleton, List.mem_append, List.mem_singleton]
    rintro (hafter | rfl)
    · exact h.waits name (List.mem_append_left _ hname) hafter
    · exact absurd hname hwaits

end Grows

end Records

namespace Scope

variable {scope : Scope} {built : Records}

/-- The inherited schema of the same name is taken exactly when it agrees. -/
theorem reuse_eq (schema : Schema) : scope.reuse schema =
    match scope.inherited.find? schema.name with
    | some previous => if previous.agrees schema then previous else schema
    | none => schema := by
  rw [reuse]
  cases scope.inherited.find? schema.name with
  | none => rfl
  | some previous => simp only [(previous.agreement schema).property]

/-- Taking the inherited schema does not change the bare form. -/
theorem bare_reuse (schema : Schema) : (scope.reuse schema).bare = schema.bare := by
  rw [reuse_eq]
  split
  · next previous _ =>
    split
    · next hagrees => exact (previous.agrees_iff schema).mp hagrees
    · rfl
  · rfl

/-- Taking the inherited schema does not change the name. -/
theorem name_reuse (schema : Schema) : (scope.reuse schema).name = schema.name := by
  rw [← Schema.name_bare, bare_reuse, Schema.name_bare]

/-- A record has a schema if its descriptor is resolved, perhaps in place of an inherited one. -/
theorem resolve_eq_ok {descriptor : Descriptor} {schema : Schema} :
    scope.resolve built descriptor = .ok schema ↔ ∃ fresh, descriptor.resolve (scope.context built)
      scope.definitions.fork.edition = .ok fresh ∧ scope.reuse fresh = schema := by
  rw [Scope.resolve]
  cases descriptor.resolve (scope.context built) scope.definitions.fork.edition <;> simp

/-- A record has no schema if its descriptor is not resolved, for the same reason. -/
theorem resolve_eq_error {descriptor : Descriptor} {stop : Stop RegistryError} :
    scope.resolve built descriptor = .error stop ↔ ∃ source, descriptor.resolve
      (scope.context built) scope.definitions.fork.edition = .error source ∧
        source.mapError (.schema scope.definitions.fork) = stop := by
  rw [Scope.resolve]
  cases descriptor.resolve (scope.context built) scope.definitions.fork.edition <;> simp

/-- The schema of a record has the name of the record. -/
theorem name_of_resolve {descriptor : Descriptor} {schema : Schema}
    (h : scope.resolve built descriptor = .ok schema) : schema.name = descriptor.name := by
  obtain ⟨fresh, hfresh, rfl⟩ := resolve_eq_ok.mp h
  rw [name_reuse, Descriptor.name_of_resolve hfresh]

end Scope

namespace Building

variable {α β : Type} {built : Records}

/-- A step runs on the records that the one before it left. -/
theorem run_bind (x : Building α) (f : α → Building β) (built : Records) :
    (x >>= f).run built = match x.run built with
      | (.ok a, after) => (f a).run after
      | (.error stop, after) => (.error stop, after) := by
  rw [ExceptT.run_bind]
  show StateT.bind _ _ _ = _
  rw [StateT.bind]
  show (match ExceptT.run x built with | _ => _) = _
  rcases x.run built with ⟨_ | _, _⟩ <;> rfl

/-- Looking at the records changes nothing. -/
theorem run_get : (get : Building Records).run built = (.ok built, built) :=
  rfl

/-- A result that does not depend on the records changes nothing. -/
theorem run_liftM (result : Except (Stop RegistryError) α) :
    (liftM result : Building α).run built = (result, built) := by
  cases result <;> rfl

/-- The records are replaced. -/
theorem run_set (after : Records) : (set after : Building PUnit).run built = (.ok (), after) :=
  rfl

/-- A step, whatever is built and whether or not it fails, only adds names that are new, and none
that waits. -/
def Grows (waiting : List String) (step : Building Unit) : Prop :=
  ∀ built, Records.Grows waiting built (step.run built).2

/-- If every step of a loop only adds names that are new, so does the loop. -/
theorem grows_forM {waiting : List String} {body : α → Building Unit} {xs : List α}
    (hbody : ∀ x ∈ xs, Grows waiting (body x)) : Grows waiting (xs.forM body) := by
  intro built
  induction xs generalizing built with
  | nil => exact .refl
  | cons x xs ih =>
    rw [List.forall_mem_cons] at hbody
    have hfirst := hbody.1 built
    rw [List.forM_eq_forM, List.forM_cons, run_bind]
    rcases hrun : (body x).run built with ⟨_ | ⟨⟨⟩⟩, next⟩
    · rwa [hrun] at hfirst
    · rw [hrun] at hfirst
      exact hfirst.trans (ih hbody.2 next)

end Building

/-- Builds the record of a name, if it is defined. -/
def buildReference (scope : Scope) (budget : Nat) (waiting : List String) (name : String) :
    Building Unit :=
  match scope.definitions.get? name with
  | some part => buildRecord scope budget waiting part
  | none => pure ()

/-- Builds the defined records that a record refers to, while the record waits. -/
def buildReferences (scope : Scope) (budget : Nat) (waiting : List String)
    (descriptor : Descriptor) : Building Unit :=
  descriptor.references.forM (buildReference scope budget (waiting ++ [descriptor.name]))

/-- Building a record looks whether it is built, then whether it waits, and then builds what it
refers to before it is resolved. -/
theorem run_buildRecord (scope : Scope) (budget : Nat) (waiting : List String)
    (descriptor : Descriptor) (built : Records) :
    (buildRecord scope budget waiting descriptor).run built =
      if (built.find? descriptor.name).isSome then (.ok (), built)
      else if descriptor.name ∈ waiting then
        (.error (.refused (.cyclicDefinition scope.definitions.fork
          (waiting.dropWhile (· ≠ descriptor.name) ++ [descriptor.name]))), built)
      else match budget with
        | 0 =>
          (.error (.refused (.cyclicDefinition scope.definitions.fork
            (waiting ++ [descriptor.name]))), built)
        | budget + 1 =>
          match (buildReferences scope budget waiting descriptor).run built with
          | (.error stop, after) => (.error stop, after)
          | (.ok (), after) =>
            match scope.resolve after descriptor with
            | .error stop => (.error stop, after)
            | .ok schema => (.ok (), after ++ [schema]) := by
  cases budget with
  | zero =>
    have heq : buildRecord scope 0 waiting descriptor = (do
        let built ← get
        if (built.find? descriptor.name).isSome then return
        else if descriptor.name ∈ waiting then
          throw (.refused (.cyclicDefinition scope.definitions.fork
            (waiting.dropWhile (· ≠ descriptor.name) ++ [descriptor.name])))
        else
          throw (.refused (.cyclicDefinition scope.definitions.fork
            (waiting ++ [descriptor.name])))) := rfl
    rw [heq, Building.run_bind, Building.run_get]
    dsimp only
    split
    · rfl
    · split <;> rfl
  | succ budget =>
    have heq : buildRecord scope (budget + 1) waiting descriptor = (do
        let built ← get
        if (built.find? descriptor.name).isSome then return
        else if descriptor.name ∈ waiting then
          throw (.refused (.cyclicDefinition scope.definitions.fork
            (waiting.dropWhile (· ≠ descriptor.name) ++ [descriptor.name])))
        else do
          buildReferences scope budget waiting descriptor
          let built ← get
          let schema ← liftM (scope.resolve built descriptor)
          set (built ++ [schema])) := rfl
    rw [heq, Building.run_bind, Building.run_get]
    dsimp only
    split
    · rfl
    · split
      · rfl
      · simp only [Building.run_bind, Building.run_get, Building.run_liftM, Building.run_set]
        rcases (buildReferences scope budget waiting descriptor).run built with ⟨_ | _, after⟩
        · rfl
        · dsimp only
          cases scope.resolve after descriptor <;> rfl

/-- If building records adds only names that are new, so does building the record of a name. -/
theorem grows_buildReference {scope : Scope} {budget : Nat} {waiting : List String}
    (hparts : ∀ part, Building.Grows waiting (buildRecord scope budget waiting part))
    (name : String) : Building.Grows waiting (buildReference scope budget waiting name) := by
  intro built
  rw [buildReference]
  cases scope.definitions.get? name with
  | some part => exact hparts part built
  | none => exact .refl

/-- Building a record adds only names that are new, and no name that waits. -/
theorem grows_buildRecord (scope : Scope) (budget : Nat) (waiting : List String)
    (descriptor : Descriptor) :
    Building.Grows waiting (buildRecord scope budget waiting descriptor) := by
  intro built
  induction budget generalizing waiting descriptor built with
  | zero =>
    rw [run_buildRecord]
    split_ifs <;> exact .refl
  | succ budget ih =>
    -- The record waits while its parts are built, so that none of them adds its name before it does.
    have hreferences : Records.Grows (waiting ++ [descriptor.name]) built
        ((buildReferences scope budget waiting descriptor).run built).2 :=
      Building.grows_forM (fun name _ => grows_buildReference (ih _) name) built
    rw [run_buildRecord]
    split
    · exact .refl
    · next hfound =>
      have hnew := mt Records.isSome_find?.mpr hfound
      split
      · exact .refl
      · next hwaits =>
        dsimp only
        rcases hrun : (buildReferences scope budget waiting descriptor).run built with
          ⟨stop | ⟨⟨⟩⟩, after⟩
        · rw [hrun] at hreferences
          exact hreferences.of_append
        · rw [hrun] at hreferences
          dsimp only
          cases hresolve : scope.resolve after descriptor with
          | error stop => exact hreferences.of_append
          | ok schema =>
            rw [← Scope.name_of_resolve hresolve] at hreferences hnew hwaits
            exact hreferences.add hnew hwaits

/-- Building what a record refers to adds only names that are new, and neither the record nor what
waits for it. -/
theorem grows_buildReferences (scope : Scope) (budget : Nat) (waiting : List String)
    (descriptor : Descriptor) :
    Building.Grows (waiting ++ [descriptor.name])
      (buildReferences scope budget waiting descriptor) :=
  Building.grows_forM fun name _ => grows_buildReference (grows_buildRecord scope budget _) name

/-- A fork draws up every name once at most, whether or not all its records are built. -/
theorem nodup_names_of_buildRecords (scope : Scope) :
    (((buildRecords scope).run []).2.map (·.name)).Nodup := by
  have hgrows : Building.Grows [] (buildRecords scope) :=
    Building.grows_forM fun descriptor _ => grows_buildRecord scope _ [] descriptor
  exact (hgrows []).distinct List.nodup_nil

end BeaconSsz
