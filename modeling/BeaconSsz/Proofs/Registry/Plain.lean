import BeaconSsz.Proofs.Registry.Stages

/-!
# A registry is what plain resolution gives

Building shares work within a fork and across forks. None of it can be seen in the result: a
registry is built exactly when all definitions are resolvable and the required records exist, and
then it has the schemas of plain resolution. So the order of definitions does not matter where it
does not change what is in force.
-/

namespace BeaconSsz.RegistryPlan

variable {plan other : RegistryPlan} {preset : Preset} {registry : Registry} {fork : Fork}
  {definitions : Definitions}

/-- Every required record is defined at its fork. -/
def RequiredDefined (plan : RegistryPlan) : Prop :=
  ∀ entry ∈ plan.required, ∃ definitions, plan.definitionsOf entry.1 = .ok definitions ∧
    entry.2 ∈ definitions.names

/-- Once all forks are built, the records of a fork are those that are defined. -/
theorem names_perm (h : (plan.buildForks preset .empty [] [] Fork.all).2 = .ok registry.forks)
    (hdefinitions : plan.definitionsOf fork = .ok definitions) :
    ((registry.recordsAt fork).map (·.name)).Perm definitions.names := by
  obtain ⟨_, hstage, hcomplete⟩ := stage_of_buildForks h fork
  cases hdefinitions.symm.trans hstage
  exact hcomplete.names_perm

/-- Once all forks are built, every fork is fine. -/
theorem fine_of_buildForks
    (h : (plan.buildForks preset .empty [] [] Fork.all).2 = .ok registry.forks) (fork : Fork) :
    plan.Fine preset fork := by
  obtain ⟨definitions, hdefinitions, hcomplete⟩ := stage_of_buildForks h fork
  have hdistinct := nodup_names_of_definitionsOf hdefinitions
  exact ⟨definitions, hdefinitions, hcomplete.resolvable hdistinct⟩

/-- Once all forks are built, the required records exist exactly if they are defined. -/
theorem checkRequired_iff
    (h : (plan.buildForks preset .empty [] [] Fork.all).2 = .ok registry.forks) :
    checkRequired registry plan.required = .ok () ↔ plan.RequiredDefined := by
  rw [checkRequired_eq_ok]
  refine forall₂_congr fun entry _ => ?_
  obtain ⟨definitions, hdefinitions, -⟩ := fine_of_buildForks h entry.1
  rw [(names_perm h hdefinitions).mem_iff]
  constructor
  · exact fun hname => ⟨definitions, hdefinitions, hname⟩
  · rintro ⟨_, hdefinitions', hname⟩
    cases hdefinitions.symm.trans hdefinitions'
    exact hname

/-- A registry is built exactly when all forks are fine and the required records are defined. -/
theorem exists_build_iff : (∃ registry, plan.build preset = .ok registry) ↔
    (∀ fork, plan.Fine preset fork) ∧ plan.RequiredDefined := by
  constructor
  · rintro ⟨registry, h⟩
    obtain ⟨hforks, -, hrequired⟩ := build_eq_ok.mp h
    exact ⟨fine_of_buildForks hforks, (checkRequired_iff hforks).mp hrequired⟩
  · rintro ⟨hfine, hdefined⟩
    cases h : plan.build preset with
    | ok registry => exact ⟨registry, rfl⟩
    | error stop =>
      rcases of_build_eq_error h with ⟨fork, hfails⟩ | ⟨registry, hforks, hrequired⟩
      · exact absurd (hfine fork) hfails.not_fine
      · cases hrequired.symm.trans ((checkRequired_iff hforks).mpr hdefined)

/-- The schemas of a registry are, apart from when they were drawn up, those of plain
resolution. -/
theorem map_bare_schema_eq_ok (h : plan.build preset = .ok registry)
    (hdefinitions : plan.definitionsOf fork = .ok definitions) {name : String} {plain : Schema} :
    (registry.schema fork name).map Schema.bare = .ok plain ↔
      definitions.Resolves preset name plain := by
  obtain ⟨_, hstage, hcomplete⟩ := stage_of_buildForks (build_eq_ok.mp h).1 fork
  cases hdefinitions.symm.trans hstage
  have hresolves {schema : Schema} (hschema : registry.schema fork name = .ok schema) :
      definitions.Resolves preset name schema.bare := by
    obtain ⟨hmem, rfl⟩ := hcomplete.find?_eq_some.mp (Registry.schema_eq_ok.mp hschema)
    exact hcomplete.resolves schema hmem
  cases hschema : registry.schema fork name with
  | ok schema =>
    rw [Except.map, Except.ok.injEq]
    constructor
    · rintro rfl
      exact hresolves hschema
    · exact fun hplain => (hresolves hschema).unique hplain
  | error error =>
    constructor
    · exact nofun
    · intro hplain
      obtain ⟨schema, hok⟩ :=
        Registry.exists_schema.mpr (hcomplete.names_perm.mem_iff.mpr hplain.mem_names)
      cases hschema.symm.trans hok

/-- Plans that define alike are fine at the same forks. -/
theorem DefinesAlike.fine (hplan : plan.DefinesAlike other) (h : plan.Fine preset fork) :
    other.Fine preset fork := by
  obtain ⟨definitions, hdefinitions, hresolvable⟩ := h
  obtain ⟨definitions', hdefinitions', halike⟩ := hplan.definitionsOf hdefinitions
  refine ⟨definitions', hdefinitions', ?_⟩
  rw [Definitions.resolvable_iff (nodup_names_of_definitionsOf hdefinitions')]
  intro name hname
  obtain ⟨schema, hschema⟩ :=
    (Definitions.resolvable_iff (nodup_names_of_definitionsOf hdefinitions)).mp hresolvable name
      (halike.mem_names.mpr hname)
  exact ⟨schema, hschema.of_alike halike⟩

/-- Plans that define alike and require the same build registries of the same schemas. -/
theorem DefinesAlike.build (hplan : plan.DefinesAlike other)
    (hrequired : other.required = plan.required) (h : plan.build preset = .ok registry) :
    ∃ registry', other.build preset = .ok registry' ∧ ∀ fork name,
      (registry'.schema fork name).map Schema.bare =
        (registry.schema fork name).map Schema.bare := by
  obtain ⟨hfine, hdefined⟩ := exists_build_iff.mp ⟨registry, h⟩
  have hdefined' : other.RequiredDefined := by
    intro entry hentry
    obtain ⟨definitions, hdefinitions, hname⟩ := hdefined entry (hrequired ▸ hentry)
    obtain ⟨definitions', hdefinitions', halike⟩ := hplan.definitionsOf hdefinitions
    exact ⟨definitions', hdefinitions', halike.mem_names.mp hname⟩
  obtain ⟨registry', h'⟩ := exists_build_iff.mpr ⟨fun fork => hplan.fine (hfine fork), hdefined'⟩
  refine ⟨registry', h', fun fork name => ?_⟩
  obtain ⟨definitions, hdefinitions, -⟩ := hfine fork
  obtain ⟨definitions', hdefinitions', halike⟩ := hplan.definitionsOf hdefinitions
  have hsame (plain : Schema) : (registry'.schema fork name).map Schema.bare = .ok plain ↔
      (registry.schema fork name).map Schema.bare = .ok plain := by
    rw [map_bare_schema_eq_ok h hdefinitions, map_bare_schema_eq_ok h' hdefinitions']
    exact ⟨fun hplain => hplain.of_alike halike.symm, fun hplain => hplain.of_alike halike⟩
  cases hschema' : registry'.schema fork name with
  | ok schema' => exact ((hsame schema'.bare).mp (by rw [hschema']; rfl)).symm
  | error error' =>
    cases hschema : registry.schema fork name with
    | ok schema =>
      have := (hsame schema.bare).mpr (by rw [hschema]; rfl)
      rw [hschema'] at this
      cases this
    | error error =>
      rw [Registry.of_schema_eq_error hschema, Registry.of_schema_eq_error hschema']

/-- An error names the first fork that cannot be completed, or a required record that does not
exist although every fork can be completed. -/
theorem of_build_eq_refused {error : RegistryError}
    (h : plan.build preset = .error (.refused error)) :
    (¬ plan.Fine preset error.fork ∧
      ∀ earlier : Fork, earlier.position < error.fork.position → plan.Fine preset earlier) ∨
    ((∀ fork, plan.Fine preset fork) ∧ ∃ entry ∈ plan.required,
      error = .unknownRecord entry.1 entry.2 ∧ ∃ definitions,
        plan.definitionsOf entry.1 = .ok definitions ∧ entry.2 ∉ definitions.names) := by
  rcases of_build_eq_error h with ⟨fork, hfails⟩ | ⟨registry, hforks, hrequired⟩
  · cases hfails.fork_eq error rfl
    exact .inl ⟨hfails.not_fine, hfails.fine_before⟩
  · obtain ⟨entry, hentry, herror, hmissing⟩ := of_checkRequired_error hrequired
    cases herror
    have hfine := fine_of_buildForks hforks
    obtain ⟨definitions, hdefinitions, -⟩ := hfine entry.1
    rw [(names_perm hforks hdefinitions).mem_iff] at hmissing
    exact .inr ⟨hfine, entry, hentry, rfl, definitions, hdefinitions, hmissing⟩

/-- Building agrees with plain resolution, for every plan and preset. A registry is built exactly
when at every fork the definitions in force exist and are resolvable, and every required record is
defined. Its records are then the defined ones, and their schemas, apart from when they were drawn
up, are those of plain resolution; a plan that defines alike gives a registry of the same schemas.
An error other than a missing required record names the first fork that cannot be completed. -/
theorem build_agrees_with_plain (plan : RegistryPlan) (preset : Preset) :
    ((∃ registry, plan.build preset = .ok registry) ↔
      (∀ fork, ∃ definitions, plan.definitionsOf fork = .ok definitions ∧
        definitions.Resolvable preset) ∧
      ∀ entry ∈ plan.required, ∃ definitions, plan.definitionsOf entry.1 = .ok definitions ∧
        entry.2 ∈ definitions.names) ∧
    (∀ registry, plan.build preset = .ok registry →
      (∀ fork, ∃ definitions, plan.definitionsOf fork = .ok definitions ∧
        (registry.recordNames fork).Perm definitions.names ∧
        ∀ name plain, (registry.schema fork name).map Schema.bare = .ok plain ↔
          definitions.Resolves preset name plain) ∧
      ∀ other : RegistryPlan, plan.DefinesAlike other → other.required = plan.required →
        ∃ registry', other.build preset = .ok registry' ∧ ∀ fork name,
          (registry'.schema fork name).map Schema.bare =
            (registry.schema fork name).map Schema.bare) ∧
    ∀ error, plan.build preset = .error (.refused error) →
      (¬ plan.Fine preset error.fork ∧
        ∀ earlier : Fork, earlier.position < error.fork.position → plan.Fine preset earlier) ∨
      ((∀ fork, plan.Fine preset fork) ∧ ∃ entry ∈ plan.required,
        error = .unknownRecord entry.1 entry.2 ∧ ∃ definitions,
          plan.definitionsOf entry.1 = .ok definitions ∧ entry.2 ∉ definitions.names) := by
  refine ⟨exists_build_iff, fun registry h => ⟨fun fork => ?_, fun other hplan hrequired =>
    hplan.build hrequired h⟩, fun error => of_build_eq_refused⟩
  obtain ⟨definitions, hdefinitions, -⟩ := fine_of_buildForks (build_eq_ok.mp h).1 fork
  exact ⟨definitions, hdefinitions,
    (List.mergeSort_perm _ _).trans (names_perm (build_eq_ok.mp h).1 hdefinitions),
    fun name plain => map_bare_schema_eq_ok h hdefinitions⟩

/-- In the example, the outer record is resolved plainly at the last fork. -/
theorem resolves_changingExample : ∃ registry definitions outer,
    changingExample.build .minimal = .ok registry ∧
      changingExample.definitionsOf .electra = .ok definitions ∧
      registry.schema .electra "Outer" = .ok outer ∧
      definitions.Resolves .minimal "Outer" outer.bare := by
  obtain ⟨registry, outer, _, _, hbuild, houter, -⟩ := build_changingExample
  obtain ⟨definitions, hdefinitions, -, hplain⟩ :=
    ((build_agrees_with_plain changingExample .minimal).2.1 registry hbuild).1 .electra
  exact ⟨registry, definitions, outer, hbuild, hdefinitions, houter,
    (hplain "Outer" outer.bare).mp (by rw [houter]; rfl)⟩

end BeaconSsz.RegistryPlan
