import BeaconSsz.Proofs.Registry.Building

/-!
# Building fork by fork

A registry is built in stages, one for each fork: the definitions of the fork are made from those
of its parent, and its records are built on top of those of its parent. A build gives a registry
exactly when every stage can be completed and the required records exist. Otherwise it stops at
the first stage that cannot be completed.
-/

namespace BeaconSsz

namespace RegistryPlan

variable {plan : RegistryPlan} {preset : Preset} {done : List (Fork × Records)}
  {definitions : Definitions} {inherited : Records} {fork : Fork}

/-- Forks that are done, the definitions of the last one and its records. -/
inductive Stages (plan : RegistryPlan) (preset : Preset) :
    List (Fork × Records) → Definitions → Records → Prop
  | start : Stages plan preset [] .empty []
  | next {done : List (Fork × Records)} {definitions changed : Definitions}
      {inherited records : Records} {fork : Fork}
      (hdone : Stages plan preset done definitions inherited)
      (hdefinitions : plan.definitionsAt definitions fork = .ok changed)
      (hcomplete : Scope.Complete ⟨preset, changed, inherited⟩ records) :
      Stages plan preset (done ++ [(fork, records)]) changed records

namespace Stages

/-- The definitions of the last stage are made from none, fork by fork. -/
theorem foldlM_eq (h : plan.Stages preset done definitions inherited) :
    (done.map Prod.fst).foldlM plan.definitionsAt .empty = .ok definitions := by
  induction h with
  | start => rfl
  | next _ hdefinitions _ ih =>
    rw [List.map_append, List.foldlM_append, ih]
    simpa using hdefinitions

/-- The inherited records are those of the last stage. -/
theorem inherited_eq (h : plan.Stages preset done definitions inherited) :
    inherited = (done.getLast?.map Prod.snd).getD [] := by
  cases h with
  | start => rfl
  | next => simp

/-- The names of every stage are distinct. -/
theorem nodup_names (h : plan.Stages preset done definitions inherited) :
    definitions.names.Nodup := by
  induction h with
  | start => exact List.nodup_nil
  | next _ hdefinitions _ ih => exact nodup_names_of_definitionsAt ih hdefinitions

/-- The records of every stage are closed. -/
theorem closed (h : plan.Stages preset done definitions inherited) : inherited.Closed := by
  cases h with
  | start => exact Records.closed_nil
  | next _ _ hcomplete => exact hcomplete.toBuilt.toClosed

/-- Every stage was completed on top of those before it. -/
theorem exists_of_eq_append (h : plan.Stages preset done definitions inherited)
    {before after : List (Fork × Records)} {records : Records}
    (hdone : done = before ++ (fork, records) :: after) :
    ∃ previous changed below, plan.Stages preset before previous below ∧
      plan.definitionsAt previous fork = .ok changed ∧
        Scope.Complete ⟨preset, changed, below⟩ records := by
  induction h generalizing after with
  | start => simp at hdone
  | next hbefore hdefinitions hcomplete ih =>
    rcases List.eq_nil_or_concat after with rfl | ⟨after, last, rfl⟩
    · obtain ⟨rfl, hlast⟩ := List.append_inj' hdone rfl
      cases hlast
      exact ⟨_, _, _, hbefore, hdefinitions, hcomplete⟩
    · rw [List.concat_eq_append, ← List.cons_append, ← List.append_assoc] at hdone
      obtain ⟨hdone, -⟩ := List.append_inj' hdone rfl
      exact ih hdone

end Stages

/-- A stage can be completed: the catalogue and the plan define the records of the fork, and they
are resolvable. -/
def Fine (plan : RegistryPlan) (preset : Preset) (fork : Fork) : Prop :=
  ∃ definitions, plan.definitionsOf fork = .ok definitions ∧ definitions.Resolvable preset

/-- The definitions in force at the fork behind the stages. -/
theorem Stages.definitionsOf_eq (h : plan.Stages preset done definitions inherited)
    {rest : List Fork} (hforks : Fork.all = done.map Prod.fst ++ fork :: rest) :
    plan.definitionsOf fork = plan.definitionsAt definitions fork := by
  rw [definitionsOf, Fork.filter_le_eq hforks, List.foldlM_append, h.foldlM_eq]
  simp only [List.foldlM_cons, List.foldlM_nil, bind_pure]
  rfl

/-- A fork behind the stages was fine if it is among them. -/
theorem Stages.fine (h : plan.Stages preset done definitions inherited) {rest : List Fork}
    (hforks : Fork.all = done.map Prod.fst ++ rest) (hfork : fork ∈ done.map Prod.fst) :
    plan.Fine preset fork := by
  obtain ⟨⟨_, records⟩, hmem, rfl⟩ := List.mem_map.mp hfork
  obtain ⟨before, after, rfl⟩ := List.append_of_mem hmem
  obtain ⟨previous, changed, below, hbefore, hdefinitions, hcomplete⟩ := h.exists_of_eq_append rfl
  rw [List.map_append, List.map_cons, List.append_assoc, List.cons_append] at hforks
  refine ⟨changed, (hbefore.definitionsOf_eq hforks).trans hdefinitions, hcomplete.resolvable ?_⟩
  exact nodup_names_of_definitionsAt hbefore.nodup_names hdefinitions

/-- The first fork that cannot be completed, with the stop of a build. -/
structure FailsAt (plan : RegistryPlan) (preset : Preset) (fork : Fork)
    (stop : Stop RegistryError) : Prop where
  not_fine : ¬ plan.Fine preset fork
  fine_before : ∀ earlier : Fork, earlier.position < fork.position → plan.Fine preset earlier
  fork_eq : ∀ error, stop = .refused error → error.fork = fork

/-- Building the forks that are left completes every stage, or stops at the first one that cannot
be completed. -/
theorem buildForks_outcome (h : plan.Stages preset done definitions inherited)
    (forks : List Fork) (hforks : Fork.all = done.map Prod.fst ++ forks) :
    match (plan.buildForks preset definitions inherited done forks).2 with
    | .ok all => all.map Prod.fst = Fork.all ∧
      ∃ definitions inherited, plan.Stages preset all definitions inherited
    | .error stop => ∃ fork, plan.FailsAt preset fork stop := by
  induction forks generalizing done definitions inherited with
  | nil =>
    rw [buildForks]
    exact ⟨by rw [hforks, List.append_nil], _, _, h⟩
  | cons fork forks ih =>
    have hbefore (earlier : Fork) (hearlier : earlier.position < fork.position) :
        plan.Fine preset earlier :=
      h.fine hforks ((Fork.mem_before_iff hforks).mpr hearlier)
    have hof := h.definitionsOf_eq hforks
    rw [buildForks]
    cases hdefinitions : plan.definitionsAt definitions fork with
    | error error =>
      refine ⟨fork, ?_, hbefore, fun other hother => ?_⟩
      · rintro ⟨_, hfine, -⟩
        cases hdefinitions.symm.trans (hof.symm.trans hfine)
      · cases hother
        exact fork_of_definitionsAt_error hdefinitions
    | ok changed =>
      have hdistinct := nodup_names_of_definitionsAt h.nodup_names hdefinitions
      have hrun := Scope.run_buildRecords ⟨preset, changed, inherited⟩ h.closed hdistinct
      dsimp only
      rcases hrecords : (buildRecords ⟨preset, changed, inherited⟩).run [] with
        ⟨stop | ⟨⟨⟩⟩, records⟩
      · rw [hrecords] at hrun
        refine ⟨fork, ?_, hbefore, fun error herror => ?_⟩
        · rintro ⟨_, hfine, hresolvable⟩
          cases hdefinitions.symm.trans (hof.symm.trans hfine)
          exact hrun.not_resolvable hresolvable
        · exact (hrun.fork error herror).trans (fork_of_definitionsAt hdefinitions)
      · rw [hrecords] at hrun
        refine ih (h.next hdefinitions hrun) ?_
        rw [List.map_append, List.map_singleton, List.append_assoc, List.singleton_append]
        exact hforks

end RegistryPlan

namespace Registry

variable {registry : Registry} {fork : Fork} {name : String} {schema : Schema}

/-- The records that those of a fork are built on top of: those of its parent. -/
def recordsBefore (registry : Registry) (fork : Fork) : Records :=
  fork.parent?.elim [] registry.recordsAt

/-- The registry has the schema of a record if it is found among the records of the fork. -/
theorem schema_eq_ok : registry.schema fork name = .ok schema ↔
    (registry.recordsAt fork).find? name = some schema := by
  rw [Registry.schema]
  cases (registry.recordsAt fork).find? name <;> simp

/-- What the registry does not have is an unknown record. -/
theorem of_schema_eq_error {error : RegistryError} (h : registry.schema fork name = .error error) :
    error = .unknownRecord fork name := by
  rw [Registry.schema] at h
  split at h <;> cases h
  rfl

/-- The registry has a schema exactly for the records of the fork. -/
theorem exists_schema :
    (∃ schema, registry.schema fork name = .ok schema) ↔
      name ∈ (registry.recordsAt fork).map (·.name) := by
  rw [← Records.isSome_find?, Option.isSome_iff_exists]
  simp only [schema_eq_ok]

/-- Where forks are listed once, the records of a fork are those listed with it. -/
theorem recordsAt_eq (hforks : registry.forks.map Prod.fst = Fork.all)
    {before after : List (Fork × Records)} {records : Records}
    (h : registry.forks = before ++ (fork, records) :: after) :
    registry.recordsAt fork = records := by
  have hnodup : (registry.forks.map Prod.fst).Nodup := hforks ▸ by decide
  rw [h, List.map_append] at hnodup
  have hnew : before.lookup fork = none := by
    rw [List.lookup_eq_none_iff]
    intro entry hentry
    rw [bne_iff_ne]
    rintro rfl
    exact List.disjoint_of_nodup_append hnodup (List.mem_map_of_mem hentry) List.mem_cons_self
  rw [recordsAt, h, List.lookup_append, hnew]
  simp

end Registry

namespace RegistryPlan

variable {plan : RegistryPlan} {preset : Preset} {registry : Registry}

/-- Once all forks are built, every fork was completed on top of its parent. -/
theorem stage_of_buildForks
    (h : (plan.buildForks preset .empty [] [] Fork.all).2 = .ok registry.forks) (fork : Fork) :
    ∃ definitions, plan.definitionsOf fork = .ok definitions ∧
      Scope.Complete ⟨preset, definitions, registry.recordsBefore fork⟩
        (registry.recordsAt fork) := by
  have houtcome := buildForks_outcome (Stages.start : plan.Stages preset [] .empty []) Fork.all rfl
  rw [h] at houtcome
  obtain ⟨hforks, definitions, inherited, hstages⟩ := houtcome
  obtain ⟨⟨fork, records⟩, hmem, rfl⟩ := List.mem_map.mp (hforks ▸ fork.mem_all)
  obtain ⟨before, after, hsplit⟩ := List.append_of_mem hmem
  obtain ⟨previous, changed, below, hbefore, hdefinitions, hcomplete⟩ :=
    hstages.exists_of_eq_append hsplit
  have hall := hforks.symm
  rw [hsplit, List.map_append, List.map_cons] at hall
  have hbelow : registry.recordsBefore fork = below := by
    rw [Registry.recordsBefore, Fork.parent?_eq hall, hbefore.inherited_eq]
    rcases List.eq_nil_or_concat before with rfl | ⟨before, ⟨parent, records⟩, rfl⟩
    · rfl
    · rw [List.concat_eq_append, List.append_assoc, List.cons_append] at hsplit
      simpa using Registry.recordsAt_eq hforks hsplit
  dsimp only
  rw [Registry.recordsAt_eq hforks hsplit, hbelow]
  exact ⟨changed, (hbefore.definitionsOf_eq hall).trans hdefinitions, hcomplete⟩

/-- The required records exist exactly if the registry has them. -/
theorem checkRequired_eq_ok {required : List (Fork × String)} :
    checkRequired registry required = .ok () ↔
      ∀ entry ∈ required, entry.2 ∈ (registry.recordsAt entry.1).map (·.name) := by
  induction required with
  | nil => simp [checkRequired]
  | cons entry required ih =>
    rw [checkRequired, List.forall_mem_cons, ← Registry.exists_schema, ← ih]
    simp [Stop.orRefuse]

/-- A missing required record is named. -/
theorem of_checkRequired_error {required : List (Fork × String)} {stop : Stop RegistryError}
    (h : checkRequired registry required = .error stop) :
    ∃ entry ∈ required, stop = .refused (.unknownRecord entry.1 entry.2) ∧
      entry.2 ∉ (registry.recordsAt entry.1).map (·.name) := by
  induction required with
  | nil => cases h
  | cons entry required ih =>
    rw [checkRequired] at h
    cases hschema : registry.schema entry.1 entry.2 with
    | ok schema =>
      rw [hschema] at h
      obtain ⟨missing, hmem, hmissing⟩ := ih h
      exact ⟨missing, List.mem_cons_of_mem _ hmem, hmissing⟩
    | error error =>
      rw [hschema] at h
      cases h
      refine ⟨entry, List.mem_cons_self, ?_, fun hname => ?_⟩
      · rw [Registry.of_schema_eq_error hschema]
      · obtain ⟨schema, h⟩ := Registry.exists_schema.mpr hname
        cases hschema.symm.trans h

/-- A build builds all forks and then looks for the required records. -/
theorem build_eq (plan : RegistryPlan) (preset : Preset) : plan.build preset =
    (plan.buildForks preset .empty [] [] Fork.all).2 >>= fun forks =>
      (checkRequired ⟨preset, forks⟩ plan.required).map fun _ => ⟨preset, forks⟩ := by
  rw [build, buildWithEvents]
  rcases plan.buildForks preset .empty [] [] Fork.all with ⟨events, stop | forks⟩
  · rfl
  · change (checkRequired ⟨preset, forks⟩ plan.required >>= fun _ =>
      pure (Registry.mk preset forks)) = (checkRequired ⟨preset, forks⟩ plan.required).map _
    cases checkRequired ⟨preset, forks⟩ plan.required <;> rfl

/-- A build succeeds exactly when all forks are built and the required records are there. -/
theorem build_eq_ok : plan.build preset = .ok registry ↔
    (plan.buildForks preset .empty [] [] Fork.all).2 = .ok registry.forks ∧
      registry.preset = preset ∧ checkRequired registry plan.required = .ok () := by
  rw [build_eq, bind_eq_ok]
  simp only [map_eq_ok]
  constructor
  · rintro ⟨forks, hforks, ⟨⟩, hrequired, rfl⟩
    exact ⟨hforks, rfl, hrequired⟩
  · rintro ⟨hforks, rfl, hrequired⟩
    exact ⟨registry.forks, hforks, (), hrequired, rfl⟩

/-- A build stops at the first fork that cannot be completed, or else for a required record that
does not exist. -/
theorem of_build_eq_error {stop : Stop RegistryError} (h : plan.build preset = .error stop) :
    (∃ fork, plan.FailsAt preset fork stop) ∨
      ∃ registry : Registry,
        (plan.buildForks preset .empty [] [] Fork.all).2 = .ok registry.forks ∧
          checkRequired registry plan.required = .error stop := by
  rw [build_eq, bind_eq_error] at h
  rcases h with hforks | ⟨forks, hforks, hrequired⟩
  · have houtcome :=
      buildForks_outcome (Stages.start : plan.Stages preset [] .empty []) Fork.all rfl
    rw [hforks] at houtcome
    exact .inl houtcome
  · exact .inr ⟨⟨preset, forks⟩, hforks, map_eq_error.mp hrequired⟩

/-- A plan in which a record changes and changes back, below another one whose bound changes. -/
def changingExample : RegistryPlan :=
  standard
    |>.define .phase0
      ⟨"Outer", [("inner", .list (.container "Inner") (.named "MAX_ATTESTATIONS"))]⟩
    |>.define .phase0 ⟨"Inner", [("count", .uint 8)]⟩
    |>.define .bellatrix ⟨"Inner", [("count", .uint 8), ("mark", .boolean)]⟩
    |>.define .capella ⟨"Inner", [("count", .uint 8)]⟩
    |>.require .electra "Outer"

/-- The example is built. Its inner record is in the end as it was at first, but drawn up anew. -/
theorem build_changingExample : ∃ registry outer first last,
    changingExample.build .minimal = .ok registry ∧
      registry.schema .electra "Outer" = .ok outer ∧ outer.parts.map (·.name) = ["Inner"] ∧
      registry.schema .phase0 "Inner" = .ok first ∧ registry.schema .electra "Inner" = .ok last ∧
      first.agrees last = true ∧ first.isSame last = false := by
  have h : ((changingExample.build .minimal).toOption.any fun registry =>
      (registry.schema .electra "Outer").toOption.any fun outer =>
        (registry.schema .phase0 "Inner").toOption.any fun first =>
          (registry.schema .electra "Inner").toOption.any fun last =>
            outer.parts.map (·.name) == ["Inner"] && first.agrees last && !first.isSame last) =
        true := by
    decide +kernel
  simp only [any_toOption, Bool.and_eq_true, beq_iff_eq, Bool.not_eq_true'] at h
  obtain ⟨registry, hbuild, outer, houter, first, hfirst, last, hlast, ⟨hparts, hagrees⟩, hsame⟩ :=
    h
  exact ⟨registry, outer, first, last, hbuild, houter, hparts, hfirst, hlast, hagrees, hsame⟩

end RegistryPlan

end BeaconSsz
