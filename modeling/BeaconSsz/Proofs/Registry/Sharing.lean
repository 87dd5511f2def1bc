import BeaconSsz.Proofs.Registry.Stages

/-!
# Which schemas are shared

Within a fork, a record and every record that holds it, at any depth, have one schema in common.
Across forks, a record keeps its schema exactly as long as a schema drawn up anew would agree with
it; a record that changes and changes back has a new one.
-/

namespace BeaconSsz

/-- A schema reaches the schemas that it holds, at any depth, and itself. -/
def Schema.Reaches : Schema → Schema → Prop :=
  Relation.ReflTransGen fun schema part => part ∈ schema.parts

/-- Closed records contain everything that they reach. -/
theorem Records.Closed.mem_of_reaches {records : Records} (h : records.Closed)
    {schema part : Schema} (hschema : schema ∈ records) (hreaches : schema.Reaches part) :
    part ∈ records := by
  induction hreaches with
  | refl => exact hschema
  | tail _ hpart ih => exact h.parts_mem _ ih _ hpart

namespace RegistryPlan

variable {plan : RegistryPlan} {preset : Preset} {registry : Registry} {fork parent : Fork}
  {name : String} {schema : Schema}

/-- The records of a fork are closed. -/
theorem closed_recordsAt (h : plan.build preset = .ok registry) (fork : Fork) :
    (registry.recordsAt fork).Closed := by
  obtain ⟨_, -, hcomplete⟩ := stage_of_buildForks (build_eq_ok.mp h).1 fork
  exact hcomplete.toBuilt.toClosed

/-- The registry has a schema exactly if it is a record of the fork. -/
theorem schema_eq_ok_iff (h : plan.build preset = .ok registry) :
    registry.schema fork name = .ok schema ↔
      schema ∈ registry.recordsAt fork ∧ schema.name = name := by
  rw [Registry.schema_eq_ok, (closed_recordsAt h fork).find?_eq_some]

/-- Records that are defined at a fork are defined at the next. -/
theorem exists_schema_next (h : plan.build preset = .ok registry)
    (hparent : fork.parent? = some parent)
    (hschema : ∃ schema, registry.schema parent name = .ok schema) :
    ∃ schema, registry.schema fork name = .ok schema := by
  obtain ⟨previous, hprevious, hbefore⟩ := stage_of_buildForks (build_eq_ok.mp h).1 parent
  obtain ⟨definitions, hdefinitions, hcomplete⟩ := stage_of_buildForks (build_eq_ok.mp h).1 fork
  rw [Registry.exists_schema, hbefore.names_perm.mem_iff] at hschema
  rw [Registry.exists_schema, hcomplete.names_perm.mem_iff]
  rw [definitionsOf_eq, hparent, Option.elim_some, hprevious] at hdefinitions
  exact mem_names_of_definitionsAt hschema hdefinitions

/-- A schema that agrees with the one of the parent is that one. -/
theorem schema_eq_of_bare_eq (h : plan.build preset = .ok registry)
    (hparent : fork.parent? = some parent) {previous : Schema}
    (hprevious : registry.schema parent name = .ok previous)
    (hschema : registry.schema fork name = .ok schema) (hbare : previous.bare = schema.bare) :
    schema = previous := by
  obtain ⟨_, -, hcomplete⟩ := stage_of_buildForks (build_eq_ok.mp h).1 fork
  rw [Registry.recordsBefore, hparent, Option.elim_some] at hcomplete
  obtain ⟨hmem, rfl⟩ := (schema_eq_ok_iff h).mp hschema
  exact hcomplete.shared schema hmem previous (Registry.schema_eq_ok.mp hprevious) hbare

/-- A schema was drawn up at its fork, or is the one of the parent. -/
theorem drawn_or_inherited (h : plan.build preset = .ok registry)
    (hschema : registry.schema fork name = .ok schema) :
    schema.edition = fork.edition ∨
      ∃ parent, fork.parent? = some parent ∧ registry.schema parent name = .ok schema := by
  obtain ⟨_, hdefinitions, hcomplete⟩ := stage_of_buildForks (build_eq_ok.mp h).1 fork
  obtain ⟨hmem, hname⟩ := (schema_eq_ok_iff h).mp hschema
  rcases hcomplete.drawn schema hmem with hinherited | hedition
  · refine .inr ?_
    dsimp only at hinherited
    rw [Registry.recordsBefore] at hinherited
    cases hparent : fork.parent? with
    | none => simp [hparent] at hinherited
    | some parent =>
      rw [hparent, Option.elim_some] at hinherited
      exact ⟨parent, rfl, (schema_eq_ok_iff h).mpr ⟨hinherited, hname⟩⟩
  · exact .inl (hedition.trans (by rw [fork_of_definitionsOf hdefinitions]))

/-- No schema is younger than its fork. -/
theorem edition_le (h : plan.build preset = .ok registry) {fork : Fork}
    (hschema : registry.schema fork name = .ok schema) : schema.edition ≤ fork.edition := by
  rcases drawn_or_inherited h hschema with hdrawn | ⟨parent, hparent, hinherited⟩
  · exact hdrawn.le
  · have hposition := Fork.position_parent hparent
    have hle := edition_le h hinherited
    rw [Fork.edition] at hle ⊢
    omega
termination_by fork.position

/-- A schema that is not younger than a fork is that of every fork from there on. -/
theorem schema_eq_of_edition_le (h : plan.build preset = .ok registry) {earlier later : Fork}
    (hle : earlier ≤ later) (hschema : registry.schema later name = .ok schema)
    (hedition : schema.edition ≤ earlier.edition) :
    ∀ fork, earlier ≤ fork → fork ≤ later → registry.schema fork name = .ok schema := by
  revert hschema
  refine Fork.le_induction (P := fun later => registry.schema later name = .ok schema →
    ∀ fork, earlier ≤ fork → fork ≤ later → registry.schema fork name = .ok schema) ?_ ?_ later hle
  · intro hschema fork hge hle
    exact Fork.le_antisymm hge hle ▸ hschema
  · intro next parent hparent hparentLe ih hschema fork hge hle
    have hposition := Fork.position_parent hparent
    -- the next fork is younger than the schema, so the schema was not drawn up there
    rcases drawn_or_inherited h hschema with hdrawn | ⟨_, hparent', hinherited⟩
    · have : earlier.position ≤ parent.position := hparentLe
      rw [hdrawn, Fork.edition, Fork.edition] at hedition
      omega
    · cases hparent.symm.trans hparent'
      rcases Fork.le_parent_or_eq hparent hle with hle | rfl
      · exact ih hinherited fork hge hle
      · exact hschema

/-- A record that keeps its bare form from fork to fork keeps its schema. -/
theorem schema_eq_of_bare_eq_between (h : plan.build preset = .ok registry) {earlier later : Fork}
    (hle : earlier ≤ later) (hschema : registry.schema earlier name = .ok schema)
    (hbetween : ∀ fork, earlier ≤ fork → fork ≤ later →
      ∃ between, registry.schema fork name = .ok between ∧ schema.bare = between.bare) :
    registry.schema later name = .ok schema := by
  revert hbetween
  refine Fork.le_induction (P := fun later => (∀ fork, earlier ≤ fork → fork ≤ later →
    ∃ between, registry.schema fork name = .ok between ∧ schema.bare = between.bare) →
      registry.schema later name = .ok schema) (fun _ => hschema) ?_ later hle
  intro next parent hparent hparentLe ih hbetween
  have hposition := Fork.position_parent hparent
  have hnext (fork : Fork) (hle : fork ≤ parent) : fork ≤ next := by
    change fork.position ≤ next.position
    have : fork.position ≤ parent.position := hle
    omega
  have hprevious := ih fun fork hge hle => hbetween fork hge (hnext fork hle)
  obtain ⟨between, hok, hbare⟩ := hbetween next (hnext earlier hparentLe) (Nat.le_refl _)
  rwa [schema_eq_of_bare_eq h hparent hprevious hok hbare] at hok

/-- Schemas of a registry that are the same are equal: of one name, the edition tells them apart. -/
theorem eq_of_isSame (h : plan.build preset = .ok registry) {fork' : Fork} {name' : String}
    {other : Schema} (hschema : registry.schema fork name = .ok schema)
    (hother : registry.schema fork' name' = .ok other) (hsame : schema.isSame other = true) :
    schema = other := by
  have hboth : schema.name = other.name ∧ schema.edition = other.edition := by
    simpa [Schema.isSame] using hsame
  have hnames : name = name' := by
    rw [← ((schema_eq_ok_iff h).mp hschema).2, hboth.1, ((schema_eq_ok_iff h).mp hother).2]
  subst hnames
  rcases Nat.le_total fork.position fork'.position with hle | hle
  · have hearlier := schema_eq_of_edition_le h hle hother
      (hboth.2 ▸ edition_le h hschema) fork (Nat.le_refl _) hle
    exact Except.ok.inj (hschema.symm.trans hearlier)
  · have hearlier := schema_eq_of_edition_le h hle hschema
      (hboth.2 ▸ edition_le h hother) fork' (Nat.le_refl _) hle
    exact Except.ok.inj (hearlier.symm.trans hother)

/-- Embedding is coherent: every schema that a record of a fork reaches is the very schema that
the registry has under its name at the fork, also where the record was taken from an earlier
fork. -/
theorem reached_schema_isSame (h : plan.build preset = .ok registry)
    (hschema : registry.schema fork name = .ok schema) {part : Schema}
    (hreaches : schema.Reaches part) :
    ∃ own, registry.schema fork part.name = .ok own ∧ own.isSame part = true ∧ own = part := by
  have hmem := ((schema_eq_ok_iff h).mp hschema).1
  have hpart := (closed_recordsAt h fork).mem_of_reaches hmem hreaches
  exact ⟨part, (schema_eq_ok_iff h).mpr ⟨hpart, rfl⟩, by simp [Schema.isSame], rfl⟩

/-- In the example, the outer record of the last fork holds the registry's own inner record. -/
theorem reached_changingExample : ∃ registry outer inner,
    changingExample.build .minimal = .ok registry ∧
      registry.schema .electra "Outer" = .ok outer ∧ inner ∈ outer.parts ∧ inner.name = "Inner" ∧
      ∃ own, registry.schema .electra "Inner" = .ok own ∧ own.isSame inner = true := by
  obtain ⟨registry, outer, _, _, hbuild, houter, hparts, -⟩ := build_changingExample
  obtain ⟨inner, hinner, hname⟩ : ∃ inner ∈ outer.parts, inner.name = "Inner" :=
    List.mem_map.mp (hparts ▸ List.mem_singleton_self _)
  obtain ⟨own, hown, hsame, -⟩ := reached_schema_isSame hbuild houter (.single hinner)
  exact ⟨registry, outer, inner, hbuild, houter, hinner, hname, own, hname ▸ hown, hsame⟩

/-- Sharing across forks is exact: a record has one schema at two forks exactly if its schemas
agree at all forks from the one to the other. -/
theorem isSame_iff_agrees_between (h : plan.build preset = .ok registry) {earlier later : Fork}
    (hle : earlier ≤ later) (hschema : registry.schema earlier name = .ok schema) :
    ∃ latest, registry.schema later name = .ok latest ∧
      (schema.isSame latest = true ↔ ∀ fork, earlier ≤ fork → fork ≤ later →
        ∃ between, registry.schema fork name = .ok between ∧ schema.agrees between = true) := by
  obtain ⟨latest, hlatest⟩ : ∃ latest, registry.schema later name = .ok latest :=
    Fork.le_induction (P := fun fork => ∃ latest, registry.schema fork name = .ok latest)
      ⟨schema, hschema⟩ (fun _ _ hparent _ ih => exists_schema_next h hparent ih) later hle
  refine ⟨latest, hlatest, fun hsame fork hge hle' => ?_, fun hbetween => ?_⟩
  · have hedition : latest.edition = schema.edition := by
      have : schema.name = latest.name ∧ schema.edition = latest.edition := by
        simpa [Schema.isSame] using hsame
      exact this.2.symm
    have hall := schema_eq_of_edition_le h hle hlatest (hedition.trans_le (edition_le h hschema))
    cases hschema.symm.trans (hall earlier (Nat.le_refl _) hle)
    exact ⟨schema, hall fork hge hle', schema.agrees_self⟩
  · have hbare (fork : Fork) (hge : earlier ≤ fork) (hle' : fork ≤ later) :
        ∃ between, registry.schema fork name = .ok between ∧ schema.bare = between.bare := by
      obtain ⟨between, hok, hagrees⟩ := hbetween fork hge hle'
      exact ⟨between, hok, (schema.agrees_iff between).mp hagrees⟩
    cases hlatest.symm.trans (schema_eq_of_bare_eq_between h hle hschema hbare)
    simp [Schema.isSame]

/-- In the example, the inner record is in the end as it was at first, but not the same one:
somewhere between it was another one. -/
theorem not_agrees_between_changingExample : ∃ registry first last,
    changingExample.build .minimal = .ok registry ∧
      registry.schema .phase0 "Inner" = .ok first ∧ registry.schema .electra "Inner" = .ok last ∧
      first.agrees last = true ∧ ¬ ∀ fork, .phase0 ≤ fork → fork ≤ .electra →
        ∃ between, registry.schema fork "Inner" = .ok between ∧ first.agrees between = true := by
  obtain ⟨registry, _, first, last, hbuild, -, -, hfirst, hlast, hagrees, hsame⟩ :=
    build_changingExample
  obtain ⟨latest, hlatest, hiff⟩ :=
    isSame_iff_agrees_between hbuild (by decide : Fork.phase0 ≤ Fork.electra) hfirst
  cases hlast.symm.trans hlatest
  refine ⟨registry, first, last, hbuild, hfirst, hlast, hagrees, fun hbetween => ?_⟩
  exact Bool.false_ne_true (hsame.symm.trans (hiff.mpr hbetween))

end RegistryPlan

end BeaconSsz
