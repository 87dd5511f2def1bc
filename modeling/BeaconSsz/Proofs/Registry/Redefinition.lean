import BeaconSsz.Proofs.Registry.Plain

/-!
# Records that a plan defines again

A plan defines a record from a fork on. At later forks the catalogue goes on amending whatever is
in force: where it revises the record, it revises the planned one; but where it defines a record of
the same name, it puts its own in the place of the planned one, and goes on with that.
-/

namespace BeaconSsz

namespace Amendment

/-- Whether the amendment defines a record of a name. -/
def defines (name : String) : Amendment → Bool
  | define descriptor => descriptor.name == name
  | revise _ _ => false

/-- The changes of fields that the amendment makes to the record of a name. -/
def revisions (name : String) : Amendment → List Edit
  | define _ => []
  | revise record edits => if record = name then edits else []

end Amendment

namespace Fork

/-- Whether the catalogue defines a record of a name at a fork. -/
def defines (fork : Fork) (name : String) : Bool :=
  fork.amendments.any (·.defines name)

/-- The changes of fields that the catalogue makes to the record of a name at a fork, in order. -/
def revisions (fork : Fork) (name : String) : List Edit :=
  fork.amendments.flatMap (·.revisions name)

/-- The forks behind a fork, up to a later one. -/
def upTo (earlier later : Fork) : List Fork :=
  all.filter fun fork => earlier.position < fork.position ∧ fork ≤ later

/-- Whether the catalogue defines a record of a name at a fork behind one, up to a later one. -/
def definesSince (earlier later : Fork) (name : String) : Bool :=
  (earlier.upTo later).any (·.defines name)

/-- The changes of fields that the catalogue makes to the record of a name at the forks behind one,
up to a later one, in order. -/
def revisionsSince (earlier later : Fork) (name : String) : List Edit :=
  (earlier.upTo later).flatMap (·.revisions name)

/-- There are no forks behind a fork up to itself. -/
theorem upTo_self (fork : Fork) : fork.upTo fork = [] := by
  cases fork <;> rfl

/-- The forks up to a fork are those up to its parent, and then the fork itself. -/
theorem upTo_eq {earlier later parent : Fork} (h : later.parent? = some parent)
    (hle : earlier ≤ parent) : earlier.upTo later = earlier.upTo parent ++ [later] := by
  cases later <;> cases h <;> cases earlier <;> first | rfl | exact absurd hle (by decide)

/-- What is defined up to a fork is defined up to its parent or at the fork. -/
theorem definesSince_eq {earlier later parent : Fork} (h : later.parent? = some parent)
    (hle : earlier ≤ parent) (name : String) :
    earlier.definesSince later name = (earlier.definesSince parent name || later.defines name) := by
  rw [definesSince, upTo_eq h hle, List.any_append, List.any_cons, List.any_nil, Bool.or_false]
  rfl

/-- What is changed up to a fork is changed up to its parent, and then at the fork. -/
theorem revisionsSince_eq {earlier later parent : Fork} (h : later.parent? = some parent)
    (hle : earlier ≤ parent) (name : String) :
    earlier.revisionsSince later name =
      earlier.revisionsSince parent name ++ later.revisions name := by
  rw [revisionsSince, upTo_eq h hle, List.flatMap_append, List.flatMap_singleton]
  rfl

end Fork

/-- Changes in two parts are made one part after the other. -/
theorem Descriptor.editAll_append (descriptor : Descriptor) (edits more : List Edit) :
    descriptor.editAll (edits ++ more) = descriptor.editAll edits >>= (·.editAll more) :=
  List.foldlM_append

/-- The fields of the schema have the names of those of the descriptor. -/
theorem Descriptor.map_name_of_resolve {context : Context} {edition : Nat}
    {descriptor : Descriptor} {schema : Schema}
    (h : descriptor.resolve context edition = .ok schema) :
    schema.fields.map Field.name = descriptor.fields.map Prod.fst := by
  obtain ⟨fields, hfields, hmake⟩ := resolve_eq_ok.mp h
  obtain ⟨-, -, _, -, rfl⟩ := Schema.make_eq_ok.mp hmake
  exact map_name_of_resolveFields hfields

namespace Definitions

variable {definitions other changed changed' : Definitions} {name : String}

/-- An amendment puts in place what it defines, or the record that it revises with its changes. -/
theorem of_amended_eq_ok {amendment : Amendment} {inserted : Descriptor}
    (h : definitions.amended amendment = .ok inserted) :
    amendment = .define inserted ∨ ∃ edits revised, amendment = .revise inserted.name edits ∧
      definitions.get? inserted.name = some revised ∧ revised.editAll edits = .ok inserted := by
  cases amendment with
  | define descriptor =>
    cases h
    exact .inl rfl
  | revise record edits =>
    rw [amended] at h
    split at h
    · cases h
    · next revised hrevised =>
      rw [mapError_eq_ok] at h
      obtain rfl : inserted.name = record := by
        rw [Descriptor.name_of_editAll h, name_of_find? hrevised]
      exact .inr ⟨edits, revised, rfl, hrevised, h⟩

/-- An amendment that does not define a record makes its own changes to it. -/
theorem exists_editAll_of_amend {amendment : Amendment} {descriptor : Descriptor}
    (h : definitions.amend amendment = .ok changed) (hnone : amendment.defines name = false)
    (hget : definitions.get? name = some descriptor) :
    ∃ current, changed.get? name = some current ∧
      descriptor.editAll (amendment.revisions name) = .ok current := by
  rw [amend_eq_map, map_eq_ok] at h
  obtain ⟨inserted, hinserted, rfl⟩ := h
  rw [get?_insert]
  by_cases hname : name = inserted.name
  · subst hname
    rw [if_pos rfl]
    rcases of_amended_eq_ok hinserted with rfl | ⟨edits, revised, rfl, hrevised, hedits⟩
    · simp [Amendment.defines] at hnone
    · rw [hget, Option.some_inj] at hrevised
      subst hrevised
      exact ⟨inserted, rfl, by rwa [Amendment.revisions, if_pos rfl]⟩
  · rw [if_neg hname]
    refine ⟨descriptor, hget, ?_⟩
    rcases of_amended_eq_ok hinserted with rfl | ⟨edits, revised, rfl, -, -⟩
    · rfl
    · rw [Amendment.revisions, if_neg (Ne.symm hname)]
      rfl

/-- Amendments that do not define a record make their changes to it in order. -/
theorem exists_editAll_of_foldlM_amend {amendments : List Amendment} {descriptor : Descriptor}
    (h : amendments.foldlM amend definitions = .ok changed)
    (hnone : amendments.any (·.defines name) = false)
    (hget : definitions.get? name = some descriptor) :
    ∃ current, changed.get? name = some current ∧
      descriptor.editAll (amendments.flatMap (·.revisions name)) = .ok current := by
  induction amendments generalizing definitions descriptor with
  | nil =>
    cases h
    exact ⟨descriptor, hget, rfl⟩
  | cons amendment amendments ih =>
    rw [List.foldlM_cons, bind_eq_ok] at h
    obtain ⟨next, hnext, h⟩ := h
    rw [List.any_cons, Bool.or_eq_false_iff] at hnone
    obtain ⟨current, hcurrent, hedit⟩ := exists_editAll_of_amend hnext hnone.1 hget
    obtain ⟨last, hlast, hedits⟩ := ih h hnone.2 hcurrent
    refine ⟨last, hlast, ?_⟩
    rw [List.flatMap_cons, Descriptor.editAll_append, bind_eq_ok]
    exact ⟨current, hedit, hedits⟩

/-- After an amendment that defines a record, or before which it was the same in two definitions,
it is the same in both. -/
theorem get?_eq_of_amend {amendment : Amendment} (h : definitions.amend amendment = .ok changed)
    (h' : other.amend amendment = .ok changed')
    (hsame : amendment.defines name = true ∨ definitions.get? name = other.get? name) :
    changed.get? name = changed'.get? name := by
  rw [amend_eq_map, map_eq_ok] at h h'
  obtain ⟨inserted, hinserted, rfl⟩ := h
  obtain ⟨inserted', hinserted', rfl⟩ := h'
  rw [get?_insert, get?_insert]
  rcases of_amended_eq_ok hinserted with rfl | ⟨edits, revised, rfl, hrevised, hedits⟩
  · cases hinserted'
    split
    · rfl
    · next hname =>
      exact hsame.resolve_left fun hdefines => hname (beq_iff_eq.mp hdefines).symm
  · have hsame := hsame.resolve_left nofun
    rcases of_amended_eq_ok hinserted' with ⟨⟨⟩⟩ | ⟨_, revised', heq, hrevised', hedits'⟩
    obtain ⟨hname, rfl⟩ := Amendment.revise.inj heq
    rw [← hname] at hrevised' ⊢
    split
    · next hrecord =>
      subst hrecord
      rw [hrevised, hrevised', Option.some_inj] at hsame
      subst hsame
      rw [hedits, Except.ok.injEq] at hedits'
      rw [hedits']
    · exact hsame

/-- After amendments some of which define a record, or before which it was the same in two
definitions, it is the same in both. -/
theorem get?_eq_of_foldlM_amend {amendments : List Amendment}
    (h : amendments.foldlM amend definitions = .ok changed)
    (h' : amendments.foldlM amend other = .ok changed')
    (hsame : amendments.any (·.defines name) = true ∨ definitions.get? name = other.get? name) :
    changed.get? name = changed'.get? name := by
  induction amendments generalizing definitions other with
  | nil =>
    cases h
    cases h'
    exact hsame.resolve_left nofun
  | cons amendment amendments ih =>
    rw [List.foldlM_cons, bind_eq_ok] at h h'
    obtain ⟨next, hnext, h⟩ := h
    obtain ⟨next', hnext', h'⟩ := h'
    rw [List.any_cons, Bool.or_eq_true, or_assoc] at hsame
    refine ih h h' ?_
    by_cases hlater : amendments.any (·.defines name) = true
    · exact .inl hlater
    · refine .inr (get?_eq_of_amend hnext hnext' (hsame.imp_right fun h => h.resolve_left hlater))

/-- The definitions of the catalogue at a fork are made from those of its parent. -/
theorem ofFork_eq {fork parent : Fork} (h : fork.parent? = some parent) :
    ofFork fork = ofFork parent >>= (·.upgrade fork) := by
  rw [ofFork, Fork.filter_le, h, Option.elim_some, List.foldlM_append]
  simp [ofFork]

/-- The catalogue alone has definitions at every fork. -/
theorem exists_ofFork (fork : Fork) : ∃ definitions, ofFork fork = .ok definitions := by
  -- They are computed once, up to the last fork; those of a parent are computed on the way.
  have hparent {fork : Fork} (parent : Fork) (h : fork.parent? = some parent)
      (hfork : ∃ definitions, ofFork fork = .ok definitions) :
      ∃ definitions, ofFork parent = .ok definitions := by
    obtain ⟨definitions, hfork⟩ := hfork
    rw [ofFork_eq h, bind_eq_ok] at hfork
    obtain ⟨previous, hprevious, -⟩ := hfork
    exact ⟨previous, hprevious⟩
  have hcomputed : (ofFork .electra).toOption.isSome = true := by decide +kernel
  obtain ⟨definitions, hdefinitions⟩ := Option.isSome_iff_exists.mp hcomputed
  have helectra : ∃ definitions, ofFork .electra = .ok definitions :=
    ⟨definitions, toOption_eq_some.mp hdefinitions⟩
  have hdeneb := hparent .deneb rfl helectra
  have hcapella := hparent .capella rfl hdeneb
  have hbellatrix := hparent .bellatrix rfl hcapella
  have haltair := hparent .altair rfl hbellatrix
  cases fork with
  | phase0 => exact hparent .phase0 rfl haltair
  | altair => exact haltair
  | bellatrix => exact hbellatrix
  | capella => exact hcapella
  | deneb => exact hdeneb
  | electra => exact helectra

end Definitions

/-- What names stand for at a fork of a registry: the bounds of the fork, and its records without
their editions. -/
def Registry.bareContext (registry : Registry) (fork : Fork) : Context where
  bound? := resolveBound registry.preset fork
  container? name := ((registry.schema fork name).map Schema.bare).toOption

/-- The schema of a record is resolved from the definition in force, with the bounds and the
records of the fork. -/
theorem RegistryPlan.exists_resolve_of_get? {plan : RegistryPlan} {preset : Preset}
    {registry : Registry} (h : plan.build preset = .ok registry) {fork : Fork}
    {definitions : Definitions} (hdefinitions : plan.definitionsOf fork = .ok definitions)
    {name : String} {descriptor : Descriptor} (hget : definitions.get? name = some descriptor) :
    ∃ schema, registry.schema fork name = .ok schema ∧
      descriptor.resolve (registry.bareContext fork) 0 = .ok schema.bare := by
  obtain ⟨hforks, hpreset, -⟩ := build_eq_ok.mp h
  obtain ⟨_, hdefinitions', hresolvable⟩ := fine_of_buildForks hforks fork
  cases hdefinitions.symm.trans hdefinitions'
  have hdistinct := nodup_names_of_definitionsOf hdefinitions
  obtain ⟨plain, hplain⟩ := (Definitions.resolvable_iff hdistinct).mp hresolvable name
    (Definitions.exists_get?.mp ⟨descriptor, hget⟩)
  obtain ⟨schema, hschema, rfl⟩ := map_eq_ok.mp ((map_bare_schema_eq_ok h hdefinitions).mpr hplain)
  refine ⟨schema, hschema, ?_⟩
  obtain ⟨part?, hget', hparts, hresolve⟩ := hplain
  rw [hget, Option.some_inj] at hget'
  subst hget'
  rw [← hresolve]
  refine Descriptor.resolve_congr ?_ 0 fun reference hreference => ?_
  · rw [Registry.bareContext, hpreset, fork_of_definitionsOf hdefinitions]
  · obtain ⟨part, hpart⟩ := Option.isSome_iff_exists.mp
      (Descriptor.isSome_of_resolve hresolve hreference)
    have hpart' := (map_bare_schema_eq_ok h hdefinitions).mpr (hparts reference part hpart)
    exact (toOption_eq_some.mpr hpart').trans hpart.symm

namespace RegistryPlan

variable {plan : RegistryPlan} {preset : Preset} {registry : Registry} {fork later : Fork}
  {descriptor : Descriptor} {definitions : Definitions}

/-- The plan defines a record at a fork, and does not define one of the same name after it: neither
later at this fork nor at a later one. -/
def DefinesLast (plan : RegistryPlan) (fork : Fork) (descriptor : Descriptor) : Prop :=
  ∃ before after, plan.defined = before ++ (fork, descriptor) :: after ∧
    (∀ entry ∈ after, entry.1 = fork → entry.2.name ≠ descriptor.name) ∧
    ∀ entry ∈ plan.defined, fork.position < entry.1.position → entry.2.name ≠ descriptor.name

/-- At its fork, the definition is the last one under its name. -/
theorem DefinesLast.getLast? (hlast : plan.DefinesLast fork descriptor) :
    ((plan.definedAt fork).filter (·.name == descriptor.name)).getLast? = some descriptor := by
  obtain ⟨before, after, hplan, hafter, -⟩ := hlast
  have hnone :
      ((after.filter (·.1 == fork)).map (·.2)).filter (·.name == descriptor.name) = [] := by
    rw [List.filter_eq_nil_iff, List.forall_mem_map]
    intro entry hentry
    rw [List.mem_filter, beq_iff_eq] at hentry
    simpa using hafter entry hentry.1 hentry.2
  rw [definedAt, hplan, List.filter_append, List.filter_cons_of_pos (by simp), List.map_append,
    List.map_cons, List.filter_append, List.filter_cons_of_pos (by simp), hnone]
  simp

/-- At later forks there are no definitions under its name. -/
theorem DefinesLast.filter_eq_nil (hlast : plan.DefinesLast fork descriptor)
    (hlater : fork.position < later.position) :
    (plan.definedAt later).filter (·.name == descriptor.name) = [] := by
  obtain ⟨-, -, -, -, hnone⟩ := hlast
  rw [definedAt, List.filter_eq_nil_iff, List.forall_mem_map]
  intro entry hentry
  rw [List.mem_filter, beq_iff_eq] at hentry
  simpa using hnone entry hentry.1 (hentry.2 ▸ hlater)

/-- At its fork, the definition is in force. -/
theorem DefinesLast.get?_eq (hlast : plan.DefinesLast fork descriptor)
    (h : plan.definitionsOf fork = .ok definitions) :
    definitions.get? descriptor.name = some descriptor := by
  rw [definitionsOf_eq, bind_eq_ok] at h
  obtain ⟨previous, -, h⟩ := h
  rw [definitionsAt_eq, map_eq_ok] at h
  obtain ⟨upgraded, -, rfl⟩ := h
  rw [Definitions.get?_foldl_insert, hlast.getLast?, Option.some_or]

/-- At a later fork, the catalogue alone decides what becomes of the record. -/
theorem DefinesLast.exists_upgrade (hlast : plan.DefinesLast fork descriptor) {parent : Fork}
    (hparent : later.parent? = some parent) (hle : fork ≤ parent)
    (h : plan.definitionsOf later = .ok definitions) :
    ∃ previous upgraded, plan.definitionsOf parent = .ok previous ∧
      previous.upgrade later = .ok upgraded ∧
      definitions.get? descriptor.name = upgraded.get? descriptor.name := by
  rw [definitionsOf_eq, hparent, Option.elim_some, bind_eq_ok] at h
  obtain ⟨previous, hprevious, h⟩ := h
  rw [definitionsAt_eq, map_eq_ok] at h
  obtain ⟨upgraded, hupgrade, rfl⟩ := h
  have hlater : fork.position < later.position := by
    have : fork.position ≤ parent.position := hle
    have := Fork.position_parent hparent
    omega
  refine ⟨previous, upgraded, hprevious, hupgrade, ?_⟩
  rw [Definitions.get?_foldl_insert, hlast.filter_eq_nil hlater]
  rfl

/-- As long as the catalogue does not define the record, the definition is in force with the
changes that the catalogue has made since. -/
theorem DefinesLast.exists_editAll (hlast : plan.DefinesLast fork descriptor) (hle : fork ≤ later)
    (hnone : fork.definesSince later descriptor.name = false)
    (h : plan.definitionsOf later = .ok definitions) :
    ∃ current, definitions.get? descriptor.name = some current ∧
      descriptor.editAll (fork.revisionsSince later descriptor.name) = .ok current := by
  revert definitions
  refine Fork.le_induction (P := fun later => fork.definesSince later descriptor.name = false →
    ∀ {definitions}, plan.definitionsOf later = .ok definitions →
      ∃ current, definitions.get? descriptor.name = some current ∧
        descriptor.editAll (fork.revisionsSince later descriptor.name) = .ok current)
    (fun _ _ h => ?_) (fun later parent hparent hle ih hnone _ h => ?_) later hle hnone
  · rw [Fork.revisionsSince, Fork.upTo_self]
    exact ⟨descriptor, hlast.get?_eq h, rfl⟩
  · rw [Fork.definesSince_eq hparent hle, Bool.or_eq_false_iff] at hnone
    obtain ⟨previous, upgraded, hprevious, hupgrade, hget⟩ := hlast.exists_upgrade hparent hle h
    obtain ⟨current, hcurrent, hedits⟩ := ih hnone.1 hprevious
    obtain ⟨last, hlast, hrevisions⟩ :=
      Definitions.exists_editAll_of_foldlM_amend hupgrade hnone.2 hcurrent
    refine ⟨last, hget.trans hlast, ?_⟩
    rw [Fork.revisionsSince_eq hparent hle, Descriptor.editAll_append, bind_eq_ok]
    exact ⟨current, hedits, hrevisions⟩

/-- Once the catalogue has defined the record, its own is in force. -/
theorem DefinesLast.get?_eq_ofFork (hlast : plan.DefinesLast fork descriptor) (hle : fork ≤ later)
    (hsome : fork.definesSince later descriptor.name = true)
    (h : plan.definitionsOf later = .ok definitions) {own : Definitions}
    (hown : Definitions.ofFork later = .ok own) :
    definitions.get? descriptor.name = own.get? descriptor.name := by
  revert definitions own
  refine Fork.le_induction (P := fun later => fork.definesSince later descriptor.name = true →
    ∀ {definitions}, plan.definitionsOf later = .ok definitions →
      ∀ {own}, Definitions.ofFork later = .ok own →
        definitions.get? descriptor.name = own.get? descriptor.name)
    (fun hsome => ?_) (fun later parent hparent hle ih hsome _ h _ hown => ?_) later hle hsome
  · rw [Fork.definesSince, Fork.upTo_self] at hsome
    cases hsome
  · rw [Fork.definesSince_eq hparent hle, Bool.or_eq_true] at hsome
    obtain ⟨previous, upgraded, hprevious, hupgrade, hget⟩ := hlast.exists_upgrade hparent hle h
    rw [Definitions.ofFork_eq hparent, bind_eq_ok] at hown
    obtain ⟨ownPrevious, hownPrevious, hownUpgrade⟩ := hown
    refine hget.trans (Definitions.get?_eq_of_foldlM_amend hupgrade hownUpgrade ?_)
    exact hsome.symm.imp_right fun hsome => (ih hsome hprevious hownPrevious :)

/-- From its fork on, the record is defined. -/
theorem DefinesLast.exists_get? (hlast : plan.DefinesLast fork descriptor) (hle : fork ≤ later)
    (h : plan.definitionsOf later = .ok definitions) :
    ∃ current, definitions.get? descriptor.name = some current := by
  revert definitions
  refine Fork.le_induction (P := fun later => ∀ {definitions},
    plan.definitionsOf later = .ok definitions →
      ∃ current, definitions.get? descriptor.name = some current)
    (fun h => ⟨descriptor, hlast.get?_eq h⟩) (fun later parent hparent _ ih _ h => ?_) later hle
  rw [definitionsOf_eq, hparent, Option.elim_some, bind_eq_ok] at h
  obtain ⟨previous, hprevious, h⟩ := h
  rw [Definitions.exists_get?]
  exact mem_names_of_definitionsAt (Definitions.exists_get?.mp (ih hprevious)) h

/-- A definition of a plan that no other one follows holds from its fork on, until the catalogue
defines a record of its name. At every fork from its own on, the record is resolved, with the bounds
and the records of the fork, from the definition with the changes that the catalogue has made to
the record since; but if the catalogue has defined a record of the name since, it is resolved from
what the catalogue alone has at the fork. -/
theorem exists_resolve_of_definesLast (h : plan.build preset = .ok registry)
    (hlast : plan.DefinesLast fork descriptor) (hle : fork ≤ later) :
    ∃ current schema, registry.schema later descriptor.name = .ok schema ∧
      current.resolve (registry.bareContext later) 0 = .ok schema.bare ∧
      (fork.definesSince later descriptor.name = false →
        descriptor.editAll (fork.revisionsSince later descriptor.name) = .ok current) ∧
      (fork.definesSince later descriptor.name = true →
        ∃ own, Definitions.ofFork later = .ok own ∧ own.get? descriptor.name = some current) := by
  obtain ⟨definitions, hdefinitions, -⟩ := fine_of_buildForks (build_eq_ok.mp h).1 later
  obtain ⟨current, hget⟩ := hlast.exists_get? hle hdefinitions
  obtain ⟨schema, hschema, hresolve⟩ := exists_resolve_of_get? h hdefinitions hget
  refine ⟨current, schema, hschema, hresolve, fun hnone => ?_, fun hsome => ?_⟩
  · obtain ⟨_, hget', hedits⟩ := hlast.exists_editAll hle hnone hdefinitions
    rw [hget, Option.some_inj] at hget'
    rwa [hget']
  · obtain ⟨own, hown⟩ := Definitions.exists_ofFork later
    exact ⟨own, hown, hlast.get?_eq_ofFork hle hsome hdefinitions hown ▸ hget⟩

/-- A plan that defines sync committees and, at capella, payloads again, with a single field. -/
def redefiningExample : RegistryPlan :=
  standard
    |>.define .phase0 ⟨"SyncCommittee", [("bits", .uint 8)]⟩
    |>.define .capella ⟨"ExecutionPayload", [("block_hash", .uint 8)]⟩

/-- The example is built. Its sync committees do not keep their field. -/
theorem build_redefiningExample : ∃ registry first second,
    redefiningExample.build .minimal = .ok registry ∧
      registry.schema .phase0 "SyncCommittee" = .ok first ∧
      registry.schema .altair "SyncCommittee" = .ok second ∧
      first.fields.map Field.name = ["bits"] ∧
      second.fields.map Field.name = ["pubkeys", "aggregate_pubkey"] := by
  have h : ((redefiningExample.build .minimal).toOption.any fun registry =>
      (registry.schema .phase0 "SyncCommittee").toOption.any fun first =>
        (registry.schema .altair "SyncCommittee").toOption.any fun second =>
          first.fields.map Field.name == ["bits"] &&
            second.fields.map Field.name == ["pubkeys", "aggregate_pubkey"]) = true := by
    decide +kernel
  simp only [any_toOption, Bool.and_eq_true, beq_iff_eq] at h
  obtain ⟨registry, hbuild, first, hfirst, second, hsecond, hfields, hfields'⟩ := h
  exact ⟨registry, first, second, hbuild, hfirst, hsecond, hfields, hfields'⟩

/-- The payloads of the example have at electra the field of the plan and the two that deneb
adds. -/
theorem resolve_redefiningExample :
    redefiningExample.DefinesLast .capella ⟨"ExecutionPayload", [("block_hash", .uint 8)]⟩ ∧
      ∃ registry schema, redefiningExample.build .minimal = .ok registry ∧
        registry.schema .electra "ExecutionPayload" = .ok schema ∧
        (Descriptor.mk "ExecutionPayload" [("block_hash", .uint 8),
          ("blob_gas_used", Catalogue.uint64), ("excess_blob_gas", Catalogue.uint64)]).resolve
            (registry.bareContext .electra) 0 = .ok schema.bare := by
  have hlast : redefiningExample.DefinesLast .capella
      ⟨"ExecutionPayload", [("block_hash", .uint 8)]⟩ :=
    ⟨_, [], rfl, nofun, by decide⟩
  obtain ⟨registry, -, -, hbuild, -⟩ := build_redefiningExample
  obtain ⟨current, schema, hschema, hresolve, hedits, -⟩ :=
    @exists_resolve_of_definesLast _ _ _ _ .electra _ hbuild hlast (by decide)
  have hcurrent := hedits (by decide)
  rw [show Descriptor.editAll _ _ = .ok _ from rfl, Except.ok.injEq] at hcurrent
  subst hcurrent
  exact ⟨hlast, registry, schema, hbuild, hschema, hresolve⟩

/-- No definition follows that of the sync committees, and the catalogue changes no field of theirs.
Yet from altair on they are not resolved from the definition of the plan. -/
theorem not_resolve_redefiningExample :
    redefiningExample.DefinesLast .phase0 ⟨"SyncCommittee", [("bits", .uint 8)]⟩ ∧
      Fork.revisionsSince .phase0 .altair "SyncCommittee" = [] ∧
      ∃ registry schema, redefiningExample.build .minimal = .ok registry ∧
        registry.schema .altair "SyncCommittee" = .ok schema ∧
        schema.fields.map Field.name = ["pubkeys", "aggregate_pubkey"] ∧
        (Descriptor.mk "SyncCommittee" [("bits", .uint 8)]).resolve
          (registry.bareContext .altair) 0 ≠ .ok schema.bare := by
  obtain ⟨registry, -, schema, hbuild, -, hschema, -, hfields⟩ := build_redefiningExample
  refine ⟨⟨[], _, rfl, by decide, by decide⟩, rfl, registry, schema, hbuild, hschema, hfields,
    fun hresolve => ?_⟩
  have hnames := Descriptor.map_name_of_resolve hresolve
  rw [Schema.fields_bare, Schema.map_name_bareAll, hfields] at hnames
  exact absurd hnames (by decide)

end RegistryPlan

end BeaconSsz
