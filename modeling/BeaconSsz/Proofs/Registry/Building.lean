import BeaconSsz.Proofs.Registry.Resolution
import BeaconSsz.Proofs.Registry.Walk

/-!
# What building the records of a fork comes to

Records are built by a walk that remembers what is built, passes over it, and takes schemas of the
previous fork where they agree. The walk keeps an invariant: what is built is closed under parts,
has the schemas of plain resolution, and has a schema of the previous fork exactly where there is
one that agrees. Where the walk fails, the definitions are not resolvable.
-/

namespace BeaconSsz

namespace Records

variable {records : Records}

/-- Records with distinct names that contain every schema that one of them holds. -/
structure Closed (records : Records) : Prop where
  distinct : (records.map (·.name)).Nodup
  parts_mem : ∀ schema ∈ records, ∀ part ∈ schema.parts, part ∈ records

/-- No records are closed. -/
theorem closed_nil : Closed [] :=
  ⟨List.nodup_nil, nofun⟩

/-- In closed records, every record is found under its name. -/
theorem Closed.find?_eq_some (h : records.Closed) {name : String} {schema : Schema} :
    records.find? name = some schema ↔ schema ∈ records ∧ schema.name = name :=
  find?_name_eq_some h.distinct

end Records

namespace Scope

variable {scope : Scope} {built : Records}

/-- The inherited schema of the name is taken if its bare form is the same. -/
theorem reuse_eq_of_bare_eq {schema previous : Schema}
    (hfind : scope.inherited.find? schema.name = some previous)
    (hbare : previous.bare = schema.bare) : scope.reuse schema = previous := by
  rw [reuse_eq, hfind]
  exact if_pos ((previous.agrees_iff schema).mpr hbare)

/-- What is taken is the schema itself or an inherited one. -/
theorem reuse_eq_or_mem (hinherited : scope.inherited.Closed) (schema : Schema) :
    scope.reuse schema = schema ∨ scope.reuse schema ∈ scope.inherited := by
  rw [reuse_eq]
  split
  · next previous hfind =>
    split
    · exact .inr (hinherited.find?_eq_some.mp hfind).1
    · exact .inl rfl
  · exact .inl rfl

/-- What the invariant says of the records that are built. -/
structure Built (scope : Scope) (built : Records) : Prop extends Records.Closed built where
  /-- Schemas are those of plain resolution. -/
  resolves : ∀ schema ∈ built,
    scope.definitions.Resolves scope.preset schema.name schema.bare
  /-- An inherited schema that agrees is taken. -/
  shared : ∀ schema ∈ built, ∀ previous, scope.inherited.find? schema.name = some previous →
    previous.bare = schema.bare → schema = previous
  /-- Every other schema is drawn up at the fork. -/
  drawn : ∀ schema ∈ built,
    schema ∈ scope.inherited ∨ schema.edition = scope.definitions.fork.edition

/-- The invariant holds before anything is built. -/
theorem built_nil : scope.Built [] :=
  ⟨Records.closed_nil, nofun, nofun, nofun⟩

/-- What is built under a name has the bare form that the name stands for. -/
theorem Built.resolves_of_find? (h : scope.Built built) {name : String} {plain : Schema}
    (hfind : (scope.context built).bare.container? name = some plain) :
    scope.definitions.Resolves scope.preset name plain := by
  obtain ⟨schema, hschema, rfl⟩ := Option.map_eq_some_iff.mp hfind
  obtain ⟨hmem, rfl⟩ := h.find?_eq_some.mp hschema
  exact h.resolves schema hmem

/-- The schemas inside a resolved descriptor are built. -/
theorem Built.parts_mem_of_resolve (h : scope.Built built) {descriptor : Descriptor}
    {edition : Nat} {fresh : Schema}
    (hfresh : descriptor.resolve (scope.context built) edition = .ok fresh) :
    ∀ part ∈ fresh.parts, part ∈ built := by
  intro part hpart
  obtain ⟨name, -, hfind⟩ := Descriptor.mem_parts_of_resolve hfresh hpart
  exact (h.find?_eq_some.mp hfind).1

/-- A resolved descriptor has the bare form that its name stands for. -/
theorem Built.resolves_of_resolve (h : scope.Built built) {descriptor : Descriptor}
    (hget : scope.definitions.get? descriptor.name = some descriptor) {edition : Nat}
    {fresh : Schema} (hfresh : descriptor.resolve (scope.context built) edition = .ok fresh) :
    scope.definitions.Resolves scope.preset descriptor.name fresh.bare := by
  refine .record (scope.context built).bare.container? hget
    (fun _ _ hpart => h.resolves_of_find? hpart) ?_
  have hbare := Descriptor.resolve_bare (scope.context built) edition descriptor
  rwa [hfresh] at hbare

/-- A schema of the previous fork that agrees with one whose parts are built has its parts among
what is built: they are the inherited schemas of the same names, and agree with what is built. -/
theorem Built.parts_mem_of_bare_eq (h : scope.Built built) (hinherited : scope.inherited.Closed)
    {previous schema : Schema} (hprevious : previous ∈ scope.inherited)
    (hbare : previous.bare = schema.bare) (hschema : ∀ part ∈ schema.parts, part ∈ built) :
    ∀ part ∈ previous.parts, part ∈ built := by
  intro part hpart
  have hparts : previous.parts.map Schema.bare = schema.parts.map Schema.bare := by
    rw [← Schema.parts_bare, hbare, Schema.parts_bare]
  have hmem : part.bare ∈ schema.parts.map Schema.bare := hparts ▸ List.mem_map_of_mem hpart
  obtain ⟨own, hown, hownBare⟩ := List.mem_map.mp hmem
  have hname : part.name = own.name := by
    rw [← Schema.name_bare, ← hownBare, Schema.name_bare]
  have hfind : scope.inherited.find? own.name = some part :=
    hinherited.find?_eq_some.mpr ⟨hinherited.parts_mem previous hprevious part hpart, hname⟩
  rw [← h.shared own (hschema own hown) part hfind hownBare.symm]
  exact hschema own hown

/-- A record that is resolved behind the records that it refers to keeps the invariant. -/
theorem Built.resolve (h : scope.Built built) (hinherited : scope.inherited.Closed)
    {descriptor : Descriptor} (hget : scope.definitions.get? descriptor.name = some descriptor)
    (hnew : descriptor.name ∉ built.map (·.name)) {schema : Schema}
    (hresolve : scope.resolve built descriptor = .ok schema) :
    scope.Built (built ++ [schema]) := by
  have hname := name_of_resolve hresolve
  obtain ⟨fresh, hfresh, rfl⟩ := resolve_eq_ok.mp hresolve
  have hparts := h.parts_mem_of_resolve hfresh
  have hreuse := reuse_eq_or_mem hinherited fresh
  refine ⟨⟨?distinct, ?parts⟩, ?resolves, ?shared, ?drawn⟩
  case distinct =>
    rw [List.map_append, List.map_singleton, hname, ← List.concat_eq_append]
    exact h.distinct.concat hnew
  case parts =>
    rw [List.forall_mem_append, List.forall_mem_singleton]
    refine ⟨fun other hother part hpart =>
      List.mem_append_left _ (h.parts_mem other hother part hpart),
      fun part hpart => List.mem_append_left _ ?_⟩
    rcases hreuse with heq | hmem
    · exact hparts part (heq ▸ hpart)
    · exact h.parts_mem_of_bare_eq hinherited hmem (bare_reuse fresh) hparts part hpart
  case resolves =>
    rw [List.forall_mem_append, List.forall_mem_singleton, hname, bare_reuse]
    exact ⟨h.resolves, h.resolves_of_resolve hget hfresh⟩
  case shared =>
    rw [List.forall_mem_append, List.forall_mem_singleton, name_reuse, bare_reuse]
    exact ⟨h.shared, fun previous => reuse_eq_of_bare_eq⟩
  case drawn =>
    rw [List.forall_mem_append, List.forall_mem_singleton]
    refine ⟨h.drawn, ?_⟩
    rcases hreuse with heq | hmem
    · exact .inr (heq.symm ▸ Descriptor.edition_of_resolve hfresh)
    · exact .inl hmem

/-- If all the defined records that a record refers to are built, and it stands for a schema, then
its descriptor is resolved. -/
theorem Built.exists_resolve (h : scope.Built built) {descriptor : Descriptor}
    (hget : scope.definitions.get? descriptor.name = some descriptor)
    (hreferences : ∀ reference ∈ descriptor.references, reference ∈ scope.definitions.names →
      reference ∈ built.map (·.name)) {plain : Schema}
    (hplain : scope.definitions.Resolves scope.preset descriptor.name plain) (edition : Nat) :
    ∃ fresh, descriptor.resolve (scope.context built) edition = .ok fresh := by
  obtain ⟨part?, hget', hparts, hresolve⟩ := hplain
  rw [hget, Option.some_inj] at hget'
  subst hget'
  have hbuilt (reference : String) (hreference : reference ∈ descriptor.references) :
      ((scope.context built).bare.container? reference).isSome := by
    obtain ⟨part, hpart⟩ := Option.isSome_iff_exists.mp
      (Descriptor.isSome_of_resolve hresolve hreference)
    have hdefined := (hparts reference part hpart).mem_names
    have hfind := Records.isSome_find?.mpr (hreferences reference hreference hdefined)
    exact Option.isSome_map.trans hfind
  have hbare : descriptor.resolve (scope.context built).bare 0 = .ok plain := by
    rw [← hresolve]
    exact Descriptor.resolve_congr_of_isSome 0 hbuilt
      (fun _ => Descriptor.isSome_of_resolve hresolve)
      (fun reference part part' hpart hpart' =>
        (h.resolves_of_find? hpart).unique (hparts reference part' hpart')) rfl
  rw [Descriptor.resolve_bare _ edition, map_eq_ok] at hbare
  obtain ⟨fresh, hfresh, -⟩ := hbare
  exact ⟨fresh, hfresh⟩

/-- A walk stops for a reason: the definitions are not resolvable, and an error names the fork. -/
structure Fault (scope : Scope) (stop : Stop RegistryError) : Prop where
  not_resolvable : ¬ scope.definitions.Resolvable scope.preset
  fork : ∀ error, stop = .refused error → error.fork = scope.definitions.fork

/-- If all the defined records that a record refers to are built and it is not resolved, then it
does not stand for a schema at all. -/
theorem Built.fault_of_resolve (h : scope.Built built) (hdistinct : scope.definitions.names.Nodup)
    {descriptor : Descriptor} (hget : scope.definitions.get? descriptor.name = some descriptor)
    (hreferences : ∀ reference ∈ descriptor.references, reference ∈ scope.definitions.names →
      reference ∈ built.map (·.name)) {stop : Stop RegistryError}
    (hresolve : scope.resolve built descriptor = .error stop) : scope.Fault stop := by
  obtain ⟨source, hsource, rfl⟩ := resolve_eq_error.mp hresolve
  constructor
  · intro hresolvable
    obtain ⟨plain, hplain⟩ := (Definitions.resolvable_iff hdistinct).mp hresolvable descriptor.name
      (Definitions.exists_get?.mp ⟨descriptor, hget⟩)
    obtain ⟨fresh, hfresh⟩ :=
      h.exists_resolve hget hreferences hplain scope.definitions.fork.edition
    cases hsource.symm.trans hfresh
  · intro error herror
    cases source with
    | trapped trap => cases herror
    | refused first =>
      cases herror
      rfl

/-- What building the records of some names comes to: the invariant is kept, and the names are
built as far as they are defined; or the walk stops for a reason. -/
def Outcome (scope : Scope) (names : List String) :
    Except (Stop RegistryError) Unit × Records → Prop
  | (.ok (), after) => scope.Built after ∧
    ∀ name ∈ names, name ∈ scope.definitions.names → name ∈ after.map (·.name)
  | (.error stop, _) => scope.Fault stop

end Scope

namespace Building

variable {α β : Type} {built : Records}

/-- If every step of a loop builds its name and keeps what was built, the loop builds all of
them. -/
theorem outcome_forM {scope : Scope} {waiting : List String} {body : α → Building Unit}
    (nameOf : α → String) {xs : List α}
    (hgrows : ∀ x, Grows waiting (body x))
    (hbody : ∀ x ∈ xs, ∀ built, scope.Built built →
      scope.Outcome [nameOf x] ((body x).run built)) (hbuilt : scope.Built built) :
    scope.Outcome (xs.map nameOf) ((xs.forM body).run built) := by
  induction xs generalizing built with
  | nil => exact ⟨hbuilt, nofun⟩
  | cons x xs ih =>
    rw [List.forall_mem_cons] at hbody
    have hfirst := hbody.1 built hbuilt
    rw [List.forM_eq_forM, List.forM_cons, run_bind]
    rcases hrun : (body x).run built with ⟨stop | ⟨⟨⟩⟩, next⟩
    · rw [hrun] at hfirst
      exact hfirst
    · rw [hrun] at hfirst
      obtain ⟨hnext, hnames⟩ := hfirst
      have hrest := ih hbody.2 hnext
      have hlater : Records.Grows waiting next ((xs.forM body).run next).2 :=
        grows_forM (fun x _ => hgrows x) next
      rw [List.forM_eq_forM] at hrest hlater
      dsimp only
      rcases hrun' : (forM xs body).run next with ⟨stop | ⟨⟨⟩⟩, after⟩
      · rw [hrun'] at hrest
        exact hrest
      · rw [hrun'] at hrest hlater
        obtain ⟨hafter, hnames'⟩ := hrest
        rw [List.forall_mem_singleton] at hnames
        refine ⟨hafter, ?_⟩
        rw [List.map_cons, List.forall_mem_cons]
        exact ⟨fun hdefined => List.map_subset _ hlater.kept (hnames hdefined), hnames'⟩

end Building

namespace Scope

variable {scope : Scope} {built : Records}

/-- A record that waits for itself refers to itself around a cycle. -/
theorem fault_of_cycle {name : String}
    (hcycle : Relation.TransGen scope.definitions.Refers name name) (cycle : List String) :
    scope.Fault (.refused (.cyclicDefinition scope.definitions.fork cycle)) := by
  refine ⟨fun hresolvable => hresolvable.acyclic name hcycle, fun error herror => ?_⟩
  cases herror
  rfl

/-- Names that refer to others are defined. -/
theorem mem_names_of_transGen {name other : String}
    (h : Relation.TransGen scope.definitions.Refers name other) :
    name ∈ scope.definitions.names := by
  obtain ⟨_, ⟨descriptor, hget, _⟩, _⟩ := Relation.TransGen.head'_iff.mp h
  exact Definitions.exists_get?.mp ⟨descriptor, hget⟩

/-- Fewer names wait for one that does not wait than there are definitions, if all of them are
defined and distinct. -/
theorem length_lt_of_not_mem {waiting : List String} {name : String} (hnodup : waiting.Nodup)
    (hdefined : name :: waiting ⊆ scope.definitions.names) (hwaits : name ∉ waiting) :
    waiting.length < scope.definitions.records.length := by
  have hnodup' : (name :: waiting).Nodup := List.nodup_cons.mpr ⟨hwaits, hnodup⟩
  simpa [Definitions.names, Nat.add_one_le_iff] using (hnodup'.subperm hdefined).length_le

/-- If each defined record that a record refers to can be built while the record waits, so can all
of them. -/
theorem outcome_buildReferences {budget : Nat} {waiting : List String} {descriptor : Descriptor}
    (hbuild : ∀ part built, scope.definitions.get? part.name = some part →
      part.name ∈ descriptor.references → scope.Built built →
        scope.Outcome [part.name]
          ((buildRecord scope budget (waiting ++ [descriptor.name]) part).run built))
    (hbuilt : scope.Built built) :
    scope.Outcome descriptor.references
      ((buildReferences scope budget waiting descriptor).run built) := by
  rw [← List.map_id descriptor.references]
  refine Building.outcome_forM id (grows_buildReference (grows_buildRecord scope budget _))
    (fun name hreference built hbuilt => ?_) hbuilt
  rw [buildReference]
  cases hget : scope.definitions.get? name with
  | some part =>
    have hname : part.name = name := name_of_find? hget
    subst hname
    exact hbuild part built hget hreference hbuilt
  | none =>
    refine ⟨hbuilt, ?_⟩
    rw [List.forall_mem_singleton]
    intro hdefined
    obtain ⟨part, hpart⟩ := Definitions.exists_get?.mpr hdefined
    cases hget.symm.trans hpart

/-- Resolving a record behind the records that it refers to builds it, or stops for a reason. -/
theorem outcome_resolve (hinherited : scope.inherited.Closed)
    (hdistinct : scope.definitions.names.Nodup) {descriptor : Descriptor}
    (hget : scope.definitions.get? descriptor.name = some descriptor)
    (hnew : descriptor.name ∉ built.map (·.name))
    (hreferences : scope.Outcome descriptor.references (.ok (), built)) :
    scope.Outcome [descriptor.name] (match scope.resolve built descriptor with
      | .error stop => (.error stop, built)
      | .ok schema => (.ok (), built ++ [schema])) := by
  obtain ⟨hbuilt, hnames⟩ := hreferences
  cases hresolve : scope.resolve built descriptor with
  | error stop => exact hbuilt.fault_of_resolve hdistinct hget hnames hresolve
  | ok schema =>
    refine ⟨hbuilt.resolve hinherited hget hnew hresolve, ?_⟩
    rw [List.forall_mem_singleton, List.map_append, List.map_singleton, name_of_resolve hresolve]
    exact fun _ => List.mem_append_right _ List.mem_cons_self

/-- Building a record keeps the invariant and builds the record, or stops for a reason. The
records that wait refer to the one that is built, so the budget never runs out. -/
theorem outcome_buildRecord (hinherited : scope.inherited.Closed)
    (hdistinct : scope.definitions.names.Nodup) {budget : Nat} {waiting : List String}
    {descriptor : Descriptor} (hget : scope.definitions.get? descriptor.name = some descriptor)
    (hwaiting : ∀ other ∈ waiting,
      Relation.TransGen scope.definitions.Refers other descriptor.name)
    (hnodup : waiting.Nodup)
    (hbudget : scope.definitions.records.length ≤ budget + waiting.length)
    (hbuilt : scope.Built built) :
    scope.Outcome [descriptor.name]
      ((buildRecord scope budget waiting descriptor).run built) := by
  induction budget using Nat.strongRecOn generalizing waiting descriptor built with
  | ind budget ih =>
    rw [run_buildRecord]
    split
    · next hfound =>
      refine ⟨hbuilt, ?_⟩
      rw [List.forall_mem_singleton]
      exact fun _ => Records.isSome_find?.mp hfound
    · next hfound =>
      split
      · next hwaits => exact fault_of_cycle (hwaiting descriptor.name hwaits) _
      · next hwaits =>
        cases budget with
        | zero =>
          have hdefined : descriptor.name :: waiting ⊆ scope.definitions.names :=
            List.cons_subset.mpr ⟨Definitions.exists_get?.mp ⟨_, hget⟩, fun other hother =>
              mem_names_of_transGen (hwaiting other hother)⟩
          have := length_lt_of_not_mem hnodup hdefined hwaits
          omega
        | succ budget =>
          have hgrows := grows_buildReferences scope budget waiting descriptor built
          have hreferences : scope.Outcome descriptor.references
              ((buildReferences scope budget waiting descriptor).run built) := by
            refine outcome_buildReferences (fun part built hpart hreference hbuilt => ?_) hbuilt
            have hrefers : scope.definitions.Refers descriptor.name part.name :=
              ⟨descriptor, hget, hreference⟩
            refine ih budget (Nat.lt_add_one budget) hpart ?_ ?_ ?_ hbuilt
            · rw [List.forall_mem_append, List.forall_mem_singleton]
              exact ⟨fun other hother => (hwaiting other hother).tail hrefers, .single hrefers⟩
            · exact List.concat_eq_append ▸ hnodup.concat hwaits
            · rw [List.length_append, List.length_singleton]
              omega
          dsimp only
          rcases hrun : (buildReferences scope budget waiting descriptor).run built with
            ⟨stop | ⟨⟨⟩⟩, after⟩
          · rw [hrun] at hreferences
            exact hreferences
          · rw [hrun] at hreferences hgrows
            exact outcome_resolve hinherited hdistinct hget
              (hgrows.not_mem (mt Records.isSome_find?.mpr hfound)) hreferences

/-- All records of a fork are built, and nothing else. -/
structure Complete (scope : Scope) (built : Records) : Prop extends Scope.Built scope built where
  names_perm : (built.map (·.name)).Perm scope.definitions.names

/-- Complete records make the definitions resolvable. -/
theorem Complete.resolvable (h : scope.Complete built)
    (hdistinct : scope.definitions.names.Nodup) : scope.definitions.Resolvable scope.preset := by
  refine (Definitions.resolvable_iff hdistinct).mpr fun name hname => ?_
  obtain ⟨schema, hschema, rfl⟩ := List.mem_map.mp (h.names_perm.mem_iff.mpr hname)
  exact ⟨schema.bare, h.resolves schema hschema⟩

/-- Building all records of a fork makes them complete, or stops for a reason. -/
theorem run_buildRecords (scope : Scope) (hinherited : scope.inherited.Closed)
    (hdistinct : scope.definitions.names.Nodup) :
    match (buildRecords scope).run [] with
    | (.ok (), built) => scope.Complete built
    | (.error stop, _) => scope.Fault stop := by
  have houtcome : scope.Outcome scope.definitions.names ((buildRecords scope).run []) := by
    refine Building.outcome_forM Descriptor.name (grows_buildRecord scope _ [])
      (fun descriptor hdescriptor built hbuilt => ?_) built_nil
    exact outcome_buildRecord hinherited hdistinct
      ((Definitions.get?_eq_some hdistinct).mpr ⟨hdescriptor, rfl⟩) nofun List.nodup_nil
      (Nat.le_add_right _ _) hbuilt
  rcases hrun : (buildRecords scope).run [] with ⟨stop | ⟨⟨⟩⟩, built⟩
  · rw [hrun] at houtcome
    exact houtcome
  · rw [hrun] at houtcome
    obtain ⟨hbuilt, hnames⟩ := houtcome
    refine ⟨hbuilt, (List.perm_ext_iff_of_nodup hbuilt.distinct hdistinct).mpr fun name => ?_⟩
    constructor
    · intro hname
      obtain ⟨schema, hschema, rfl⟩ := List.mem_map.mp hname
      exact (hbuilt.resolves schema hschema).mem_names
    · exact fun hname => hnames name hname hname

end Scope

end BeaconSsz
