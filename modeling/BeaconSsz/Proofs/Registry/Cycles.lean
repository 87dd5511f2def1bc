import BeaconSsz.Proofs.Registry.Plain
import Mathlib.Data.List.Chain

/-!
# Records that contain each other

Building a record follows its references, and the references of what it refers to, while the
names of the records on the way wait. The rules of this recursion are given here without a budget,
so that a recursion that goes on forever has no derivation. On every set of definitions it comes to
an end, because no name waits twice, and the bounded computation gives what the rules give.

The names that wait contain each other in a row. So a cycle that is reported is one, entry by
entry; and definitions with a cycle are never built.
-/

namespace BeaconSsz

/-- A form holds a record if it is the record, or a vector or a list of what holds it. -/
inductive Form.Holds : Form → String → Prop
  | container (name : String) : Holds (container name) name
  | vector {element : Form} {name : String} (length : Bound) (h : Holds element name) :
      Holds (vector element length) name
  | list {element : Form} {name : String} (limit : Bound) (h : Holds element name) :
      Holds (list element limit) name

/-- A form holds exactly the record that it refers to. -/
theorem Form.reference?_eq_some : {form : Form} → {name : String} →
    (form.reference? = some name ↔ form.Holds name)
  | container other, name => by
    constructor
    · rintro ⟨⟩
      exact .container other
    · rintro ⟨⟩
      rfl
  | vector element length, name => by
    rw [reference?, Form.reference?_eq_some]
    constructor
    · exact .vector length
    · intro h
      cases h
      assumption
  | list element limit, name => by
    rw [reference?, Form.reference?_eq_some]
    constructor
    · exact .list limit
    · intro h
      cases h
      assumption
  | boolean, _ | uint _, _ | byteVector _, _ | byteList _, _ | bitvector _, _ | bitlist _, _ => by
    constructor <;> intro h <;> cases h

namespace Definitions

variable {definitions : Definitions} {name other : String}

/-- One record contains another one if a field of its definition holds it. -/
def Contains (definitions : Definitions) (name other : String) : Prop :=
  ∃ descriptor, definitions.get? name = some descriptor ∧
    ∃ field ∈ descriptor.fields, field.2.Holds other

/-- A record contains the records that it refers to. -/
theorem refers_iff_contains : definitions.Refers name other ↔ definitions.Contains name other := by
  simp only [Refers, Contains, Descriptor.mem_references, Form.reference?_eq_some]

/-- Records that contain each other, from one of them around to itself, and each only once. -/
structure IsCycle (definitions : Definitions) (cycle : List String) : Prop where
  two_le_length : 2 ≤ cycle.length
  closed : cycle.head? = cycle.getLast?
  distinct : cycle.dropLast.Nodup
  contains : cycle.IsChain definitions.Contains

/-- Where distinct records contain each other in a row and the next one is among them, they run
around a cycle from that one on. -/
theorem isCycle_of_mem {waiting : List String} (hnodup : waiting.Nodup)
    (hchain : (waiting ++ [name]).IsChain definitions.Contains) (hname : name ∈ waiting) :
    definitions.IsCycle (waiting.dropWhile (· ≠ name) ++ [name]) := by
  obtain ⟨before, after, rfl, hbefore⟩ := List.eq_append_cons_of_mem hname
  have hdrop : (before ++ name :: after).dropWhile (· ≠ name) = name :: after := by
    rw [List.dropWhile_append_of_pos fun other hother => by
      simpa using ne_of_mem_of_not_mem hother hbefore, List.dropWhile_cons_of_neg (by simp)]
  rw [hdrop]
  refine ⟨?_, ?_, ?_, ?_⟩
  · simp
  · rw [List.getLast?_concat, List.cons_append, List.head?_cons]
  · rw [List.dropLast_concat]
    exact hnodup.of_append_right
  · rw [List.append_assoc] at hchain
    exact hchain.right_of_append

end Definitions

/-- What the recursion is asked for: a record, or the defined records among some names, one after
the other. -/
inductive Task where
  | record (descriptor : Descriptor)
  | records (names : List String)

/-- The names that wait contain each other in a row, and the last one contains what the task is
about. -/
def Task.Follows (definitions : Definitions) (waiting : List String) : Task → Prop
  | record descriptor => definitions.get? descriptor.name = some descriptor ∧
      (waiting ++ [descriptor.name]).IsChain definitions.Contains
  | records names => ∀ name ∈ names, (waiting ++ [name]).IsChain definitions.Contains

/-- What the names behind the first one are about follows too. -/
theorem Task.Follows.tail {definitions : Definitions} {waiting names : List String} {name : String}
    (h : (records (name :: names)).Follows definitions waiting) :
    (records names).Follows definitions waiting :=
  fun other hother => h other (List.mem_cons_of_mem name hother)

namespace Scope

variable {scope : Scope} {waiting : List String} {task : Task} {built : Records}
  {ending ending' : Except (Stop RegistryError) Unit × Records}

/-- How a task ends while some names wait, from the records that are built. There is no budget: a
task that called on others forever would have no derivation. -/
inductive Ends (scope : Scope) :
    List String → Task → Records → Except (Stop RegistryError) Unit × Records → Prop
  | found {waiting : List String} {descriptor : Descriptor} {built : Records}
      (hfound : descriptor.name ∈ built.map (·.name)) :
      Ends scope waiting (.record descriptor) built (.ok (), built)
  | cyclic {waiting : List String} {descriptor : Descriptor} {built : Records}
      (hnew : descriptor.name ∉ built.map (·.name)) (hwaits : descriptor.name ∈ waiting) :
      Ends scope waiting (.record descriptor) built
        (.error (.refused (.cyclicDefinition scope.definitions.fork
          (waiting.dropWhile (· ≠ descriptor.name) ++ [descriptor.name]))), built)
  | partFailed {waiting : List String} {descriptor : Descriptor} {built after : Records}
      {stop : Stop RegistryError}
      (hnew : descriptor.name ∉ built.map (·.name)) (hwaits : descriptor.name ∉ waiting)
      (hparts : Ends scope (waiting ++ [descriptor.name]) (.records descriptor.references) built
        (.error stop, after)) :
      Ends scope waiting (.record descriptor) built (.error stop, after)
  | unresolved {waiting : List String} {descriptor : Descriptor} {built after : Records}
      {stop : Stop RegistryError}
      (hnew : descriptor.name ∉ built.map (·.name)) (hwaits : descriptor.name ∉ waiting)
      (hparts : Ends scope (waiting ++ [descriptor.name]) (.records descriptor.references) built
        (.ok (), after))
      (hresolve : scope.resolve after descriptor = .error stop) :
      Ends scope waiting (.record descriptor) built (.error stop, after)
  | resolved {waiting : List String} {descriptor : Descriptor} {built after : Records}
      {schema : Schema}
      (hnew : descriptor.name ∉ built.map (·.name)) (hwaits : descriptor.name ∉ waiting)
      (hparts : Ends scope (waiting ++ [descriptor.name]) (.records descriptor.references) built
        (.ok (), after))
      (hresolve : scope.resolve after descriptor = .ok schema) :
      Ends scope waiting (.record descriptor) built (.ok (), after ++ [schema])
  | nil {waiting : List String} {built : Records} :
      Ends scope waiting (.records []) built (.ok (), built)
  | undefined {waiting : List String} {name : String} {names : List String} {built : Records}
      {ending : Except (Stop RegistryError) Unit × Records}
      (hget : scope.definitions.get? name = none)
      (hrest : Ends scope waiting (.records names) built ending) :
      Ends scope waiting (.records (name :: names)) built ending
  | stopped {waiting : List String} {name : String} {names : List String} {part : Descriptor}
      {built after : Records} {stop : Stop RegistryError}
      (hget : scope.definitions.get? name = some part)
      (hpart : Ends scope waiting (.record part) built (.error stop, after)) :
      Ends scope waiting (.records (name :: names)) built (.error stop, after)
  | cons {waiting : List String} {name : String} {names : List String} {part : Descriptor}
      {built next : Records} {ending : Except (Stop RegistryError) Unit × Records}
      (hget : scope.definitions.get? name = some part)
      (hpart : Ends scope waiting (.record part) built (.ok (), next))
      (hrest : Ends scope waiting (.records names) next ending) :
      Ends scope waiting (.records (name :: names)) built ending

/-- A task ends in one way only. -/
theorem Ends.unique (h : scope.Ends waiting task built ending)
    (h' : scope.Ends waiting task built ending') : ending = ending' := by
  induction h generalizing ending' with
  | found | cyclic => cases h' <;> first | rfl | contradiction
  | partFailed _ _ _ ih =>
    cases h' with
    | partFailed _ _ hparts => exact ih hparts
    | unresolved _ _ hparts | resolved _ _ hparts => cases ih hparts
    | _ => contradiction
  | unresolved _ _ _ hresolve ih =>
    cases h' with
    | partFailed _ _ hparts => cases ih hparts
    | unresolved _ _ hparts hresolve' =>
      cases ih hparts
      cases hresolve.symm.trans hresolve'
      rfl
    | resolved _ _ hparts hresolve' =>
      cases ih hparts
      cases hresolve.symm.trans hresolve'
    | _ => contradiction
  | resolved _ _ _ hresolve ih =>
    cases h' with
    | partFailed _ _ hparts => cases ih hparts
    | unresolved _ _ hparts hresolve' =>
      cases ih hparts
      cases hresolve.symm.trans hresolve'
    | resolved _ _ hparts hresolve' =>
      cases ih hparts
      cases hresolve.symm.trans hresolve'
      rfl
    | _ => contradiction
  | nil =>
    cases h'
    rfl
  | undefined hget _ ih =>
    cases h' with
    | undefined _ hrest => exact ih hrest
    | stopped hget' | cons hget' => cases hget.symm.trans hget'
  | stopped hget _ ih =>
    cases h' with
    | undefined hget' => cases hget.symm.trans hget'
    | stopped hget' hpart =>
      cases hget.symm.trans hget'
      cases ih hpart
      rfl
    | cons hget' hpart =>
      cases hget.symm.trans hget'
      cases ih hpart
  | cons hget _ _ ihpart ihrest =>
    cases h' with
    | undefined hget' => cases hget.symm.trans hget'
    | stopped hget' hpart =>
      cases hget.symm.trans hget'
      cases ihpart hpart
    | cons hget' hpart hrest =>
      cases hget.symm.trans hget'
      cases ihpart hpart
      exact ihrest hrest

/-- A cycle is reported only where the names that wait run around one. -/
theorem Ends.isCycle (h : scope.Ends waiting task built ending) (hnodup : waiting.Nodup)
    (hfollows : task.Follows scope.definitions waiting) {fork : Fork} {cycle : List String}
    (hcycle : ending.1 = .error (.refused (.cyclicDefinition fork cycle))) :
    fork = scope.definitions.fork ∧ scope.definitions.IsCycle cycle := by
  induction h with
  | found | resolved | nil => cases hcycle
  | cyclic _ hwaits =>
    cases hcycle
    exact ⟨rfl, Definitions.isCycle_of_mem hnodup hfollows.2 hwaits⟩
  | unresolved _ _ _ hresolve =>
    obtain ⟨source, -, rfl⟩ := resolve_eq_error.mp hresolve
    cases source <;> cases hcycle
  | @partFailed waiting descriptor _ _ _ _ hwaits _ ih =>
    obtain ⟨hget, hchain⟩ := hfollows
    refine ih (List.concat_eq_append ▸ hnodup.concat hwaits) (fun name hname => ?_) hcycle
    refine hchain.append (List.isChain_singleton name) fun other hother next hnext => ?_
    rw [List.getLast?_concat, Option.mem_some_iff] at hother
    rw [List.head?_singleton, Option.mem_some_iff] at hnext
    subst hother hnext
    exact Definitions.refers_iff_contains.mp ⟨descriptor, hget, hname⟩
  | undefined _ _ ih => exact ih hnodup hfollows.tail hcycle
  | @stopped _ _ _ part _ _ _ hget _ ih =>
    obtain rfl : part.name = _ := name_of_find? hget
    exact ih hnodup ⟨hget, hfollows _ List.mem_cons_self⟩ hcycle
  | cons _ _ _ _ ihrest => exact ihrest hnodup hfollows.tail hcycle

/-- Building the defined records among some names in order follows the rules if building each of
them does. -/
theorem ends_forM {budget : Nat} {names : List String}
    (hparts : ∀ name ∈ names, ∀ part, scope.definitions.get? name = some part → ∀ built,
      scope.Ends waiting (.record part) built ((buildRecord scope budget waiting part).run built))
    (built : Records) :
    scope.Ends waiting (.records names) built
      ((names.forM fun name => match scope.definitions.get? name with
        | some part => buildRecord scope budget waiting part
        | none => pure ()).run built) := by
  induction names generalizing built with
  | nil => exact .nil
  | cons name names ih =>
    rw [List.forall_mem_cons] at hparts
    have hrest (next : Records) := ih hparts.2 next
    rw [List.forM_eq_forM] at hrest ⊢
    rw [List.forM_cons, Building.run_bind]
    cases hget : scope.definitions.get? name with
    | none => exact .undefined hget (hrest built)
    | some part =>
      have hpart := hparts.1 part hget built
      dsimp only
      rcases hrun : (buildRecord scope budget waiting part).run built with ⟨stop | ⟨⟨⟩⟩, next⟩
      · rw [hrun] at hpart
        exact .stopped hget hpart
      · rw [hrun] at hpart
        exact .cons hget hpart (hrest next)

/-- Building a record follows the rules. The names that wait are distinct and defined, so the
budget never runs out. -/
theorem ends_buildRecord {budget : Nat} {descriptor : Descriptor} (hnodup : waiting.Nodup)
    (hdefined : descriptor.name :: waiting ⊆ scope.definitions.names)
    (hbudget : scope.definitions.records.length ≤ budget + waiting.length) (built : Records) :
    scope.Ends waiting (.record descriptor) built
      ((buildRecord scope budget waiting descriptor).run built) := by
  induction budget using Nat.strongRecOn generalizing waiting descriptor built with
  | ind budget ih =>
    rw [run_buildRecord]
    split
    · next hfound => exact .found (Records.isSome_find?.mp hfound)
    · next hfound =>
      have hnew : descriptor.name ∉ built.map (·.name) := mt Records.isSome_find?.mpr hfound
      split
      · next hwaits => exact .cyclic hnew hwaits
      · next hwaits =>
        cases budget with
        | zero =>
          have := length_lt_of_not_mem hnodup hdefined hwaits
          omega
        | succ budget =>
          have hparts : scope.Ends (waiting ++ [descriptor.name]) (.records descriptor.references)
              built ((buildReferences scope budget waiting descriptor).run built) := by
            refine ends_forM (fun name _ part hget built => ?_) built
            obtain rfl : part.name = name := name_of_find? hget
            refine ih budget (Nat.lt_add_one budget) ?_ ?_ ?_ built
            · exact List.concat_eq_append ▸ hnodup.concat hwaits
            · rw [List.cons_subset, List.append_subset]
              rw [List.cons_subset] at hdefined
              exact ⟨Definitions.exists_get?.mp ⟨part, hget⟩, hdefined.2,
                List.cons_subset.mpr ⟨hdefined.1, List.nil_subset _⟩⟩
            · rw [List.length_append, List.length_singleton]
              omega
          dsimp only
          rcases hrun : (buildReferences scope budget waiting descriptor).run built with
            ⟨stop | ⟨⟨⟩⟩, after⟩
          · rw [hrun] at hparts
            exact .partFailed hnew hwaits hparts
          · rw [hrun] at hparts
            dsimp only
            cases hresolve : scope.resolve after descriptor with
            | error stop => exact .unresolved hnew hwaits hparts hresolve
            | ok schema => exact .resolved hnew hwaits hparts hresolve

/-- Building a defined record for which nothing waits comes to the one end that the rules allow. -/
theorem ends_iff {descriptor : Descriptor} (hmem : descriptor ∈ scope.definitions.records) :
    scope.Ends [] (.record descriptor) built ending ↔
      (buildRecord scope scope.definitions.records.length [] descriptor).run built = ending := by
  have hrun : scope.Ends [] (.record descriptor) built
      ((buildRecord scope scope.definitions.records.length [] descriptor).run built) :=
    ends_buildRecord List.nodup_nil (List.cons_subset.mpr ⟨List.mem_map_of_mem hmem,
      List.nil_subset _⟩) (Nat.le_add_right _ _) built
  exact ⟨hrun.unique, fun h => h ▸ hrun⟩

/-- A loop that stops does so at one of its elements. -/
theorem exists_of_run_forM_error {α : Type} {body : α → Building Unit} {xs : List α}
    {stop : Stop RegistryError} {built after : Records}
    (h : (xs.forM body).run built = (.error stop, after)) :
    ∃ x ∈ xs, ∃ before, (body x).run before = (.error stop, after) := by
  induction xs generalizing built with
  | nil => cases h
  | cons x xs ih =>
    rw [List.forM_eq_forM, List.forM_cons, Building.run_bind] at h
    rcases hrun : (body x).run built with ⟨stop' | ⟨⟨⟩⟩, next⟩
    · rw [hrun] at h
      cases h
      exact ⟨x, List.mem_cons_self, built, hrun⟩
    · rw [hrun] at h
      obtain ⟨y, hy, hstop⟩ := ih h
      exact ⟨y, List.mem_cons_of_mem x hy, hstop⟩

/-- Where building the records of a fork stops at a cycle, there is one. -/
theorem isCycle_of_buildRecords (hdistinct : scope.definitions.names.Nodup) {fork : Fork}
    {cycle : List String} {after : Records}
    (h : (buildRecords scope).run [] =
      (.error (.refused (.cyclicDefinition fork cycle)), after)) :
    fork = scope.definitions.fork ∧ scope.definitions.IsCycle cycle := by
  obtain ⟨descriptor, hmem, before, hstop⟩ := exists_of_run_forM_error h
  refine Ends.isCycle ((ends_iff hmem).mpr hstop) List.nodup_nil ⟨?_, ?_⟩ rfl
  · exact (Definitions.get?_eq_some hdistinct).mpr ⟨hmem, rfl⟩
  · exact List.isChain_singleton descriptor.name

/-- A record that holds a list of itself. -/
def selfRecord : Descriptor :=
  ⟨"Self", [("selves", .list (.container "Self") (.fixed 4))]⟩

/-- A scope with this record alone. -/
def selfScope : Scope where
  preset := .minimal
  definitions := ⟨.phase0, [selfRecord]⟩
  inherited := []

end Scope

namespace RegistryPlan

variable {plan : RegistryPlan} {preset : Preset} {definitions : Definitions} {fork : Fork}

/-- A fault in the definitions of a fork is one of an amendment. -/
theorem exists_amended_of_error {error : RegistryError}
    (h : plan.definitionsAt definitions fork = .error error) :
    ∃ (amending : Definitions) (amendment : Amendment),
      amending.amended amendment = .error error := by
  have hamend (amendments : List Amendment) (definitions : Definitions)
      (h : amendments.foldlM Definitions.amend definitions = .error error) :
      ∃ (amending : Definitions) (amendment : Amendment),
        amending.amended amendment = .error error := by
    induction amendments generalizing definitions with
    | nil => cases h
    | cons amendment amendments ih =>
      rw [List.foldlM_cons, bind_eq_error, Definitions.amend_eq_map, map_eq_error] at h
      rcases h with hamended | ⟨next, -, h⟩
      · exact ⟨definitions, amendment, hamended⟩
      · exact ih next h
  rw [definitionsAt_eq, map_eq_error] at h
  exact hamend _ _ h

/-- An amendment never fails for a cycle. -/
theorem amended_ne_cyclicDefinition (amendment : Amendment) (fork : Fork) (cycle : List String) :
    definitions.amended amendment ≠ .error (.cyclicDefinition fork cycle) := by
  intro h
  cases amendment with
  | define descriptor => cases h
  | revise record edits =>
    rw [Definitions.amended] at h
    split at h
    · cases h
    · next descriptor _ =>
      cases hedit : descriptor.editAll edits <;> rw [hedit] at h <;> cases h

/-- Where building the forks that are left stops at a cycle, the records of one of them were being
built from the definitions in force. -/
theorem exists_of_buildForks_cyclic {cycle : List String} {before forks : List Fork}
    {inherited : Records} {done : List (Fork × Records)}
    (hbefore : before.foldlM plan.definitionsAt .empty = .ok definitions)
    (hforks : Fork.all = before ++ forks)
    (h : (plan.buildForks preset definitions inherited done forks).2 =
      .error (.refused (.cyclicDefinition fork cycle))) :
    ∃ stage changed below after, plan.definitionsOf stage = .ok changed ∧
      (buildRecords ⟨preset, changed, below⟩).run [] =
        (.error (.refused (.cyclicDefinition fork cycle)), after) := by
  induction forks generalizing before definitions inherited done with
  | nil => cases h
  | cons stage forks ih =>
    rw [buildForks] at h
    cases hdefinitions : plan.definitionsAt definitions stage with
    | error error =>
      rw [hdefinitions] at h
      cases h
      obtain ⟨_, amendment, hamended⟩ := exists_amended_of_error hdefinitions
      exact absurd hamended (amended_ne_cyclicDefinition amendment fork cycle)
    | ok changed =>
      have hnext : (before ++ [stage]).foldlM plan.definitionsAt .empty = .ok changed := by
        rw [List.foldlM_append, hbefore]
        simpa using hdefinitions
      rw [hdefinitions] at h
      dsimp only at h
      rcases hrun : (buildRecords ⟨preset, changed, inherited⟩).run [] with
        ⟨stop | ⟨⟨⟩⟩, records⟩
      · rw [hrun] at h
        cases h
        refine ⟨stage, changed, inherited, records, ?_, hrun⟩
        rw [definitionsOf, Fork.filter_le_eq hforks]
        exact hnext
      · rw [hrun] at h
        refine ih hnext ?_ h
        rw [List.append_assoc, List.singleton_append]
        exact hforks

/-- A build that stops at a cycle names a fork and a cycle in the definitions in force at it. -/
theorem isCycle_of_build {cycle : List String}
    (h : plan.build preset = .error (.refused (.cyclicDefinition fork cycle))) :
    ∃ definitions, plan.definitionsOf fork = .ok definitions ∧ definitions.IsCycle cycle := by
  rw [build_eq, bind_eq_error] at h
  rcases h with hforks | ⟨forks, -, hrequired⟩
  · have hempty : ([] : List Fork).foldlM plan.definitionsAt .empty = .ok .empty := rfl
    obtain ⟨stage, definitions, _, _, hdefinitions, hrun⟩ :=
      exists_of_buildForks_cyclic hempty rfl hforks
    obtain ⟨rfl, hcycle⟩ :=
      Scope.isCycle_of_buildRecords (nodup_names_of_definitionsOf hdefinitions) hrun
    dsimp only at hcycle ⊢
    rw [fork_of_definitionsOf hdefinitions]
    exact ⟨definitions, hdefinitions, hcycle⟩
  · obtain ⟨_, _, herror, -⟩ := of_checkRequired_error (map_eq_error.mp hrequired)
    cases herror

/-- Definitions in which a record contains itself, directly or by way of others, are not built. -/
theorem build_ne_ok_of_cycle (hdefinitions : plan.definitionsOf fork = .ok definitions)
    {name : String} (hcycle : Relation.TransGen definitions.Contains name name)
    (registry : Registry) : plan.build preset ≠ .ok registry := by
  intro h
  obtain ⟨_, hfine, hresolvable⟩ := (exists_build_iff.mp ⟨registry, h⟩).1 fork
  cases hdefinitions.symm.trans hfine
  exact hresolvable.acyclic name
    (Relation.TransGen.mono (fun _ _ => Definitions.refers_iff_contains.mpr) name name hcycle)

/-- Cycles are found, and nothing else is taken for one. Building a record comes to the one end that
the recursion has by its rules, on every set of definitions. A cycle that a build reports is one in
the definitions in force at the fork. Definitions in which records contain each other around a
cycle are never built. -/
theorem cycles_found (plan : RegistryPlan) (preset : Preset) :
    (∀ (scope : Scope), ∀ descriptor ∈ scope.definitions.records, ∀ built ending,
      scope.Ends [] (.record descriptor) built ending ↔
        (buildRecord scope scope.definitions.records.length [] descriptor).run built = ending) ∧
    (∀ fork cycle, plan.build preset = .error (.refused (.cyclicDefinition fork cycle)) →
      ∃ definitions, plan.definitionsOf fork = .ok definitions ∧ definitions.IsCycle cycle) ∧
    ∀ fork definitions name, plan.definitionsOf fork = .ok definitions →
      Relation.TransGen definitions.Contains name name →
        ∀ registry, plan.build preset ≠ .ok registry :=
  ⟨fun _ _ hmem _ _ => Scope.ends_iff hmem, fun _ _ => isCycle_of_build,
    fun _ _ _ hdefinitions hcycle => build_ne_ok_of_cycle hdefinitions hcycle⟩

/-- A plan in which two records contain each other from a fork on, below a third one. -/
def cyclicExample : RegistryPlan :=
  standard
    |>.define .phase0 ⟨"Entry", [("left", .container "Left")]⟩
    |>.define .phase0 ⟨"Left", [("rights", .list (.container "Right") (.fixed 4))]⟩
    |>.define .phase0 ⟨"Right", [("count", .uint 8)]⟩
    |>.define .altair ⟨"Right", [("lefts", .vector (.container "Left") (.fixed 2))]⟩

/-- A record that holds itself comes to an end. The example stops at the fork at which its cycle
arises, and the cycle does not hold the record that it was reached from. -/
theorem isCycle_cyclicExample :
    Scope.selfScope.Ends [] (.record Scope.selfRecord) []
        (.error (.refused (.cyclicDefinition .phase0 ["Self", "Self"])), []) ∧
      cyclicExample.build .minimal =
        .error (.refused (.cyclicDefinition .altair ["Left", "Right", "Left"])) ∧
      ∃ definitions, cyclicExample.definitionsOf .altair = .ok definitions ∧
        definitions.IsCycle ["Left", "Right", "Left"] ∧
        Relation.TransGen definitions.Contains "Left" "Left" ∧
        ∀ registry, cyclicExample.build .mainnet ≠ .ok registry := by
  have hself : Scope.selfScope.Ends [] (.record Scope.selfRecord) []
      (.error (.refused (.cyclicDefinition .phase0 ["Self", "Self"])), []) :=
    ((cycles_found cyclicExample .minimal).1 Scope.selfScope Scope.selfRecord
      List.mem_cons_self [] _).mpr rfl
  have hrefused : (match cyclicExample.build .minimal with
      | .error (.refused error) =>
        error == .cyclicDefinition .altair ["Left", "Right", "Left"]
      | _ => false) = true := by
    decide +kernel
  have hbuild : cyclicExample.build .minimal =
      .error (.refused (.cyclicDefinition .altair ["Left", "Right", "Left"])) := by
    split at hrefused
    · next error herror => rw [herror, beq_iff_eq.mp hrefused]
    · cases hrefused
  obtain ⟨definitions, hdefinitions, hcycle⟩ :=
    (cycles_found cyclicExample .minimal).2.1 .altair _ hbuild
  have hleft : Relation.TransGen definitions.Contains "Left" "Left" := by
    obtain ⟨hright, hback⟩ := by simpa using hcycle.contains
    exact .tail (.single hright) hback
  exact ⟨hself, hbuild, definitions, hdefinitions, hcycle, hleft,
    (cycles_found cyclicExample .mainnet).2.2 .altair definitions "Left" hdefinitions hleft⟩

end RegistryPlan

end BeaconSsz
