import BeaconSsz.Catalogue.Definitions
import BeaconSsz.NamedBound
import BeaconSsz.Schema.Agreement

/-!
# Building the records of a fork

Every record of a fork is resolved after the records that it holds. A record whose schema agrees
with the one of the previous fork is that schema, and not a new one. The edition of a schema is
the fork at which it was drawn up.
-/

namespace BeaconSsz

/-- The schemas of records, in the order in which they were built. -/
abbrev Records := List Schema

/-- The schema of a name. -/
def Records.find? (records : Records) (name : String) : Option Schema :=
  List.find? (·.name == name) records

/-- The edition of the schemas drawn up at a fork, of which there is one of a name at most. -/
def Fork.edition (fork : Fork) : Nat :=
  fork.position + 1

/-- What the records of a fork are built from. -/
structure Scope where
  preset : Preset
  definitions : Definitions
  /-- The records of the previous fork. -/
  inherited : Records

namespace Scope

/-- What names stand for, once some records are built. -/
def context (scope : Scope) (built : Records) : Context where
  bound? := resolveBound scope.preset scope.definitions.fork
  container? := built.find?

/-- The inherited schema of the same name, if the schema agrees with it. -/
def reuse (scope : Scope) (schema : Schema) : Schema :=
  match scope.inherited.find? schema.name with
  | some previous => if (previous.agreement schema).val then previous else schema
  | none => schema

/-- The schema of a record all of whose parts are built. -/
def resolve (scope : Scope) (built : Records) (descriptor : Descriptor) :
    Except (Stop RegistryError) Schema :=
  let fork := scope.definitions.fork
  match descriptor.resolve (scope.context built) fork.edition with
  | .ok schema => .ok (scope.reuse schema)
  | .error stop => .error (stop.mapError (.schema fork))

end Scope

/-- Building records on top of those that are built; a failure leaves what was built before. -/
abbrev Building := ExceptT (Stop RegistryError) (StateM Records)

/-- Builds a record and first the records that it holds, unless it is built. The records that
are waiting for this one are given outermost first; the budget is the number of further records
that may wait, which is never more than there are definitions. -/
def buildRecord (scope : Scope) (budget : Nat) (waiting : List String)
    (descriptor : Descriptor) : Building Unit := do
  let built ← get
  if (built.find? descriptor.name).isSome then
    return
  else if descriptor.name ∈ waiting then
    throw (.refused (.cyclicDefinition scope.definitions.fork
      (waiting.dropWhile (· ≠ descriptor.name) ++ [descriptor.name])))
  else
    match budget with
    | 0 =>
      throw (.refused (.cyclicDefinition scope.definitions.fork (waiting ++ [descriptor.name])))
    | budget + 1 =>
      descriptor.references.forM fun name =>
        match scope.definitions.get? name with
        | some part => buildRecord scope budget (waiting ++ [descriptor.name]) part
        | none => pure ()
      let built ← get
      let schema ← liftM (scope.resolve built descriptor)
      set (built ++ [schema])

/-- Builds every record, in the order of their definitions. -/
def buildRecords (scope : Scope) : Building Unit :=
  scope.definitions.records.forM
    (buildRecord scope scope.definitions.records.length [])

end BeaconSsz
