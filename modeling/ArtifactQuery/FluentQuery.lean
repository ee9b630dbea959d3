import ArtifactQuery.Resolution

/-!
# Fluent queries

A query built in code instead of read from text: its filters are trees of clauses.

* `Clause`: a test, or clauses combined by a connective.
* `FluentQuery`: the settings of a query.
* `Query.ofFluent`: the query with these settings, at an instant.
-/

namespace ArtifactQuery

/-- A filter. -/
inductive Clause
  | test (t : Test)
  | group (c : Connective) (members : List Clause)

instance : Inhabited Clause := ⟨.group .and []⟩

/-- A query built in code. -/
structure FluentQuery where
  domain : Domain
  /-- Filters that must all hold. -/
  filters : List Clause := []
  includes : List String := []
  sort : Option (Direction × List String) := none
  offset : Option Int := none
  limit : Option Int := none
  action : ActionSpec := ⟨.find, none, [], none⟩

namespace FluentQuery

/-- Deletes what is found. -/
def delete (q : FluentQuery) : FluentQuery := { q with action := { q.action with kind := .delete } }

/-- Sets the properties `keys` to `value`, or to nothing. -/
def update (q : FluentQuery) (keys : List String) (value : Option String) : FluentQuery :=
  { q with action := { q.action with kind := .updateProperty, keys := keys, newValue := value } }

/-- Says whether nothing is to be changed. -/
def dryRun (q : FluentQuery) (b : Bool) : FluentQuery :=
  { q with action := { q.action with dryRun := some b } }

end FluentQuery

mutual

/-- Writes a clause into a draft. -/
def Clause.write (now : Int) (s : Draft) : Clause → Except QueryError Draft
  | .test t => s.addTest now t
  | .group c ms => do (← Clause.writeAll now (s.openClause c) ms).closeClause

/-- Writes clauses into a draft, one after the other. -/
def Clause.writeAll (now : Int) (s : Draft) : List Clause → Except QueryError Draft
  | [] => .ok s
  | c :: cs => do Clause.writeAll now (← c.write now s) cs

end

/-- The query with the settings of `q`; spans of time end at `now`. -/
def Query.ofFluent (now : Int) (q : FluentQuery) : Except QueryError Query := do
  let s := Draft.start q.domain
  let s ← { s with query := { s.query with action := q.action } }.setWindow q.offset q.limit
  let s ← Clause.writeAll now s q.filters
  s.complete ⟨q.includes, q.sort⟩

end ArtifactQuery
