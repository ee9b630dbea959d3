import ArtifactQuery.Draft
import ArtifactQuery.FieldPath
import ArtifactQuery.Typing

/-!
# Resolving names

What both forms of a query, text and fluent, have in common: their tests become criteria of a draft,
and the draft is completed by the fields it returns, its action, its window and its order.

* `Draft.addTest`: the criterion of a test. A path that starts with `@` names a property by its key.
* `Query.withIncludes`: the fields returned, those of the main domain by default.
* `Query.withAction`: the action checked, and the fields that it reads returned as well.
* `Completion`, `Draft.complete`: all that follows the criteria.
-/

namespace ArtifactQuery

/-- A test of a field or a property, as written. -/
structure Test where
  path : String
  comparator : Comparator
  value : Literal
  deriving DecidableEq, Repr

namespace Draft

/-- The number of an occurrence of a property table: that of the clause, or a new one. -/
def propertyId (s : Draft) : Nat × Draft :=
  match s.sharedId? with
  | some n => (n, s)
  | none => s.newId

/-- The number of the occurrence that a criterion at the end of a chain of tables reads. -/
def idFor (s : Draft) (path : List Domain) (t : Table) : Nat × Draft :=
  if (tableChain path t).length = 1 then (0, s)
  else if t.holdsProperties then s.propertyId
  else s.newId

/-- The criterion of a field. -/
def fieldCriterion (now : Int) (s : Draft) (t : Test) : Except QueryError (Criterion × Draft) := do
  let f ← FieldPath.resolve s.query.domain t.path
  let column := f.field.column
  let (c, v) ← t.comparator.resolve now t.path column.type t.value
  c.check t.path column.type v
  let (n, s) := s.idFor f.path column.table
  return (.simple f.path f.field ⟨column.table, n⟩ c v, s)

/-- The path from `d` to its domain of properties, and the number of the occurrence read. -/
def propertyPath (s : Draft) (d own : Domain) : List Domain × Nat × Draft :=
  if d = own then ([d], s.sharedId?.getD 0, s) else ([d, own], s.propertyId)

/-- The criterion of a property. The key `*` stands for any key, and the value `*` for any value. -/
def propertyCriterion (s : Draft) (key : String) (cmp : Comparator) (l : Literal) :
    Except QueryError (Criterion × Draft) := do
  let d := s.query.domain
  let some own := d.properties? | .error (.unknownField (.noProperties key d))
  let some (keyField, valueField) := own.keyAndValue?
    | .error (.unknownField (.noProperties key d))
  if cmp.ofSpan?.isSome then .error (.unsupportedComparator (.onProperty cmp key)) else pure ()
  let v ← Value.ofLiteral .text l
  cmp.check key .text v
  let (path, n, s) := s.propertyPath d own
  let o : Occurrence := ⟨own.table, n⟩
  if key = "*" then return (.simple path valueField o cmp v, s)
  else if v = .text "*" ∧ (cmp = .equals ∨ cmp = .matching) then
    return (.simple path keyField o .equals (.text key), s)
  else return (.property path key o cmp v, s)

/-- The criterion of a test. -/
def criterionOf (now : Int) (s : Draft) (t : Test) : Except QueryError (Criterion × Draft) :=
  match t.path.toList with
  | '@' :: key => s.propertyCriterion (String.ofList key) t.comparator t.value
  | _ => s.fieldCriterion now t

/-- Adds the criterion of a test. -/
def addTest (now : Int) (s : Draft) (t : Test) : Except QueryError Draft := do
  let (c, s) ← s.criterionOf now t
  return s.addCriterion c

/-- Sets the window of rows: the offset is looked at first. -/
def setWindow (s : Draft) (offset limit : Option Int) : Except QueryError Draft := do
  let s ← match offset with
    | some n => s.setOffset n
    | none => .ok s
  match limit with
  | some n => s.setLimit n
  | none => .ok s

end Draft

/-- The fields of repository, path and name, which locate an item. -/
def locationFields : List Field := [.itemRepo, .itemPath, .itemName]

namespace Query

/-- Returns the fields that the includes name, behind the defaults unless one is of the main domain.
-/
def withIncludes (q : Query) (includes : List String) : Except QueryError Query := do
  let included := (← includes.mapM (FieldPath.resolveInclude q.domain)).flatten
  let own := if included.any ResultField.isMain then []
    else q.domain.defaults.map (ResultField.main · q.domain)
  return (q.addResultFields own).addResultFields included

/-- Checks the action, and returns the fields that it reads. -/
def withAction (q : Query) : Except QueryError Query :=
  let a := q.action
  if ¬ a.kind.supports q.domain then .error (.invalidAction (.unsupported a.kind q.domain))
  else if a.kind ≠ .updateProperty ∧ (a.keys ≠ [] ∨ a.newValue.isSome) then
    .error (.invalidAction (.parameters a.kind))
  else if a.kind = .find ∧ a.dryRun.isSome then .error (.invalidAction .dryRunOfFind)
  else match a.kind with
    | .find => .ok q
    | .delete => .ok (q.addResultFields (locationFields.map (ResultField.main · .items)))
    | .updateProperty =>
      .ok (q.addResultFields (locationFields.map (⟨·, [.properties, .items]⟩)))

end Query

/-- What follows the criteria of a query. -/
structure Completion where
  includes : List String
  sort : Option (Direction × List String)

namespace Draft

/-- The field that a sort path names. -/
def sortField (d : Domain) (path : String) : Except QueryError ResultField :=
  match FieldPath.resolve d path with
  | .ok f => .ok f
  | .error _ => .error (.invalidSort (.unknownField path))

/-- Orders by the fields that paths name. -/
def sortBy (s : Draft) (dir : Direction) (paths : List String) : Except QueryError Draft := do
  let fields ← paths.mapM (sortField s.query.domain)
  s.setSort ⟨dir, fields⟩

/-- Adds what follows the criteria, and hands out the query. -/
def complete (s : Draft) (c : Completion) : Except QueryError Query := do
  let q ← s.query.withIncludes c.includes
  let q ← q.withAction
  let s := { s with query := q }
  let s ← match c.sort with
    | some (dir, paths) => s.sortBy dir paths
    | none => .ok s
  s.finish

end Draft

end ArtifactQuery
