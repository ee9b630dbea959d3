import ArtifactQuery.Policy.ValueHeads
import ArtifactQuery.QueryError
import ArtifactQuery.Sql.Condition
import ArtifactQuery.Text.Wildcard

/-!
# Criteria as conditions

* `Table.link`: the columns on which two tables are joined, or the error that there are none.
* `Criterion.render`: the condition that a criterion becomes on an occurrence of its table. A denial
  on a column that may be null also holds of null. A denied property becomes a sub-select: no
  property of the owner has the key and satisfies the positive comparison.
-/

namespace ArtifactQuery

/-- The columns of `a` and of `b` on which the two tables are joined. -/
def Table.link (a b : Table) : Except QueryError (String × String) :=
  match a.link? b with
  | some c => .ok c
  | none => .error (.configuration (.noLink a b))

namespace Sql

/-- A criterion that becomes no condition, and the parameters that were bound before this showed. -/
structure Refused where
  error : QueryError
  bound : List Param

/-- The parameter for a value. -/
def Param.ofValue : Value → Except QueryError Param
  | .text s => .ok (.text s)
  | .long n => .ok (.number n)
  | .date n => .ok (.number n)
  | .itemType t => match t.code? with
    | some n => .ok (.number n)
    | none => .error (.invalidValue .anyHasNoCode)
  | .null => .error (.invalidValue .nullParameter)

/-- The relation of a comparator and the value to bind; patterns become `like` patterns. -/
def relate (c : Comparator) (v : Value) : Except QueryError (Relation × Value) :=
  match c with
  | .equals => .ok (.eq, v)
  | .notEquals => .ok (.ne, v)
  | .greater => .ok (.gt, v)
  | .greaterEquals => .ok (.ge, v)
  | .less => .ok (.lt, v)
  | .lessEquals => .ok (.le, v)
  | .matching | .notMatching => match v with
    | .text s =>
      .ok (if c = .matching then .like else .notLike, .text (Wildcard.toLike s))
    | _ => .error (.unsupportedComparator (.patternIsNoText c v))
  | .last | .before => .error (.unsupportedComparator (.unresolvedSpan c))

/-- A column compared with a value. -/
structure Comparison where
  column : ColumnRef
  nullable : Bool
  /-- Only the first characters are compared, if a number of them is given. -/
  head : Option Nat
  comparator : Comparator
  value : Value

namespace Comparison

/-- The side of the column. -/
def columnTerm (c : Comparison) : Term :=
  match c.head with
  | some n => .columnHead n c.column
  | none => .column c.column

/-- The side of a parameter. -/
def paramTerm (c : Comparison) (p : Param) : Term :=
  match c.head with
  | some n => .paramHead n p
  | none => .param p

/-- The condition of a comparison with a value that is neither null nor any item type. -/
def ordinary (c : Comparison) : Except QueryError Condition := do
  let (r, v) ← relate c.comparator c.value
  let p ← Param.ofValue v
  let test := Condition.compare c.columnTerm r (c.paramTerm p)
  return if c.comparator.isNegative ∧ c.nullable then .either test (.isNull c.column) else test

/-- The condition of a comparison. -/
def condition (c : Comparison) : Except QueryError Condition :=
  match c.value, c.comparator with
  | .null, .equals => .ok (.isNull c.column)
  | .null, .notEquals => .ok (.isNotNull c.column)
  | .null, cmp => .error (.unsupportedComparator (.withNull cmp))
  | .itemType .any, .equals => .ok .always
  | .itemType .any, .notEquals => .ok .never
  | _, _ => c.ordinary

end Comparison

/-- A column of the table of a sub-select. -/
def innerColumn (name : String) : ColumnRef := ⟨none, name⟩

/-- The columns of the owner and of the property table on which a sub-select hangs. -/
def ownerColumns (owner property : Table) : Except QueryError (String × String) :=
  if owner = property then (property.link property.propertyOwner).map fun c => (c.1, c.1)
  else owner.link property

/-- A result that fails after parameters were bound. -/
def orRefused {α : Type} (bound : List Param) : Except QueryError α → Except Refused α
  | .ok a => .ok a
  | .error e => .error ⟨e, bound⟩

end Sql

open Sql in
/-- The condition on the value of the property `key`. -/
def Criterion.renderProperty (c : Criterion) (key : String) (v : Value) (o owner : Occurrence) :
    Except Refused Condition := do
  let head := if c.kind = .propertyHead then some headLength else none
  let bound := Param.text key
  if ¬ c.comparator.isNegative then
    let value ← orRefused [bound]
      (Comparison.condition ⟨⟨some o, "prop_value"⟩, true, head, c.comparator, v⟩)
    return .both (.compare (.column ⟨some o, "prop_key"⟩) .eq (.param bound)) value
  else
    let (ownerColumn, column) ← orRefused [] (ownerColumns owner.table o.table)
    let value ← orRefused [bound]
      (Comparison.condition ⟨innerColumn "prop_value", false, head, c.comparator.positive, v⟩)
    return .noneOf ⟨some owner, ownerColumn⟩ column o.table
      (.compare (.column (innerColumn "prop_key")) .eq (.param bound)) value

open Sql in
/-- The condition on a column. -/
def Criterion.renderField (c : Criterion) (f : Field) (v : Value) (o : Occurrence) :
    Except Refused Condition :=
  let column := f.column
  let head := if c.kind = .propertyColumnHead ∧ column.column = "prop_value" then some headLength
    else none
  orRefused [] (Comparison.condition
    ⟨⟨some o, column.column⟩, column.nullable, head, c.comparator, v⟩)

open Sql in
/-- The condition between two values. -/
def Criterion.renderValues (c : Criterion) (l v : Value) : Except Refused Condition := do
  let r ← match c.comparator with
    | .equals => Except.ok Relation.eq
    | .notEquals => Except.ok Relation.ne
    | cmp => Except.error ⟨.unsupportedComparator (.betweenValues cmp), []⟩
  let left ← orRefused [] (Param.ofValue l)
  let right ← orRefused [left] (Param.ofValue v)
  return .compare (.param left) r (.param right)

open Sql in
/-- The condition that a criterion becomes on the occurrence `o`. The rows of a property table
belong to those of `owner`, or of `o` itself where none is given. -/
def Criterion.render (c : Criterion) (o : Occurrence) (owner : Option Occurrence) :
    Except Refused Condition :=
  match c.right with
  | .field f => .error ⟨.malformed (.fieldOnTheRight f), []⟩
  | .value v =>
    if c.kind.namesKey then match c.left with
      | .value (.text key) => c.renderProperty key v o (owner.getD o)
      | l => .error ⟨.malformed (.noPropertyKey l), []⟩
    else match c.left with
      | .field f => c.renderField f v o
      | .value l => c.renderValues l v

end ArtifactQuery
