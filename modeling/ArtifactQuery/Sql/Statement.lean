import ArtifactQuery.Sql.JoinPlan
import ArtifactQuery.Sql.Select

/-!
# Statements for queries

A query becomes one select statement with parameters and a description of its columns.

* `Selection`: the statement as data, items, joins, condition and order.
* `Selection.ofQuery`: the selection of a query.
* `Statement`: the text with its parameters and columns.
* `Query.toStatement`: the statement of a query in a dialect.
-/

namespace ArtifactQuery.Sql

/-- A column of the result under its name, and the field that it carries. -/
structure ResultColumn where
  name : String
  field : ResultField
  deriving DecidableEq, Repr

/-- An item of the select list. -/
structure SelectItem where
  occurrence : Occurrence
  /-- The column that is read. -/
  reads : String
  column : ResultColumn
  deriving DecidableEq, Repr

namespace SelectItem

/-- The text of an item. -/
def written (i : SelectItem) : String :=
  i.occurrence.name ++ "." ++ i.reads ++ " as " ++ i.column.name

end SelectItem

/-- A name that starts with `label` and is not used: the bare label, or the label with the first
number that helps. -/
def freshName (used : List String) (label : String) : String :=
  let numbered := (List.range used.length).map fun n => label ++ toString (n + 2)
  ((label :: numbered).find? (· ∉ used)).getD label

/-- A statement as data. -/
structure Selection where
  items : List SelectItem
  joins : JoinPlan
  condition : List Piece
  order : List (String × Direction)
  deriving DecidableEq, Repr

namespace Selection

/-- The items that return fields, with the joins that they need. -/
def addItems (p : JoinPlan) (items : List SelectItem) :
    List ResultField → Except QueryError (List SelectItem × JoinPlan)
  | [] => .ok (items, p)
  | f :: fs => do
    let (o, p) ← p.forField f
    let name := freshName (items.map (·.column.name)) f.field.column.label
    addItems p (items ++ [⟨o, f.field.column.column, ⟨name, f⟩⟩]) fs

/-- The piece of an element, with the joins that it needs. -/
def pieceOf (p : JoinPlan) : Element → Except QueryError (Piece × JoinPlan)
  | .criterion c => do
    let (r, p) ← p.forCriterion c
    match c.render r.occurrence r.owner with
    | .ok condition => .ok (.condition condition, p)
    | .error refused => .error refused.error
  | .and => .ok (.and, p)
  | .or => .ok (.or, p)
  | .openParen => .ok (.openParen, p)
  | .closeParen => .ok (.closeParen, p)

/-- The pieces of elements, with the joins that they need. -/
def piecesOf (p : JoinPlan) : List Element → Except QueryError (List Piece × JoinPlan)
  | [] => .ok ([], p)
  | e :: es => do
    let (piece, p) ← pieceOf p e
    let (pieces, p) ← piecesOf p es
    return (piece :: pieces, p)

/-- The name of the column that returns a field. -/
def columnNameOf (items : List SelectItem) (f : ResultField) : Except QueryError String :=
  match items.find? (·.column.field = f) with
  | some i => .ok i.column.name
  | none => .error (.invalidSort (.notSelected f.field))

/-- The order by the columns that return its fields. -/
def orderOf (items : List SelectItem) (s : Sorting) :
    Except QueryError (List (String × Direction)) :=
  s.fields.mapM fun f => (columnNameOf items f).map (·, s.direction)

/-- The selection of a query. -/
def ofQuery (q : Query) : Except QueryError Selection := do
  let (items, p) ← addItems (.start q.domain.table) [] q.resultFields
  if items = [] then .error (.malformed (.noResultFields q.domain)) else pure ()
  let (condition, p) ← piecesOf p q.elements
  let order ← match q.sort with
    | some s => orderOf items s
    | none => .ok []
  return ⟨items, p, condition, order⟩

/-- The text of the condition. -/
def conditionText (s : Selection) : String := " ".intercalate (s.condition.map Piece.written)

/-- The text of the order. -/
def orderText (s : Selection) : String :=
  ", ".intercalate (s.order.map fun t => t.1 ++ " " ++ t.2.keyword)

/-- The parameters, in the order of their question marks. -/
def params (s : Selection) : List Param := s.condition.flatMap Piece.params

/-- The parts of the statement, with a window. -/
def parts (s : Selection) (offset limit : Int) : SelectParts where
  distinct := true
  fields := some (", ".intercalate (s.items.map SelectItem.written))
  tables := s.joins.written
  conditions := some s.conditionText
  orderBy := some s.orderText
  offset := some offset
  limit := some limit

end Selection

/-- A statement that can be run. -/
structure Statement where
  sql : String
  params : List Param
  columns : List ResultColumn
  domain : Domain
  action : ActionSpec
  offset : Int
  limit : Int
  deriving DecidableEq, Repr

end ArtifactQuery.Sql

namespace ArtifactQuery

/-- The statement of a query in a dialect. -/
def Query.toStatement (q : Query) (d : Dialect) : Except QueryError Sql.Statement := do
  let s ← Sql.Selection.ofQuery q
  let sql ← (s.parts q.offset q.limit).written d
  return ⟨sql, s.params, s.items.map (·.column), q.domain, q.action, q.offset, q.limit⟩

end ArtifactQuery
