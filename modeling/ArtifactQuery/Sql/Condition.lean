import ArtifactQuery.Schema.Table

/-!
# SQL conditions

Conditions of a `where` clause as data, and their written form. Values never stand in the text: each
is a parameter, written as a question mark.

* `Param`: a bound value.
* `Condition`: a comparison, a null test, a constant, or a combination of conditions.
* `Condition.written`: the text of a condition.
* `Condition.params`: its parameters in the order of their question marks.
-/

namespace ArtifactQuery.Sql

/-- A value bound to a question mark. -/
inductive Param
  | text (s : String)
  | number (n : Int)
  deriving DecidableEq, Repr

/-- A parameter as listings show it, a text between quotes. -/
def Param.shown : Param → String
  | text s => "'" ++ s ++ "'"
  | number n => toString n

/-- A column of an occurrence, or, without one, of the table of the enclosing sub-select. -/
structure ColumnRef where
  source : Option Occurrence
  column : String
  deriving DecidableEq, Repr

/-- The text of a column reference. -/
def ColumnRef.written (c : ColumnRef) : String :=
  match c.source with
  | some o => o.name ++ "." ++ c.column
  | none => c.column

/-- One side of a comparison. A head is the first characters of a value, `head` their number. -/
inductive Term
  | column (c : ColumnRef)
  | columnHead (head : Nat) (c : ColumnRef)
  | param (p : Param)
  | paramHead (head : Nat) (p : Param)
  deriving DecidableEq, Repr

namespace Term

/-- The text of a term. -/
def written : Term → String
  | column c => c.written
  | columnHead n c => "substr(" ++ c.written ++ "::text, 1, " ++ toString n ++ ")"
  | param _ => "?"
  | paramHead n _ => "substr(?, 1, " ++ toString n ++ ")"

/-- The parameters of a term. -/
def params : Term → List Param
  | column _ | columnHead _ _ => []
  | param p | paramHead _ p => [p]

end Term

/-- How two terms are compared. -/
inductive Relation
  | eq
  | ne
  | gt
  | ge
  | lt
  | le
  | like
  | notLike
  deriving DecidableEq, Repr

/-- The relation's operator. -/
def Relation.sign : Relation → String
  | eq => "="
  | ne => "!="
  | gt => ">"
  | ge => ">="
  | lt => "<"
  | le => "<="
  | like => "like"
  | notLike => "not like"

/-- A condition on the rows of a statement. -/
inductive Condition
  | compare (left : Term) (r : Relation) (right : Term)
  | isNull (c : ColumnRef)
  | isNotNull (c : ColumnRef)
  | always
  | never
  | both (a b : Condition)
  | either (a b : Condition)
  /-- `c` equals no `column` of the rows of `t` on which `a` and `b` hold. -/
  | noneOf (c : ColumnRef) (column : String) (t : Table) (a b : Condition)
  deriving DecidableEq, Repr

namespace Condition

/-- The text of a condition. -/
def written : Condition → String
  | compare l r t => l.written ++ " " ++ r.sign ++ " " ++ t.written
  | isNull c => c.written ++ " is null"
  | isNotNull c => c.written ++ " is not null"
  | always => "1 = 1"
  | never => "1 = 0"
  | both a b => "(" ++ a.written ++ " and " ++ b.written ++ ")"
  | either a b => "(" ++ a.written ++ " or " ++ b.written ++ ")"
  | noneOf c column t a b =>
    c.written ++ " not in (select " ++ column ++ " from " ++ t.name ++ " where " ++ a.written ++
      " and " ++ b.written ++ ")"

/-- The parameters of a condition, in the order of their question marks. -/
def params : Condition → List Param
  | compare l _ t => l.params ++ t.params
  | isNull _ | isNotNull _ | always | never => []
  | both a b | either a b | noneOf _ _ _ a b => a.params ++ b.params

end Condition

/-- A piece of a `where` clause. -/
inductive Piece
  | condition (c : Condition)
  | and
  | or
  | openParen
  | closeParen
  deriving DecidableEq, Repr

namespace Piece

/-- The text of a piece. -/
def written : Piece → String
  | condition c => c.written
  | and => "and"
  | or => "or"
  | openParen => "("
  | closeParen => ")"

/-- The parameters of a piece. -/
def params : Piece → List Param
  | condition c => c.params
  | _ => []

end Piece

end ArtifactQuery.Sql
