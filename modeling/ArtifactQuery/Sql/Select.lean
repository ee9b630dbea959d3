import ArtifactQuery.Sql.Window

/-!
# Select statements

* `SelectParts`: the texts that a statement is put together from.
* `SelectParts.written`: the statement in a dialect. Blank parts are left out.
-/

namespace ArtifactQuery.Sql

/-- How rows are joined. -/
inductive JoinType
  | inner
  | left
  deriving DecidableEq, Repr

/-- The type's keywords. -/
def JoinType.keyword : JoinType → String
  | inner => "inner join"
  | left => "left outer join"

/-- A join behind the tables. -/
structure JoinClause where
  type : JoinType
  table : String
  on : String
  deriving DecidableEq, Repr

/-- The text of a join. -/
def JoinClause.written (j : JoinClause) : String :=
  " " ++ j.type.keyword ++ " " ++ j.table ++ " on " ++ j.on

/-- The parts of a statement. -/
structure SelectParts where
  distinct : Bool := false
  fields : Option String := none
  tables : String := ""
  join : Option JoinClause := none
  conditions : Option String := none
  orderBy : Option String := none
  groupBy : Option String := none
  offset : Option Int := none
  limit : Option Int := none
  deriving DecidableEq, Repr

/-- A text without blanks at its ends, if anything is left of it. -/
def nonBlank? (s : Option String) : Option String :=
  (s.map trim).filter (· ≠ "")

/-- A keyword and what follows it, if anything does. -/
def clauseText (keyword : String) : Option String → String
  | some s => keyword ++ s
  | none => ""

namespace SelectParts

/-- The statement without a window. -/
def base (p : SelectParts) (d : Dialect) : String :=
  "select " ++ (if p.distinct then "distinct " else "") ++ (nonBlank? p.fields).getD "*" ++
    " from " ++ trim p.tables ++ ((p.join.map JoinClause.written).getD "") ++
    clauseText " where " (nonBlank? p.conditions) ++
    (if d.ordersBase p.offset p.limit then clauseText " order by " (nonBlank? p.orderBy) else "") ++
    clauseText " group by " (nonBlank? p.groupBy)

/-- The rows skipped; a negative number skips none. -/
def skipped (p : SelectParts) : Int := max (p.offset.getD 0) 0

/-- The rows returned at most; a negative number is no limit. -/
def atMost (p : SelectParts) : Int :=
  match p.limit with
  | some n => if 0 ≤ n then n else Signed64.greatest
  | none => Signed64.greatest

/-- The statement in a dialect. -/
def written (p : SelectParts) (d : Dialect) : Except QueryError String :=
  if trim p.tables = "" then .error (.malformed .noTables)
  else if wantsWindow p.offset p.limit then
    .ok ((d.window (nonBlank? p.orderBy) p.skipped p.atMost).around (p.base d))
  else .ok (p.base d)

end SelectParts

end ArtifactQuery.Sql
