import ArtifactQuery.Signed64
import ArtifactQuery.Sql.Dialect
import ArtifactQuery.Text.Segments

/-!
# Windows of rows

A statement returns at most some number of rows after skipping others. Each dialect says so in its
own way around a base statement.

* `Window`: the ways to say it.
* `Window.around`: the text around a base statement.
* `Dialect.window`: a dialect's way for an offset and a limit, where the greatest limit means none.
* `wantsWindow`: whether offset and limit leave rows out.
-/

namespace ArtifactQuery.Sql

/-- A part of the rows of a base statement. -/
inductive Window
  /-- Skips `offset` rows and returns `count`, or all. -/
  | offsetFetch (offset : Int) (count : Option Int)
  /-- Skips `offset` rows and returns `count`. -/
  | limitPair (offset count : Int)
  /-- Numbers the rows from 1, and returns those up to `last` and beyond `skipped`. -/
  | rowNum (skipped last : Int)
  /-- Returns `count` rows, or all, after skipping `offset`. -/
  | limitOffset (count : Option Int) (offset : Int)
  /-- Numbers the rows from 1 in the order of the terms, and returns those from `first` up to but
  not with `stop`. -/
  | rowNumber (order : Option (List String)) (first stop : Int)
  deriving DecidableEq, Repr

namespace Window

/-- The order of numbered rows; without terms any order will do. -/
def orderText : Option (List String) → String
  | some terms => ", ".intercalate terms
  | none => "(select 1)"

/-- The text around a base statement. -/
def around (base : String) : Window → String
  | offsetFetch o none => base ++ " offset " ++ toString o ++ " rows"
  | offsetFetch o (some n) =>
    base ++ " offset " ++ toString o ++ " rows fetch next " ++ toString n ++ " rows only"
  | limitPair o n => base ++ " limit " ++ toString o ++ ", " ++ toString n
  | rowNum skipped last =>
    "select * from ( select inner_query.*, ROWNUM rnum from ( " ++ base ++
      " ) inner_query where ROWNUM <= " ++ toString last ++ " ) where rnum > " ++ toString skipped
  | limitOffset none o => base ++ " offset " ++ toString o
  | limitOffset (some n) o => base ++ " limit " ++ toString n ++ " offset " ++ toString o
  | rowNumber order first stop =>
    "select bb.* from ( select aa.*, ROW_NUMBER() OVER ( order by " ++ orderText order ++
      " ) AS RN from ( " ++ base ++ " ) aa ) bb where bb.RN >= " ++ toString first ++
      " and bb.RN < " ++ toString stop

end Window

/-- A term of an order, with the column looked up in the numbered rows instead of its table. -/
def outerTerm (term : List Char) : String :=
  "aa." ++ String.ofList (if '.' ∈ term then (term.dropWhile (· ≠ '.')).drop 1 else term)

/-- The terms of an order, with the columns looked up in the numbered rows. -/
def outerTerms (order : String) : List String :=
  (((cutAt ',' order.toList).map trimChars).filter (· ≠ [])).map outerTerm

/-- A limit, unless it is the greatest. -/
def bounded? (limit : Int) : Option Int := if limit < Signed64.greatest then some limit else none

/-- Whether offset and limit leave rows out. -/
def wantsWindow (offset limit : Option Int) : Bool :=
  offset.any (0 < ·) || limit.any (· < Signed64.greatest)

end ArtifactQuery.Sql

namespace ArtifactQuery

open Sql

namespace Dialect

/-- The dialect's window after `offset` rows with `limit` rows. Numbers of rows stop at the greatest
number. -/
def window (d : Dialect) (order : Option String) (offset limit : Int) : Window :=
  match d with
  | derby => .offsetFetch offset (bounded? limit)
  | mysql => .limitPair offset limit
  | oracle => .rowNum offset (Signed64.addCapped offset limit Signed64.greatest)
  | postgresql => .limitOffset (bounded? limit) offset
  | sqlserver =>
    let first := Signed64.addCapped offset 1 Signed64.greatest
    .rowNumber (order.map outerTerms) first (Signed64.addCapped limit first Signed64.greatest)

/-- Whether the base statement has the order; otherwise the window has it. -/
def ordersBase (d : Dialect) (offset limit : Option Int) : Bool :=
  d ≠ sqlserver || ¬ wantsWindow offset limit

end Dialect

end ArtifactQuery
