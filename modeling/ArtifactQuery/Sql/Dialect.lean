import ArtifactQuery.QueryError
import ArtifactQuery.Text.Blank

/-!
# Dialects

The databases that statements are written for.

* `Dialect.name`: the dialect's own name.
* `Dialect.named?`: the dialect with exactly this name.
* `Dialect.ofText`: the dialect that a text names, aliases, case and blanks around it set aside.
-/

namespace ArtifactQuery

/-- A database that statements are written for. -/
inductive Dialect
  | derby
  | mysql
  | oracle
  | postgresql
  | sqlserver
  deriving DecidableEq, Repr

namespace Dialect

/-- The dialect's name. -/
def name : Dialect → String
  | derby => "derby"
  | mysql => "mysql"
  | oracle => "oracle"
  | postgresql => "postgresql"
  | sqlserver => "sqlserver"

/-- The dialect with the name `s`. -/
def named? (s : String) : Option Dialect :=
  [derby, mysql, oracle, postgresql, sqlserver].find? (·.name = s)

/-- Capital letters of the Latin alphabet made small. -/
def smallLetters (s : String) : String := s.map Char.toLower

/-- The dialect that a text names. -/
def ofText (s : String) : Except QueryError Dialect :=
  match smallLetters (trim s) with
  | "postgres" => .ok postgresql
  | "mssql" => .ok sqlserver
  | n => match named? n with
    | some d => .ok d
    | none => .error (.configuration (.unknownDialect n))

end Dialect

end ArtifactQuery
