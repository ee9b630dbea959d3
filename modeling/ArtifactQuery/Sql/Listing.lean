import ArtifactQuery.Json
import ArtifactQuery.Sql.Statement

/-!
# Listings of statements

A statement as JSON, for those who want to see it instead of running it.

* `Statement.json`: the whole statement, text and parameters first.
* `ResultField.json`, `ActionSpec.json`: the parts of it that queries have as well.
-/

namespace ArtifactQuery

/-- A path of domains as JSON. -/
def Json.ofPath (path : List Domain) : Json := .array (path.map (.text ·.identifier))

/-- A text that may be missing, as JSON. -/
def Json.ofText? (s : Option String) : Json := (s.map Json.text).getD .null

/-- A returned field as JSON. -/
def ResultField.json (f : ResultField) : Json :=
  .object [("field", .text f.field.identifier), ("sub_domains", .ofPath f.path)]

/-- An action as JSON. -/
def ActionSpec.json (a : ActionSpec) : Json :=
  .object
    [("kind", .text a.kind.identifier),
     ("dry_run", (a.dryRun.map Json.bool).getD .null),
     ("keys", .array (a.keys.map .text)),
     ("new_value", .ofText? a.newValue)]

namespace Sql

/-- A parameter as JSON. -/
def Param.json : Param → Json
  | text s => .text s
  | number n => .int n

/-- A column of the result as JSON. -/
def ResultColumn.json (c : ResultColumn) : Json :=
  .object [("alias", .text c.name), ("field", c.field.json)]

namespace Statement

/-- The entries of a statement's listing. -/
def entries (s : Statement) : List (String × Json) :=
  [("sql", .text s.sql),
   ("params", .array (s.params.map Param.json)),
   ("columns", .array (s.columns.map ResultColumn.json)),
   ("domain", .text s.domain.identifier),
   ("action", s.action.json),
   ("offset", .int s.offset),
   ("limit", .int s.limit)]

/-- A statement as JSON. -/
def json (s : Statement) : Json := .object s.entries

end Statement

end Sql

end ArtifactQuery
