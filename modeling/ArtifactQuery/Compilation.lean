import ArtifactQuery.FluentQuery
import ArtifactQuery.Policy
import ArtifactQuery.Sql.Statement
import ArtifactQuery.TextQuery

/-!
# From queries to statements

* `Query.compile`: the statement of a query under all policies.
* `compileText`, `compileFluent`: the same from a query as it is written.
-/

namespace ArtifactQuery

/-- The query as a dialect runs it best. -/
def Query.tuned (q : Query) (d : Dialect) : Query := if d = .postgresql then q.byHeads else q

/-- The statement of a query under all policies. -/
def Query.compile (d : Dialect) (s : Surroundings) (q : Query) : Except QueryError Sql.Statement :=
  ((q.decorate s Policy.all).tuned d).toStatement d

/-- The statement of a textual query. -/
def compileText (now : Int) (d : Dialect) (s : Surroundings) (text : String) :
    Except QueryError Sql.Statement := do
  (← Query.ofText now text).compile d s

/-- The statement of a fluent query. -/
def compileFluent (now : Int) (d : Dialect) (s : Surroundings) (q : FluentQuery) :
    Except QueryError Sql.Statement := do
  (← Query.ofFluent now q).compile d s

end ArtifactQuery
