import ArtifactQuery.Compilation
import ArtifactQuery.Result.Document
import ArtifactQuery.Settings.Basic

/-!
# The engine

Queries are compiled for the dialect of the settings and run by the host.

* `Engine.build`: an engine, if its settings can be worked with.
* `Engine.fetch`: all rows of a query, at most as many as the settings allow.
* `Engine.start`: the rows of a query, read on demand.
* `Engine.write`: the JSON document of a query without what may not be read.
-/

namespace ArtifactQuery

/-- What queries are run with. -/
structure Engine where
  settings : Settings
  host : Host
  repos : RepoResolver

namespace Engine

/-- An engine with settings that can be worked with. -/
def build (s : Settings) (h : Host) (repos : RepoResolver) : Except RunError Engine := do
  s.check
  return ⟨s, h, repos⟩

/-- What the policies look at. -/
def surroundings (e : Engine) : Surroundings := ⟨e.repos, e.host.readScope, e.settings.trashcan⟩

/-- A result that fails before anything is run. -/
def unrun {α : Type} : Except QueryError α → Except RunError α
  | .ok a => .ok a
  | .error e => .error (.query e)

/-- The statement of a query. -/
def compile (e : Engine) (q : Query) : Except RunError Sql.Statement :=
  unrun (q.compile e.settings.dialect e.surroundings)

/-- The query of a text; spans of time end at `now`. -/
def queryOfText (now : Int) (text : String) : Except RunError Query := unrun (Query.ofText now text)

/-- The query of a fluent query; spans of time end at `now`. -/
def queryOfFluent (now : Int) (q : FluentQuery) : Except RunError Query :=
  unrun (Query.ofFluent now q)

/-- What is known of the result of a statement. -/
def plan (e : Engine) (s : Sql.Statement) : Plan where
  domain := s.domain
  fields := s.columns.map (·.field)
  action := .ofSpec e.settings.dryRunDefault s.action

/-- The query with no more rows than a result at hand holds. -/
def capped (e : Engine) (q : Query) : Query := { q with limit := min q.limit e.settings.eagerLimit }

/-- Compiles and runs a query. -/
def execute (e : Engine) (q : Query) : Hosted (Except RunError (Plan × Cursor)) := do
  match e.compile q with
  | .error err => return .error err
  | .ok s => match ← e.host.executes s.sql s.params with
    | .error err => return .error err
    | .ok c => return .ok (e.plan s, c)

/-- All rows of a query. -/
def fetch (e : Engine) (q : Query) : Hosted (Except RunError EagerResult) := do
  match ← e.execute (e.capped q) with
  | .error err => return .error err
  | .ok (p, c) => return (← EagerResult.fetch e.host p c).1

/-- The rows of a query, to be read on demand. -/
def start (e : Engine) (q : Query) : Hosted (Except RunError LazyResult) := do
  match ← e.execute q with
  | .error err => return .error err
  | .ok (p, c) => return .ok (.start p c)

/-- Writes the document of a query without what may not be read, and returns the number of rows. -/
def write (e : Engine) (q : Query) (k : Sink) : Hosted (Except RunError Nat × Sink) := do
  match ← e.start q with
  | .error err => return (.error err, k)
  | .ok r =>
    let (n, _, k) ← DocumentStream.writeTo e.host { rows := .lazy r, filtered := true } k
    return (n, k)

/-- The document of a query without what may not be read. -/
def document (e : Engine) (q : Query) : Hosted (Except RunError String) := do
  let (n, k) ← e.write q {}
  return n.map fun _ => k.taken

end Engine

end ArtifactQuery
