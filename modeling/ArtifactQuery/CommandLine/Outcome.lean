import ArtifactQuery.CommandLine.Arguments
import ArtifactQuery.CommandLine.Place
import ArtifactQuery.Engine
import ArtifactQuery.Settings.Loading
import ArtifactQuery.Sql.Listing

/-!
# Runs of the program

A run shows the statement of a query, or runs the query on a database whose tables were just made
and are empty.

* `Outcome.ofCall`: what a call of the program prints, and the code that it ends with.
-/

namespace ArtifactQuery

/-- What a run prints, and the code that it ends with. -/
structure Outcome where
  code : Nat
  output : String := ""
  deriving DecidableEq, Repr

/-- The number of tables at most that the database joins in one statement. -/
def joinLimit : Nat := 64

/-- The number of tables that a statement joins. -/
def joinedTables (sql : String) : Nat := (sql.splitOn " join ").length

/-- A host whose tables are empty. -/
def Host.empty : Host where
  execute _ sql _ :=
    if joinedTables sql ≤ joinLimit then .ok (.ofRows [])
    else .error (.execution (.reported "too many tables in a join"))

namespace Outcome

/-- A run that fails. -/
def failed : Outcome := { code := 1 }

/-- The dialect of a run. The database understands the windows of two dialects; a statement that is
only shown may be in any. -/
def dialect (configured : Dialect) (explain : Bool) : Dialect :=
  if explain ∨ configured = .mysql ∨ configured = .sqlserver then configured else .mysql

/-- The settings of a run. -/
def settings (p : Place) (a : Arguments) : Except RunError Settings :=
  Settings.load
    { document := p.text? (inDirectory a.config "aql-engine.toml")
      envFile := p.text? (inDirectory a.config ".env")
      environment := p.environment }

/-- The query of a run: the argument goes before the file. -/
def query? (p : Place) (a : Arguments) : Option String :=
  match a.query with
  | some q => some q
  | none => a.file.bind p.text?

/-- Whether the database can be used: its file can be opened, and has no other content if tables are
to be made in it. -/
def hasDatabase (p : Place) (a : Arguments) : Bool :=
  p.opens a.db && (!a.initSchema || ((p.text? a.db).getD "").isEmpty)

/-- The rows of a query, read as the arguments say. -/
def rows (e : Engine) (a : Arguments) (q : Query) : Hosted (Except RunError ResultSet) := do
  if a.lazy then return (← e.start q).map .lazy else return (← e.fetch q).map .eager

/-- The document of a query. -/
def document (e : Engine) (a : Arguments) (q : Query) : Hosted (Except RunError String) := do
  match ← rows e a q with
  | .error err => return .error err
  | .ok r => return (← DocumentStream.text e.host { rows := r }).1

/-- The text that a run prints. -/
def text (now : Int) (e : Engine) (a : Arguments) (query : String) : Except RunError String := do
  let q ← Engine.queryOfText now (trim query)
  if a.explain then return (← e.compile q).json.pretty ++ "\n"
  else if ¬ a.initSchema then .error (.execution (.reported "no such table"))
  else return (← (document e a q []).1) ++ "\n"

/-- The outcome of arguments that are understood. -/
def ofArguments (now : Int) (p : Place) (a : Arguments) : Outcome :=
  match settings p a, query? p a with
  | .ok s, some query =>
    if ¬ hasDatabase p a then failed
    else
      let s := { s with dialect := dialect s.dialect a.explain }
      match text now ⟨s, Host.empty, .none⟩ a query with
      | .ok t => { code := 0, output := t }
      | .error _ => failed
  | _, _ => failed

/-- The outcome of a call. -/
def ofCall (now : Int) (p : Place) (args : List String) : Outcome :=
  match Arguments.parse args with
  | .ok a => ofArguments now p a
  | .error .help => { code := 0, output := Arguments.help }
  | .error .wrong => { code := 2 }

end Outcome

end ArtifactQuery
