import ArtifactQuery.Text.Segments

/-!
# Arguments

* `Arguments`: what a call of the program asks for.
* `Arguments.parse`: reads the arguments from the left. An option is given once, and its value does
  not look like an option unless an equals sign joins them.
* `Arguments.help`: the text that explains the arguments.
-/

namespace ArtifactQuery

/-- What a call of the program asks for. -/
structure Arguments where
  /-- The directory of the settings. -/
  config : String
  /-- The file of the database. -/
  db : String
  /-- Whether rows are read on demand. -/
  lazy : Bool
  /-- The file of the query. -/
  file : Option String
  /-- Whether missing tables are made. -/
  initSchema : Bool
  /-- Whether the statement is shown instead of being run. -/
  explain : Bool
  /-- The query itself. -/
  query : Option String
  deriving DecidableEq, Repr

/-- Why arguments are not taken. -/
inductive Usage
  | help
  | wrong
  deriving DecidableEq, Repr

/-- The options without a value. -/
inductive Flag
  | lazy
  | initSchema
  | explain
  deriving DecidableEq, Repr

/-- The options with a value, a path that is not empty. -/
inductive PathOption
  | config
  | db
  | file
  deriving DecidableEq, Repr

/-- The options and the query that have been read. -/
structure Given where
  flags : List Flag := []
  paths : List (PathOption × String) := []
  query : Option String := none
  deriving DecidableEq, Repr

namespace Given

/-- The flag with a name. -/
def flag? : String → Option Flag
  | "lazy" => some .lazy
  | "init-schema" => some .initSchema
  | "explain" => some .explain
  | _ => none

/-- The option with a name. -/
def option? : String → Option PathOption
  | "config" => some .config
  | "db" => some .db
  | "file" => some .file
  | _ => none

/-- Adds a flag. -/
def addFlag (g : Given) (f : Flag) : Except Usage Given :=
  if f ∈ g.flags then .error .wrong else .ok { g with flags := f :: g.flags }

/-- Adds an option with its value. -/
def addPath (g : Given) (o : PathOption) (value : String) : Except Usage Given :=
  if value = "" ∨ (g.paths.lookup o).isSome then .error .wrong
  else .ok { g with paths := (o, value) :: g.paths }

/-- Adds the query. -/
def addQuery (g : Given) (text : String) : Except Usage Given :=
  if g.query.isSome then .error .wrong else .ok { g with query := some text }

/-- Whether an argument looks like an option. -/
def isOption (arg : String) : Bool := arg.toList.head? = some '-' && 1 < arg.length

/-- Reads arguments. -/
def read (g : Given) : List String → Except Usage Given
  | [] => .ok g
  | arg :: rest =>
    match arg.toList with
    | ['-', '-'] => rest.foldlM addQuery g
    | '-' :: '-' :: cs =>
      let name := String.ofList (cs.takeWhile (· ≠ '='))
      let value := if '=' ∈ cs then some (String.ofList ((cs.dropWhile (· ≠ '=')).drop 1)) else none
      match option? name, value with
      | some o, some v => do read (← g.addPath o v) rest
      | some o, none => match rest with
        | v :: rest => if isOption v then .error .wrong else do read (← g.addPath o v) rest
        | [] => .error .wrong
      | none, some _ => .error .wrong
      | none, none =>
        if name = "help" then .error .help
        else match flag? name with
          | some f => do read (← g.addFlag f) rest
          | none => .error .wrong
    | '-' :: 'h' :: _ => .error .help
    | '-' :: _ :: _ => .error .wrong
    | _ => do read (← g.addQuery arg) rest

end Given

namespace Arguments

/-- Reads the arguments of a call; the database has to be given. -/
def parse (args : List String) : Except Usage Arguments := do
  let g ← Given.read {} args
  match g.paths.lookup .db with
  | none => .error .wrong
  | some db => return {
      config := (g.paths.lookup .config).getD "."
      db := db
      lazy := .lazy ∈ g.flags
      file := g.paths.lookup .file
      initSchema := .initSchema ∈ g.flags
      explain := .explain ∈ g.flags
      query := g.query }

/-- The text that explains the arguments. -/
def help : String :=
  "Run an AQL query against a SQLite artifact database\n\n" ++
  "Usage: aql-query [OPTIONS] --db <DB> [QUERY]\n\n" ++
  "Arguments:\n" ++
  "  [QUERY]  AQL query text, e.g. items.find(\x7b\"repo\":\"libs-release\"\x7d)\n\n" ++
  "Options:\n" ++
  "      --config <CONFIG>  Directory holding aql-engine.toml and an optional .env " ++
    "[default: .]\n" ++
  "      --db <DB>          SQLite database file\n" ++
  "      --lazy             Keep the cursor open and stream rows instead of materializing them\n" ++
  "      --file <FILE>      Read the query from a file\n" ++
  "      --init-schema      Create missing tables before running the query\n" ++
  "      --explain          Print the generated SQL and parameters instead of running " ++
    "the query\n" ++
  "  -h, --help             Print help\n"

end Arguments

end ArtifactQuery
