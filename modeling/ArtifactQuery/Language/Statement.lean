import ArtifactQuery.Value

/-!
# Statements

A textual query as it is written, before any name is resolved, in two forms: a tree, and the flat
sequence of its phrases.

* `Entry`: an entry of a criteria object, a field with its tests or a nested clause.
* `Statement`: domain, action, criteria and the methods called on the query.
* `Phrase`: a piece of the flat form.
* `Statement.phrases`: the flat form of a tree. Several entries of one object are wrapped in an
  `$and` clause; the members of a `$msp` array are not.
-/

namespace ArtifactQuery

/-- An entry of a criteria object. -/
inductive Entry
  /-- `"path": value` -/
  | equals (path : String) (value : Literal)
  /-- `"path": {"$gt": value, ...}` -/
  | compares (path : String) (tests : List (String × Literal))
  /-- `"$or": [{...}, ...]` -/
  | objects (c : Connective) (members : List (List Entry))
  /-- `"$or": {...}` -/
  | object (c : Connective) (entries : List Entry)

/-- A call behind the criteria. -/
inductive Method
  | returning (paths : List String)
  | sort (direction : String) (paths : List String)
  | offset (n : Int)
  | limit (n : Int)
  | dryRun (b : Bool)
  | keys (ks : List String)
  | newValue (v : Literal)
  deriving DecidableEq, Repr

/-- A textual query. -/
structure Statement where
  domain : String
  action : String
  criteria : List Entry
  methods : List Method

/-- A piece of a query in flat form. -/
inductive Phrase
  | domain (name : String)
  | action (name : String)
  | clauseBegin (c : Connective)
  | clauseEnd
  | field (path : String)
  | comparator (signature : String)
  | value (v : Literal)
  | returning (paths : List String)
  | sort (direction : String) (paths : List String)
  | offset (n : Int)
  | limit (n : Int)
  | dryRun (b : Bool)
  | keys (ks : List String)
  | newValue (v : Literal)
  deriving DecidableEq, Repr

/-- The phrase of a method. -/
def Method.phrase : Method → Phrase
  | returning ps => .returning ps
  | sort d ps => .sort d ps
  | offset n => .offset n
  | limit n => .limit n
  | dryRun b => .dryRun b
  | keys ks => .keys ks
  | newValue v => .newValue v

namespace Phrase

/-- A field with one test. -/
def test (path signature : String) (v : Literal) : List Phrase :=
  [.field path, .comparator signature, .value v]

/-- A clause around `ps`. -/
def clause (c : Connective) (ps : List Phrase) : List Phrase := .clauseBegin c :: ps ++ [.clauseEnd]

/-- The phrases of `n` parts that must all hold: a clause if they are several. -/
def allOf (n : Nat) (ps : List Phrase) : List Phrase := if n ≤ 1 then ps else clause .and ps

end Phrase

mutual

/-- The flat form of an entry. -/
def Entry.phrases : Entry → List Phrase
  | .equals p v => Phrase.test p "$eq" v
  | .compares p ts => Phrase.allOf ts.length (ts.flatMap fun t => Phrase.test p t.1 t.2)
  | .objects c ms => Phrase.clause c (Entry.phrasesOfMembers c ms)
  | .object c es => Phrase.clause c (Entry.phrasesOfEntries es)

/-- The flat forms of entries, one after the other. -/
def Entry.phrasesOfEntries : List Entry → List Phrase
  | [] => []
  | e :: es => e.phrases ++ Entry.phrasesOfEntries es

/-- The flat forms of the objects in the array of a clause. -/
def Entry.phrasesOfMembers (c : Connective) : List (List Entry) → List Phrase
  | [] => []
  | m :: ms =>
    (if c = .sameProperty then Entry.phrasesOfEntries m
     else Phrase.allOf m.length (Entry.phrasesOfEntries m)) ++ Entry.phrasesOfMembers c ms

end

/-- The flat form of a textual query. -/
def Statement.phrases (s : Statement) : List Phrase :=
  .domain s.domain :: .action s.action ::
    Phrase.allOf s.criteria.length (Entry.phrasesOfEntries s.criteria) ++
      s.methods.map Method.phrase

end ArtifactQuery
