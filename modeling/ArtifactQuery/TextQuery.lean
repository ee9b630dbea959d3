import ArtifactQuery.Language.Parser
import ArtifactQuery.Resolution

/-!
# Queries from text

The phrases of a textual query are read in several passes: first the domain and the action, then
includes, order, window and action parameters, and last the criteria.

* `Query.ofPhrases`: the query that phrases describe, at an instant.
* `Query.ofText`: the query that a text describes.
-/

namespace ArtifactQuery

namespace Phrase

/-- Domain and action as far as they are known. -/
structure Subject where
  domain : Option Domain := none
  action : Option ActionKind := none

/-- Notes the domain or the action that a phrase names; a later one replaces an earlier. -/
def noteSubject (s : Subject) : Phrase → Except QueryError Subject
  | domain n => match Domain.ofName? n with
    | some d => .ok { s with domain := some d }
    | none => .error (.unknownDomain n)
  | action n => match ActionKind.named? n with
    | some k => .ok { s with action := some k }
    | none => .error (.invalidAction (.unknown n))
  | _ => .ok s

/-- The paths that a phrase includes. -/
def included : Phrase → List String
  | returning ps => ps
  | _ => []

/-- The direction that a signature names. -/
def directionOf (s : String) : Except QueryError Direction :=
  if s = "$asc" then .ok .asc
  else if s = "$desc" then .ok .desc
  else .error (.invalidSort (.unknownDirection s))

/-- Notes the order that a phrase asks for, which may be given once. -/
def noteSort (o : Option (Direction × List String)) :
    Phrase → Except QueryError (Option (Direction × List String))
  | sort d ps =>
    if o.isSome then .error (.invalidSort .givenTwice)
    else (directionOf d).map fun dir => some (dir, ps)
  | _ => .ok o

/-- The offset that a phrase sets. -/
def offset? : Phrase → Option Int
  | offset n => some n
  | _ => none

/-- The limit that a phrase sets. -/
def limit? : Phrase → Option Int
  | limit n => some n
  | _ => none

/-- Adds the action parameter that a phrase gives; keys are collected, other parameters replaced. -/
def noteParameter (a : ActionSpec) : Phrase → ActionSpec
  | dryRun b => { a with dryRun := some b }
  | keys ks => { a with keys := a.keys ++ ks }
  | newValue .null => { a with newValue := none }
  | newValue v => { a with newValue := some v.shown }
  | _ => a

/-- The comparator with a signature. -/
def comparatorOf (signature : String) : Except QueryError Comparator :=
  match Comparator.signed? signature with
  | some c => .ok c
  | none => .error (.unsupportedComparator (.unknown signature))

/-- Writes clauses and criteria into a draft; a field is followed by its comparator and its value.
-/
def writeCriteria (now : Int) (s : Draft) : List Phrase → Except QueryError Draft
  | clauseBegin c :: rest => writeCriteria now (s.openClause c) rest
  | clauseEnd :: rest => do writeCriteria now (← s.closeClause) rest
  | field p :: comparator sig :: value v :: rest => do
    writeCriteria now (← s.addTest now ⟨p, ← comparatorOf sig, v⟩) rest
  | field p :: comparator sig :: _ => do
    let _ ← comparatorOf sig
    .error (.parse (.missingValue p))
  | field p :: _ => .error (.parse (.missingComparator p))
  | _ :: rest => writeCriteria now s rest
  | [] => .ok s

end Phrase

/-- The query that phrases describe; spans of time end at `now`. -/
def Query.ofPhrases (now : Int) (ps : List Phrase) : Except QueryError Query := do
  let subject ← ps.foldlM Phrase.noteSubject {}
  let some d := subject.domain | .error (.parse .missingDomain)
  let sort ← ps.foldlM Phrase.noteSort none
  let s ← (Draft.start d).setWindow (ps.filterMap Phrase.offset?).getLast?
    (ps.filterMap Phrase.limit?).getLast?
  let action := ps.foldl Phrase.noteParameter { kind := subject.action.getD .find }
  let s ← Phrase.writeCriteria now { s with query := { s.query with action := action } } ps
  s.complete ⟨ps.flatMap Phrase.included, sort⟩

/-- The query that a text describes; spans of time end at `now`. -/
def Query.ofText (now : Int) (s : String) : Except QueryError Query := do
  Query.ofPhrases now (← Phrase.ofText s)

end ArtifactQuery
