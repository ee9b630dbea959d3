import ArtifactQuery.QueryError

/-!
# Drafts

A draft is a query while its clauses are being written. Connectives are put between operands by the
draft itself: the innermost open clause decides which.

* `Draft.addCriterion`, `Draft.openClause`, `Draft.closeClause`: the steps that write the condition.
  A clause closed while empty leaves nothing behind.
* `Draft.newId`, `Draft.sharedId?`: the numbers that occurrences of joined tables get.
* `Query.checkElements`: the elements of a query form a condition on its domain.
* `Draft.finish`: the query, if all clauses are closed and its elements form a condition.
-/

namespace ArtifactQuery

/-- A clause that is still open. -/
inductive OpenClause
  | and
  | or
  /-- Criteria inside read the property table under one number. -/
  | sameProperty (id : Nat)
  deriving DecidableEq, Repr

namespace OpenClause

/-- What joins two operands of the clause. -/
def joiner : OpenClause → Element
  | or => .or
  | and | sameProperty _ => .and

/-- The number shared by the criteria of the clause. -/
def id? : OpenClause → Option Nat
  | sameProperty n => some n
  | _ => none

end OpenClause

/-- A query being written. -/
structure Draft where
  query : Query
  /-- The open clauses, the innermost first. -/
  clauses : List OpenClause := []
  /-- The number that the next joined occurrence gets. For its bound see `idCount`. -/
  nextId : Nat := firstDynamicId
  deriving DecidableEq, Repr

namespace Draft

/-- An empty draft on a domain. -/
def start (d : Domain) : Draft := { query := { domain := d } }

/-- Puts an element behind the others. -/
def put (s : Draft) (e : Element) : Draft :=
  { s with query := { s.query with elements := s.query.elements ++ [e] } }

/-- Sets the number of rows skipped. -/
def setOffset (s : Draft) (n : Int) : Except QueryError Draft :=
  if n < 0 then .error (.invalidValue (.negativeOffset n))
  else .ok { s with query := { s.query with offset := n } }

/-- Sets the number of rows returned at most. -/
def setLimit (s : Draft) (n : Int) : Except QueryError Draft :=
  if n < 0 then .error (.invalidValue (.negativeLimit n))
  else .ok { s with query := { s.query with limit := n } }

/-- Sets the order, by fields that the query returns. -/
def setSort (s : Draft) (o : Sorting) : Except QueryError Draft :=
  if o.fields.isEmpty then .error (.invalidSort .noFields)
  else match o.fields.find? (· ∉ s.query.resultFields) with
    | some f => .error (.invalidSort (.notReturned f.field))
    | none => .ok { s with query := { s.query with sort := some o } }

/-- A number that no joined occurrence has yet. -/
def newId (s : Draft) : Nat × Draft := (s.nextId, { s with nextId := s.nextId + 1 })

/-- The number shared inside the innermost clause on one property. -/
def sharedId? (s : Draft) : Option Nat := s.clauses.findSome? OpenClause.id?

/-- What joins the next operand to the one before it. -/
def joiner (s : Draft) : Element := (s.clauses.head?.map OpenClause.joiner).getD .and

/-- Puts a connective if an operand has just ended. -/
def putJoiner (s : Draft) : Draft :=
  if s.query.elements.getLast?.any Element.endsOperand then s.put s.joiner else s

/-- Adds a criterion to the innermost clause. -/
def addCriterion (s : Draft) (c : Criterion) : Draft := s.putJoiner.put (.criterion c)

/-- Enters a clause. -/
def push (s : Draft) (c : OpenClause) : Draft := { s with clauses := c :: s.clauses }

/-- Opens a clause in the innermost one. -/
def openClause (s : Draft) (c : Connective) : Draft :=
  let s := s.putJoiner
  match c with
  | .and => (s.push .and).put .openParen
  | .or => (s.push .or).put .openParen
  | .sameProperty =>
    let (n, s) := s.newId
    (s.push (.sameProperty n)).put .openParen

/-- Elements whose last clause is closed: an empty one goes, with the connective in front of it. -/
def closeLast (es : List Element) : List Element :=
  if es.getLast? = some .openParen then
    if es.dropLast.getLast?.any Element.isConnective then es.dropLast.dropLast else es.dropLast
  else es ++ [.closeParen]

/-- Closes the innermost clause. -/
def closeClause (s : Draft) : Except QueryError Draft :=
  match s.clauses with
  | [] => .error (.malformed .clauseNeverOpened)
  | _ :: outer =>
    let elements := closeLast s.query.elements
    .ok { s with clauses := outer, query := { s.query with elements := elements } }

end Draft

/-- Where a reader of elements stands. -/
structure ElementCheck where
  /-- The parentheses that are open. -/
  depth : Nat := 0
  /-- Whether an operand has to follow. -/
  wantsOperand : Bool := true

namespace ElementCheck

/-- Reads one element of a condition on `d`. -/
def step (d : Domain) (s : ElementCheck) : Element → Except QueryError ElementCheck
  | .criterion c =>
    if ¬ s.wantsOperand then .error (.malformed (.missingOperator c))
    else if c.mainDomain? ≠ some d then .error (.domainMismatch c d)
    else .ok { s with wantsOperand := false }
  | .openParen =>
    if ¬ s.wantsOperand then .error (.malformed .missingOperatorBeforeParen)
    else .ok { s with depth := s.depth + 1 }
  | .closeParen =>
    if s.wantsOperand ∨ s.depth = 0 then .error (.malformed .unexpectedCloseParen)
    else .ok { s with depth := s.depth - 1 }
  | e =>
    if s.wantsOperand then .error (.malformed (.noLeftOperand e))
    else .ok { s with wantsOperand := true }

/-- Reads elements from the front. -/
def run (d : Domain) : ElementCheck → List Element → Except QueryError ElementCheck
  | s, [] => .ok s
  | s, e :: es => do run d (← s.step d e) es

end ElementCheck

/-- The elements of a query are none, or form one condition on its domain. -/
def Query.checkElements (q : Query) : Except QueryError Unit := do
  let s ← ElementCheck.run q.domain {} q.elements
  if s.depth ≠ 0 then .error (.malformed .unbalanced)
  else if s.wantsOperand ∧ q.elements ≠ [] then .error (.malformed .endsWithOperator)
  else .ok ()

/-- The query, once its clauses are closed. -/
def Draft.finish (s : Draft) : Except QueryError Query :=
  if s.clauses ≠ [] then .error (.malformed (.clausesLeftOpen s.clauses.length))
  else s.query.checkElements.map fun _ => s.query

end ArtifactQuery
