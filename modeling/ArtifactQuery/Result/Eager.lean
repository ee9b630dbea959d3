import ArtifactQuery.Result.Assembly

/-!
# Results at hand

* `EagerResult.fetch`: all rows of a cursor, merged and acted upon. The cursor is closed in any
  case, and an error of reading goes before one of closing.
* `EagerResult.next`, `EagerResult.close`: taking the rows one by one, and giving up the rest.
-/

namespace ArtifactQuery

/-- Rows at hand. -/
structure EagerResult where
  domain : Domain
  rows : List Row

/-- Runs the action on a finished row, if there is one: a row on which it fails is left out. -/
def Plan.settle (h : Host) (p : Plan) : Option Row → Hosted (List Row)
  | none => return []
  | some r => do
    match ← p.action.apply h r with
    | .ok r => return [r]
    | .error _ => return []

namespace EagerResult

/-- Reads a cursor to its end or to the first error. -/
def drain (h : Host) (p : Plan) (m : Merger) (c : Cursor) :
    Hosted (Except RunError (List Row) × Cursor) :=
  match _hc : c.next with
  | (.error e, c) => return (.error e, c)
  | (.ok none, c) => return (.ok (← p.settle h m.finish.1), c)
  | (.ok (some cells), c) =>
    match p.assemble cells with
    | .error e => return (.error e, c)
    | .ok r => do
      let done ← p.settle h (m.push r).1
      let (rest, c) ← drain h p (m.push r).2 c
      return (rest.map (done ++ ·), c)
termination_by c.reads.length
decreasing_by exact Cursor.next_row_shorter _hc

/-- All rows of a cursor. -/
def fetch (h : Host) (p : Plan) (c : Cursor) : Hosted (Except RunError EagerResult × Cursor) := do
  let (drained, c) ← drain h p {} c
  let (closed, c) := c.close
  return (do
    let rows ← drained
    closed
    return ⟨p.domain, rows⟩, c)

/-- Takes the first row. -/
def next (r : EagerResult) : Option Row × EagerResult :=
  (r.rows.head?, { r with rows := r.rows.drop 1 })

/-- Gives up the rest. -/
def close (r : EagerResult) : EagerResult := { r with rows := [] }

/-- The rows as a JSON document with their number. -/
def json (r : EagerResult) : Json :=
  .object [("results", .array (r.rows.map Row.json)), ("total", .int r.rows.length)]

end EagerResult

end ArtifactQuery
