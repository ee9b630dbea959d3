import ArtifactQuery.Row.Cell
import ArtifactQuery.RunError

/-!
# Cursors

A cursor stands between the rows that the database has returned and those still to come.

* `Cursor.next`: reads the next row. A read may fail; a closed cursor fails always.
* `Cursor.close`: closes the cursor, which may report an error but closes all the same.
* `Cursor.log`: what was asked of the cursor so far.
-/

namespace ArtifactQuery

/-- What is asked of a cursor. -/
inductive CursorCall
  | next
  | close
  deriving DecidableEq, Repr

/-- Rows still to be read. -/
structure Cursor where
  /-- What the coming reads yield; behind them the rows are at an end. -/
  reads : List (Except RunError (List Cell))
  /-- What closing reports. -/
  closing : Option RunError := none
  closed : Bool := false
  log : List CursorCall := []

namespace Cursor

/-- A cursor over rows at hand. -/
def ofRows (rows : List (List Cell)) : Cursor := { reads := rows.map .ok }

/-- Notes a call. -/
def note (c : Cursor) (call : CursorCall) : Cursor := { c with log := c.log ++ [call] }

/-- Reads the next row; at the end there is none. -/
def next (c : Cursor) : Except RunError (Option (List Cell)) × Cursor :=
  let c := c.note .next
  if c.closed then (.error (.execution .cursorClosed), c)
  else match c.reads with
    | [] => (.ok none, c)
    | .ok row :: rest => (.ok (some row), { c with reads := rest })
    | .error e :: rest => (.error e, { c with reads := rest })

/-- Closes the cursor. -/
def close (c : Cursor) : Except RunError Unit × Cursor :=
  let c := { c.note .close with closed := true, reads := [] }
  match c.closing with
  | some e => (.error e, c)
  | none => (.ok (), c)

/-- A read that yields a row leaves fewer of them. -/
theorem next_row_shorter {c d : Cursor} {row : List Cell} (h : c.next = (.ok (some row), d)) :
    d.reads.length < c.reads.length := by
  obtain ⟨reads, closing, closed, log⟩ := c
  cases closed with
  | true => simp [next, note] at h
  | false =>
    match reads with
    | [] => simp [next, note] at h
    | .error _ :: _ => simp [next, note] at h
    | .ok _ :: rest =>
      simp only [next, note, Bool.false_eq_true, if_false, Prod.mk.injEq] at h
      simp [← h.2]

/-- No read adds to those still to come. -/
theorem next_reads_le (c : Cursor) : c.next.2.reads.length ≤ c.reads.length := by
  obtain ⟨reads, closing, closed, log⟩ := c
  cases closed with
  | true => simp [next, note]
  | false =>
    match reads with
    | [] => simp [next, note]
    | .error _ :: _ => simp [next, note]
    | .ok _ :: _ => simp [next, note]

end Cursor

end ArtifactQuery
