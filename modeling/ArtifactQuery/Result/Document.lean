import ArtifactQuery.Result.Eager
import ArtifactQuery.Result.Lazy

/-!
# Results as documents

A result is written as the JSON document `{"results":[...],"total":N}` piece by piece, one row at a
time.

* `ResultSet`: the rows of a document, at hand or read on demand.
* `Row.readable`: the part of a row that may be read.
* `DocumentStream.nextChunk`: the next piece: the head, a row, or the foot with the number of rows.
  The rows are closed behind the last one, and when reading fails.
* `DocumentStream.writeTo`: the whole document, written to a sink.
-/

namespace ArtifactQuery

/-- The rows of a document. -/
inductive ResultSet
  | eager (r : EagerResult)
  | lazy (r : LazyResult)

namespace ResultSet

/-- The domain of the rows. -/
def domain : ResultSet → Domain
  | eager r => r.domain
  | lazy r => r.plan.domain

/-- The next row. -/
def next (h : Host) : ResultSet → Hosted (Option (Except RunError Row) × ResultSet)
  | eager r => return (r.next.1.map .ok, eager r.next.2)
  | lazy r => do
    let (row, r) ← r.next h
    return (row, lazy r)

/-- Gives up the rest. -/
def close : ResultSet → Except RunError Unit × ResultSet
  | eager r => (.ok (), eager r.close)
  | lazy r => (r.close.1, lazy r.close.2)

/-- An upper bound for the rows still to come. -/
def work : ResultSet → Nat
  | eager r => r.rows.length
  | lazy r => r.work

/-- A row that is handed out leaves less to come. -/
theorem next_work {h : Host} {r s : ResultSet} {calls calls' : Calls} {row : Row}
    (hn : r.next h calls = ((some (.ok row), s), calls')) : s.work < r.work := by
  cases r with
  | eager r =>
    obtain ⟨d, _ | ⟨first, rest⟩⟩ := r
    · cases hn
    · cases hn
      simp [work, EagerResult.next]
  | lazy r =>
    rcases hr : r.next h calls with ⟨⟨o, t⟩, later⟩
    simp only [next, Hosted.bind_apply, hr, Hosted.pure_apply] at hn
    cases hn
    exact LazyResult.next_work hr

end ResultSet

namespace Row

/-- The rows that may be read: those of items are asked for, all others may. -/
def readableAmong (h : Host) : List Row → Hosted (List Row)
  | [] => return []
  | c :: cs => do
    let ok ← match c.repoPath? with
      | some p => h.asksRead p
      | none => pure true
    let rest ← readableAmong h cs
    return if ok then c :: rest else rest

/-- The part of a row that may be read, if there is one. A row of an item is asked for. Any other
row loses the items next to it that may not be read, and is dropped when it loses all of them. -/
def readable (h : Host) (r : Row) : Hosted (Option Row) := do
  if r.domain = .items then
    match r.repoPath? with
    | some p => return if ← h.asksRead p then some r else none
    | none => return some r
  else
    let kept : Row := { r with children := ← readableAmong h r.children }
    return if r.childrenOf .items ≠ [] ∧ kept.childrenOf .items = [] then none else some kept

end Row

/-- How far a document is written. -/
inductive DocumentState
  | head
  | rows
  | done
  deriving DecidableEq, Repr

/-- A document being written. -/
structure DocumentStream where
  rows : ResultSet
  /-- Whether rows that may not be read are left out. -/
  filtered : Bool := false
  state : DocumentState := .head
  /-- The number of rows written. -/
  total : Nat := 0

namespace DocumentStream

/-- The first piece of a document. -/
def headText : String := "\x7b\"results\":["

/-- The last piece of a document with `n` rows. -/
def footText (n : Nat) : String := "],\"total\":" ++ toString n ++ "\x7d"

/-- The piece of a row behind `n` others. -/
def rowText (n : Nat) (r : Row) : String := (if n = 0 then "" else ",") ++ r.json.compact

/-- The part of a row that is written. -/
def shownPart (h : Host) (s : DocumentStream) (r : Row) : Hosted (Option Row) :=
  if s.filtered then r.readable h else return some r

/-- The piece of the next row that is written, or the foot. -/
def nextRowChunk (h : Host) (s : DocumentStream) :
    Hosted (Except RunError (Option String) × DocumentStream) := fun calls =>
  match _hn : s.rows.next h calls with
  | ((some (.error e), rows), calls) =>
    ((.error e, { s with rows := rows.close.2, state := .done }), calls)
  | ((none, rows), calls) =>
    ((rows.close.1.map fun _ => some (footText s.total),
      { s with rows := rows.close.2, state := .done }), calls)
  | ((some (.ok row), rows), calls) =>
    match s.shownPart h row calls with
    | (some row, calls) =>
      ((.ok (some (rowText s.total row)), { s with rows := rows, total := s.total + 1 }), calls)
    | (none, calls) => nextRowChunk h { s with rows := rows } calls
termination_by s.rows.work
decreasing_by exact ResultSet.next_work _hn

/-- The next piece; behind the foot or an error there is none. -/
def nextChunk (h : Host) (s : DocumentStream) :
    Hosted (Except RunError (Option String) × DocumentStream) :=
  match s.state with
  | .head => return (.ok (some headText), { s with state := .rows })
  | .rows => s.nextRowChunk h
  | .done => return (.ok none, s)

/-- An upper bound for the pieces still to come. -/
def work (s : DocumentStream) : Nat :=
  match s.state with
  | .head => s.rows.work + 2
  | .rows => s.rows.work + 1
  | .done => 0

/-- A row or the foot that is handed out leaves fewer pieces to come. -/
theorem nextRowChunk_work {h : Host} {s t : DocumentStream} {calls calls' : Calls} {chunk : String}
    (hs : s.state = .rows)
    (hn : s.nextRowChunk h calls = ((.ok (some chunk), t), calls')) : t.work < s.work := by
  fun_induction nextRowChunk h s calls with
  | case1 => cases hn
  | case2 s _ rows _ _ =>
    have ht := congrArg (fun r => r.1.2) hn
    simp only at ht
    simp [← ht, work, hs]
  | case3 s _ _ rows _ hr =>
    have hw := ResultSet.next_work hr
    cases hn
    simp [work, hs, hw]
  | case4 s _ _ rows _ hr _ _ ih =>
    have hw := ResultSet.next_work hr
    have hs' := ih hs hn
    simp only [work, hs] at hs' ⊢
    omega

/-- A piece that is handed out leaves fewer to come. -/
theorem nextChunk_work {h : Host} {s t : DocumentStream} {calls calls' : Calls} {chunk : String}
    (hn : s.nextChunk h calls = ((.ok (some chunk), t), calls')) : t.work < s.work := by
  cases hs : s.state with
  | head =>
    simp only [nextChunk, hs, Hosted.pure_apply] at hn
    cases hn
    simp [work, hs]
  | rows =>
    simp only [nextChunk, hs] at hn
    exact nextRowChunk_work hs hn
  | done =>
    simp only [nextChunk, hs, Hosted.pure_apply] at hn
    cases hn

end DocumentStream

/-- What takes the pieces of a document. -/
structure Sink where
  /-- Whether it takes a piece behind what it has taken already. -/
  accepts : String → String → Bool := fun _ _ => true
  /-- Whether all that it has taken arrives. -/
  flushes : String → Bool := fun _ => true
  taken : String := ""

namespace DocumentStream

/-- Writes all pieces still to come, and returns the number of rows. When a piece is not taken the
rows are closed. -/
def writeTo (h : Host) (s : DocumentStream) (k : Sink) :
    Hosted (Except RunError Nat × DocumentStream × Sink) := fun calls =>
  match _hn : s.nextChunk h calls with
  | ((.error e, s), calls) => ((.error e, s, k), calls)
  | ((.ok none, s), calls) =>
    ((if k.flushes k.taken then .ok s.total else .error .output, s, k), calls)
  | ((.ok (some chunk), s), calls) =>
    if k.accepts k.taken chunk then writeTo h s { k with taken := k.taken ++ chunk } calls
    else ((.error .output, { s with rows := s.rows.close.2 }, k), calls)
termination_by s.work
decreasing_by exact nextChunk_work _hn

/-- All pieces still to come as one text. -/
def text (h : Host) (s : DocumentStream) : Hosted (Except RunError String × DocumentStream) := do
  let (n, s, k) ← s.writeTo h {}
  return (n.map fun _ => k.taken, s)

end DocumentStream

end ArtifactQuery
