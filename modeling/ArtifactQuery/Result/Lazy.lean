import ArtifactQuery.Result.Assembly

/-!
# Results read on demand

* `LazyResult.nextEntity`: reads until a merged row is complete.
* `LazyResult.next`: the next row on which the action succeeds. Errors are handed out, and reading
  goes on after them if asked to.
* `LazyResult.close`: closes the cursor, once.
* `LazyResult.inScope`: a use of the result that closes it in any case.
-/

namespace ArtifactQuery

/-- Rows that are read, merged and acted upon when they are asked for. -/
structure LazyResult where
  plan : Plan
  cursor : Cursor
  merger : Merger := {}
  /-- Whether the cursor has reported its end. -/
  exhausted : Bool := false
  closed : Bool := false

namespace LazyResult

/-- The result of running a statement. -/
def start (p : Plan) (c : Cursor) : LazyResult := { plan := p, cursor := c }

/-- An upper bound for the entities still to come. -/
def work (r : LazyResult) : Nat := r.cursor.reads.length + r.merger.pending.toList.length

/-- Hands out the pending row, which is the last. -/
def finish (r : LazyResult) : Option Row × LazyResult :=
  (r.merger.finish.1, { r with merger := r.merger.finish.2, exhausted := true })

/-- Reads until a merged row is complete, or reading fails, or the end is reached. -/
def nextEntity (r : LazyResult) : Option (Except RunError Row) × LazyResult :=
  if r.exhausted then (r.finish.1.map .ok, r.finish.2)
  else match _hc : r.cursor.next with
    | (.error e, c) => (some (.error e), { r with cursor := c })
    | (.ok none, c) =>
      let r := { r with cursor := c }
      (r.finish.1.map .ok, r.finish.2)
    | (.ok (some cells), c) =>
      match r.plan.assemble cells with
      | .error e => (some (.error e), { r with cursor := c })
      | .ok row => match r.merger.push row with
        | (some done, m) => (some (.ok done), { r with cursor := c, merger := m })
        | (none, m) => nextEntity { r with cursor := c, merger := m }
termination_by r.cursor.reads.length
decreasing_by exact Cursor.next_row_shorter _hc

/-- A row that arrives is pending afterwards, alone or merged. -/
theorem pending_push (m : Merger) (row : Row) : (m.push row).2.pending.toList.length = 1 := by
  obtain ⟨_ | p⟩ := m
  · rfl
  · simp only [Merger.push]
    split <;> rfl

/-- Only a pending row is set free. -/
theorem pending_of_push {m : Merger} {row done : Row} (h : (m.push row).1 = some done) :
    m.pending.toList.length = 1 := by
  obtain ⟨_ | p⟩ := m
  · simp [Merger.push] at h
  · rfl

/-- The last row leaves less to come. -/
theorem finish_work {r s : LazyResult} {row : Row}
    (h : (r.finish.1.map Except.ok, r.finish.2) = (some (Except.ok (ε := RunError) row), s)) :
    s.work < r.work := by
  obtain ⟨plan, cursor, ⟨_ | p⟩, exhausted, closed⟩ := r
  · simp [finish, Merger.finish] at h
  · simp only [finish, Merger.finish, Prod.mk.injEq] at h
    simp [work, ← h.2]

/-- An entity that is handed out leaves less to come. -/
theorem nextEntity_work {r s : LazyResult} {row : Row}
    (h : r.nextEntity = (some (.ok row), s)) : s.work < r.work := by
  fun_induction nextEntity r with
  | case1 r _ => exact finish_work h
  | case2 => simp at h
  | case3 r _ c hc r' =>
    have h₁ : s.work < r'.work := finish_work h
    have h₂ := Cursor.next_reads_le r.cursor
    rw [hc] at h₂
    exact Nat.lt_of_lt_of_le h₁ (Nat.add_le_add_right h₂ _)
  | case4 => simp at h
  | case5 r _ cells c hc row' _ done m hm =>
    have h₁ := Cursor.next_row_shorter hc
    have h₂ := pending_push r.merger row'
    have h₃ : r.merger.pending.toList.length = 1 := pending_of_push (congrArg Prod.fst hm)
    rw [hm] at h₂
    simp only [Prod.mk.injEq] at h
    simp only [work, ← h.2, h₂, h₃]
    omega
  | case6 r _ cells c hc row' _ m hm ih =>
    have h₁ := Cursor.next_row_shorter hc
    have h₂ := pending_push r.merger row'
    have h₃ := ih h
    rw [hm] at h₂
    simp only [work, h₂] at h₃ ⊢
    omega

/-- The next row on which the action succeeds, or an error; behind the end and once closed there is
none. -/
def next (h : Host) (r : LazyResult) : Hosted (Option (Except RunError Row) × LazyResult) :=
  if r.closed then return (none, r)
  else match _hr : r.nextEntity with
    | (some (.ok row), r) => do
      match ← r.plan.action.apply h row with
      | .ok row => return (some (.ok row), r)
      | .error _ => next h r
    | (some (.error e), r) => return (some (.error e), r)
    | (none, r) => return (none, r)
termination_by r.work
decreasing_by exact nextEntity_work _hr

/-- A row that is handed out leaves less to come. -/
theorem next_work {h : Host} {r s : LazyResult} {calls calls' : Calls} {row : Row}
    (hn : r.next h calls = ((some (.ok row), s), calls')) : s.work < r.work := by
  fun_induction next h r generalizing calls with
  | case1 => cases hn
  | case2 r _ entity t hr ih =>
    have hw := nextEntity_work hr
    rcases ha : t.plan.action.apply h entity calls with ⟨_ | kept, later⟩
    · simp only [Hosted.bind_apply, ha] at hn
      exact Nat.lt_trans (ih hn) hw
    · simp only [Hosted.bind_apply, ha, Hosted.pure_apply] at hn
      cases hn
      exact hw
  | case3 => cases hn
  | case4 => cases hn

/-- All rows still to come, up to the first error. -/
def rows (h : Host) (r : LazyResult) :
    Hosted (Except RunError (List Row) × LazyResult) := fun calls =>
  match _hn : r.next h calls with
  | ((none, r), calls) => ((.ok [], r), calls)
  | ((some (.error e), r), calls) => ((.error e, r), calls)
  | ((some (.ok row), r), calls) =>
    let ((rest, r), calls) := rows h r calls
    ((rest.map (row :: ·), r), calls)
termination_by r.work
decreasing_by exact next_work _hn

/-- Closes the cursor unless that was done before. -/
def close (r : LazyResult) : Except RunError Unit × LazyResult :=
  if r.closed then (.ok (), r)
  else (r.cursor.close.1, { r with closed := true, merger := {}, cursor := r.cursor.close.2 })

/-- Closing closes. -/
theorem closed_close (r : LazyResult) : r.close.2.closed = true := by
  rw [close]
  split
  · assumption
  · rfl

/-- A closed result hands out nothing and asks nothing. -/
theorem next_of_closed {r : LazyResult} (hr : r.closed = true) (h : Host) (calls : Calls) :
    r.next h calls = ((none, r), calls) := by
  rw [next, if_pos hr]
  rfl

/-- Leaves a result that is not used any more: an open one is closed, and what closing reports is
lost. -/
def drop (r : LazyResult) : LazyResult := r.close.2

/-- Uses a result and closes it. An error of the use goes before one of closing. -/
def inScope {α : Type} (use : LazyResult → Hosted (Except RunError α × LazyResult))
    (r : LazyResult) :
    Hosted (Except RunError α × LazyResult) := do
  let (outcome, r) ← use r
  return (do
    let a ← outcome
    r.close.1
    return a, r.close.2)

end LazyResult

end ArtifactQuery
