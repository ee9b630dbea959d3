import ArtifactQuery.Proofs.Outcome
import ArtifactQuery.Result.Eager
import ArtifactQuery.Result.Lazy

/-!
# Merged rows

Reading a cursor yields entities, each merged from consecutive rows. Results at hand and results
read on demand act on the same entities in the same order.

* `Row.entities`: the entities that a list of rows describes.
* `Plan.rows`, `Plan.failure?`: the rows that reads yield, and the error that ends them.
* `LazyResult.entities`, `LazyResult.complete`: the entities that a result has still to hand out,
  and those of them that are complete before reading fails.
* `Plan.settleAll`: the action run on entities one after the other.
* `next_cases`, `drain_eq`: one pull, and reading everything, in terms of these entities.
* `fetch_agrees`: both ways of reading agree.
-/

namespace ArtifactQuery

/-! ## Entities -/

namespace Row

/-- The entities that rows describe: the first row takes in the rows of its entity that follow it,
and then come the entities of the rest. -/
def entities : List Row → List Row
  | [] => []
  | r :: rs => (rs.takeWhile r.sameEntity).foldl merge r :: entities (rs.dropWhile r.sameEntity)
termination_by rs => rs.length
decreasing_by exact Nat.lt_succ_of_le (List.dropWhile_suffix _).length_le

/-- A row stays one of its entity when others are merged into it. -/
theorem sameEntity_merge (r s : Row) : (r.merge s).sameEntity = r.sameEntity := by
  cases s
  rfl

@[simp] theorem entities_nil : entities [] = [] := by
  rw [entities]

@[simp] theorem entities_singleton (r : Row) : entities [r] = [r] := by
  rw [entities]
  simp

theorem entities_cons_ne_nil (r : Row) (rs : List Row) : entities (r :: rs) ≠ [] := by
  rw [entities]
  exact List.cons_ne_nil _ _

theorem entities_of_same {r s : Row} (h : r.sameEntity s = true) (rs : List Row) :
    entities (r :: s :: rs) = entities (r.merge s :: rs) := by
  rw [entities, entities, List.takeWhile_cons_of_pos h, List.dropWhile_cons_of_pos h,
    sameEntity_merge]
  rfl

theorem entities_of_other {r s : Row} (h : ¬ r.sameEntity s = true) (rs : List Row) :
    entities (r :: s :: rs) = r :: entities (s :: rs) := by
  rw [entities, List.takeWhile_cons_of_neg h, List.dropWhile_cons_of_neg h]
  rfl

end Row

namespace Merger

/-- A row that arrives sets the entity in front of it free, or becomes part of it. -/
theorem entities_push (m : Merger) (r : Row) (rs : List Row) :
    Row.entities (m.pending.toList ++ r :: rs) =
      (m.push r).1.toList ++ Row.entities ((m.push r).2.pending.toList ++ rs) := by
  obtain ⟨_ | p⟩ := m
  · rfl
  · rw [push]
    dsimp only
    split
    · rename_i h
      exact Row.entities_of_same h rs
    · rename_i h
      exact Row.entities_of_other h rs

theorem pending_push_ne_none (m : Merger) (r : Row) : (m.push r).2.pending.toList ≠ [] := by
  intro hnil
  have hlength := LazyResult.pending_push m r
  rw [hnil] at hlength
  cases hlength

end Merger

/-! ## Reading -/

namespace Cursor

/-- An open cursor hands out its reads one after the other, and stays open. -/
theorem next_cases {c d : Cursor} {o : Except RunError (Option (List Cell))}
    (hopen : c.closed = false) (h : c.next = (o, d)) : d.closed = false ∧
      ((c.reads = [] ∧ o = .ok none ∧ d.reads = []) ∨
        ∃ read, c.reads = read :: d.reads ∧ o = read.map some) := by
  obtain ⟨reads, closing, closed, log⟩ := c
  cases hopen
  match reads with
  | [] =>
    cases h
    exact ⟨rfl, .inl ⟨rfl, rfl, rfl⟩⟩
  | .ok row :: rest =>
    cases h
    exact ⟨rfl, .inr ⟨_, rfl, rfl⟩⟩
  | .error e :: rest =>
    cases h
    exact ⟨rfl, .inr ⟨_, rfl, rfl⟩⟩

variable {c d : Cursor}

theorem close_of_closing (h : c.closing = d.closing) : c.close.1 = d.close.1 := by
  obtain ⟨reads, _ | e, closed, log⟩ := c
  · cases d
    cases h
    rfl
  · cases d
    cases h
    rfl

/-- No read changes what closing reports. -/
theorem closing_of_next {o : Except RunError (Option (List Cell))} (h : c.next = (o, d)) :
    d.closing = c.closing := by
  obtain ⟨reads, closing, _ | _, log⟩ := c
  · match reads with
    | [] | .ok _ :: _ | .error _ :: _ =>
      cases h
      rfl
  · cases h
    rfl

theorem next_eq_end (hopen : c.closed = false) (h : c.next = (.ok none, d)) :
    d.closed = false ∧ c.reads = [] ∧ d.reads = [] := by
  obtain ⟨hd, ⟨hc, -, hreads⟩ | ⟨_ | _, -, hread⟩⟩ := next_cases hopen h
  · exact ⟨hd, hc, hreads⟩
  · cases hread
  · cases hread

theorem next_eq_row {cells : List Cell} (hopen : c.closed = false)
    (h : c.next = (.ok (some cells), d)) : d.closed = false ∧ c.reads = .ok cells :: d.reads := by
  obtain ⟨hd, ⟨-, hnone, -⟩ | ⟨_ | _, hc, hread⟩⟩ := next_cases hopen h
  · cases hnone
  · cases hread
  · cases hread
    exact ⟨hd, hc⟩

theorem next_eq_error {e : RunError} (hopen : c.closed = false) (h : c.next = (.error e, d)) :
    d.closed = false ∧ c.reads = .error e :: d.reads := by
  obtain ⟨hd, ⟨-, hnone, -⟩ | ⟨_ | _, hc, hread⟩⟩ := next_cases hopen h
  · cases hnone
  · cases hread
    exact ⟨hd, hc⟩
  · cases hread

end Cursor

namespace Plan

/-- The row of one read, or why there is none. -/
def row (p : Plan) (read : Except RunError (List Cell)) : Except RunError Row :=
  read.bind p.assemble

/-- The rows of reads; those that fail, or yield too few cells, are passed over. -/
def rows (p : Plan) (reads : List (Except RunError (List Cell))) : List Row :=
  reads.filterMap fun read => (p.row read).toOption

/-- The rows in front of the first failure. -/
def rowsAhead (p : Plan) : List (Except RunError (List Cell)) → List Row
  | [] => []
  | read :: reads => match p.row read with
    | .ok r => r :: p.rowsAhead reads
    | .error _ => []

/-- The first failure. -/
def failure? (p : Plan) : List (Except RunError (List Cell)) → Option RunError
  | [] => none
  | read :: reads => match p.row read with
    | .ok _ => p.failure? reads
    | .error e => some e

/-- Of the entities of some rows, those that are complete. Where reading fails, more rows of the
last one might have come. -/
def upTo : Option RunError → List Row → List Row
  | none, es => es
  | some _, es => es.dropLast

theorem upTo_append (failure : Option RunError) (es : List Row) {es' : List Row} (h : es' ≠ []) :
    upTo failure (es ++ es') = es ++ upTo failure es' := by
  cases failure with
  | none => rfl
  | some e => exact List.dropLast_append_of_ne_nil h

section Rows

variable {p : Plan} {read : Except RunError (List Cell)} {r : Row} {e : RunError}

theorem rows_of_ok (h : p.row read = .ok r) (reads : List (Except RunError (List Cell))) :
    p.rows (read :: reads) = r :: p.rows reads ∧
      p.rowsAhead (read :: reads) = r :: p.rowsAhead reads ∧
      p.failure? (read :: reads) = p.failure? reads := by
  rw [rows, List.filterMap_cons, rowsAhead, failure?, h]
  exact ⟨rfl, rfl, rfl⟩

theorem rows_of_error (h : p.row read = .error e) (reads : List (Except RunError (List Cell))) :
    p.rows (read :: reads) = p.rows reads ∧ p.rowsAhead (read :: reads) = [] ∧
      p.failure? (read :: reads) = some e := by
  rw [rows, List.filterMap_cons, rowsAhead, failure?, h]
  exact ⟨rfl, rfl, rfl⟩

theorem rows_of_no_failure : ∀ {reads : List (Except RunError (List Cell))},
    p.failure? reads = none → p.rowsAhead reads = p.rows reads
  | [], _ => rfl
  | read :: reads, h => by
    cases hrow : p.row read with
    | ok r =>
      obtain ⟨hrows, hahead, hfails⟩ := rows_of_ok hrow reads
      rw [hrows, hahead, rows_of_no_failure (hfails ▸ h)]
    | error e =>
      obtain ⟨-, -, hfails⟩ := rows_of_error hrow reads
      cases hfails.symm.trans h

end Rows

/-! ## Acting on entities -/

/-- Runs the action on entities one after the other. Those on which it fails are left out. -/
def settleAll (h : Host) (p : Plan) : List Row → Hosted (List Row)
  | [] => return []
  | r :: rs => do
    let kept ← p.settle h (some r)
    let rest ← settleAll h p rs
    return kept ++ rest

variable {h : Host} {p : Plan} {calls : Calls} {rs rs' kept kept' : List Row} {mid final : Calls}

theorem settleAll_append (hfirst : p.settleAll h rs calls = (kept, mid))
    (hrest : p.settleAll h rs' mid = (kept', final)) :
    p.settleAll h (rs ++ rs') calls = (kept ++ kept', final) := by
  induction rs generalizing calls kept with
  | nil =>
    cases hfirst
    exact hrest
  | cons r rs ih =>
    rcases hone : p.settle h (some r) calls with ⟨first, next⟩
    rcases htail : p.settleAll h rs next with ⟨more, mid'⟩
    simp only [settleAll, Hosted.bind_apply, Hosted.pure_apply, hone, htail] at hfirst
    cases hfirst
    simp only [List.cons_append, settleAll, Hosted.bind_apply, Hosted.pure_apply, hone, ih htail,
      List.append_assoc]

theorem settleAll_toList (o : Option Row) (calls : Calls) :
    p.settleAll h o.toList calls = p.settle h o calls := by
  cases o with
  | none => rfl
  | some r =>
    rcases hone : p.settle h (some r) calls with ⟨first, next⟩
    simp only [Option.toList, settleAll, Hosted.bind_apply, Hosted.pure_apply, hone,
      List.append_nil]

theorem settle_of_ok {r : Row} (hr : p.action.apply h r calls = (.ok r, mid)) :
    p.settleAll h [r] calls = ([r], mid) := by
  rw [← Option.toList_some, settleAll_toList, settle, Hosted.bind_apply, hr]
  rfl

theorem settle_of_error {r : Row} {f : ActionFailure}
    (hr : p.action.apply h r calls = (.error f, mid)) : p.settleAll h [r] calls = ([], mid) := by
  rw [← Option.toList_some, settleAll_toList, settle, Hosted.bind_apply, hr]
  rfl

end Plan

/-- An action hands out the row that it was given. -/
theorem Action.eq_of_apply {h : Host} {a : Action} {r s : Row} {calls mid : Calls}
    (hs : a.apply h r calls = (.ok s, mid)) : s = r := by
  rcases hrun : a.run h r calls with ⟨_ | ⟨⟨⟩⟩, next⟩
  · simp only [apply, Hosted.bind_apply, Hosted.pure_apply, hrun] at hs
    cases hs
  · simp only [apply, Hosted.bind_apply, Hosted.pure_apply, hrun] at hs
    cases hs
    rfl

/-! ## Results read on demand -/

namespace LazyResult

/-- The entities that are still to come. The pending row is the beginning of the first. -/
def entities (r : LazyResult) : List Row :=
  Row.entities (r.merger.pending.toList ++ r.plan.rows r.cursor.reads)

/-- The first error that the coming reads end in, if there is one. -/
def failure? (r : LazyResult) : Option RunError := r.plan.failure? r.cursor.reads

/-- The entities that are complete before reading fails for the first time. -/
def complete (r : LazyResult) : List Row :=
  Plan.upTo r.failure? (Row.entities (r.merger.pending.toList ++ r.plan.rowsAhead r.cursor.reads))

/-- Whether neither the result nor its cursor is closed, and nothing is to be read any more once the
end has been reported. -/
structure Running (r : LazyResult) : Prop where
  notClosed : r.closed = false
  cursorOpen : r.cursor.closed = false
  atEnd : r.exhausted = true → r.cursor.reads = []

/-- Whether a result has left some entities behind and is otherwise as before. -/
structure Past (r : LazyResult) (es : List Row) (s : LazyResult) : Prop where
  running : s.Running
  plan : s.plan = r.plan
  entities : r.entities = es ++ s.entities

/-- Whether a result has left some entities behind without meeting a failure. -/
structure Onward (r : LazyResult) (es : List Row) (s : LazyResult) : Prop extends r.Past es s where
  complete : r.complete = es ++ s.complete
  failure : s.failure? = r.failure?

variable {r s t : LazyResult} {es es' : List Row}

theorem Past.trans (h : r.Past es s) (h' : s.Past es' t) : r.Past (es ++ es') t where
  running := h'.running
  plan := h'.plan.trans h.plan
  entities := by rw [h.entities, h'.entities, List.append_assoc]

theorem Onward.trans (h : r.Onward es s) (h' : s.Onward es' t) : r.Onward (es ++ es') t where
  toPast := h.toPast.trans h'.toPast
  complete := by rw [h.complete, h'.complete, List.append_assoc]
  failure := h'.failure.trans h.failure

theorem Onward.refl (hr : r.Running) : r.Onward [] r := ⟨⟨hr, rfl, rfl⟩, rfl, rfl⟩

/-! ### Single reads -/

/-- Where nothing is left to be read, the pending row is the last entity. -/
theorem entities_of_end (hreads : r.cursor.reads = []) : r.failure? = none ∧
    r.complete = r.merger.pending.toList ∧ r.entities = r.merger.pending.toList := by
  have hpending : Row.entities r.merger.pending.toList = r.merger.pending.toList := by
    cases r.merger.pending with
    | none => exact Row.entities_nil
    | some p => exact Row.entities_singleton p
  have hfailure : r.failure? = none := by
    rw [failure?, hreads]
    rfl
  refine ⟨hfailure, ?_, ?_⟩
  · rw [complete, hfailure, hreads, Plan.rowsAhead, List.append_nil, Plan.upTo, hpending]
  · rw [entities, hreads, Plan.rows, List.filterMap_nil, List.append_nil, hpending]

theorem finish_cases (hr : r.Running) (hreads : r.cursor.reads = []) :
    (∃ x s, r.finish = (some x, s) ∧ r.Onward [x] s) ∨
      ∃ s, r.finish = (none, s) ∧ r.failure? = none ∧ r.complete = [] ∧ r.Past [] s := by
  obtain ⟨hfailure, hcomplete, hentities⟩ := entities_of_end hreads
  have hdone : r.finish.2.Running := ⟨hr.notClosed, hr.cursorOpen, fun _ => hreads⟩
  obtain ⟨hfailure', hcomplete', hentities'⟩ := entities_of_end (r := r.finish.2) hreads
  rcases hpending : r.merger.pending with _ | x
  · rw [hpending] at hcomplete hentities
    refine .inr ⟨r.finish.2, ?_, hfailure, hcomplete, hdone, rfl, ?_⟩
    · rw [finish, Merger.finish, hpending]
    · rw [hentities, hentities']
      rfl
  · rw [hpending] at hcomplete hentities
    refine .inl ⟨x, r.finish.2, ?_, ⟨hdone, rfl, ?_⟩, ?_, hfailure'.trans hfailure.symm⟩
    · rw [finish, Merger.finish, hpending]
    · rw [hentities, hentities']
      rfl
    · rw [hcomplete, hcomplete']
      rfl

/-- Reading the end changes nothing of what is to come. -/
theorem onward_end (hr : r.Running) {c : Cursor} (hnext : r.cursor.next = (.ok none, c)) :
    c.reads = [] ∧ r.Onward [] { r with cursor := c } := by
  obtain ⟨hopen, hreads, hend⟩ := Cursor.next_eq_end hr.cursorOpen hnext
  have hsame : r.cursor.reads = c.reads := hreads.trans hend.symm
  refine ⟨hend, ⟨⟨hr.notClosed, hopen, fun _ => hend⟩, rfl, ?_⟩, ?_, ?_⟩
  · rw [entities, hsame]
    rfl
  · rw [complete, failure?, hsame]
    rfl
  · rw [failure?, failure?, hsame]

/-- A read that yields a row sets the entity in front of it free, or the row becomes part of it. -/
theorem onward_push (hr : r.Running) {c : Cursor} {cells : List Cell} {row : Row}
    (hnext : r.cursor.next = (.ok (some cells), c)) (hrow : r.plan.assemble cells = .ok row) :
    r.Onward (r.merger.push row).1.toList
      { r with cursor := c, merger := (r.merger.push row).2 } := by
  obtain ⟨hopen, hreads⟩ := Cursor.next_eq_row hr.cursorOpen hnext
  have hread : r.plan.row (.ok cells) = .ok row := hrow
  obtain ⟨hrows, hahead, hfails⟩ := Plan.rows_of_ok hread c.reads
  have hfailure : r.failure? = r.plan.failure? c.reads := by
    rw [failure?, hreads, hfails]
  have hne :
      Row.entities ((r.merger.push row).2.pending.toList ++ r.plan.rowsAhead c.reads) ≠ [] := by
    obtain ⟨first, rest, hfirst⟩ :=
      List.exists_cons_of_ne_nil (r.merger.pending_push_ne_none row)
    rw [hfirst, List.cons_append]
    exact Row.entities_cons_ne_nil _ _
  refine ⟨⟨⟨hr.notClosed, hopen, fun hend => ?_⟩, rfl, ?_⟩, ?_, hfailure.symm⟩
  · have hnil := hr.atEnd hend
    rw [hreads] at hnil
    cases hnil
  · rw [entities, hreads, hrows, Merger.entities_push]
    rfl
  · rw [complete, hfailure, hreads, hahead, Merger.entities_push, Plan.upTo_append _ _ hne]
    rfl

/-- A read that fails leaves the pending row as it is. -/
theorem past_failure (hr : r.Running) {c : Cursor} (hopen : c.closed = false)
    {read : Except RunError (List Cell)} (hreads : r.cursor.reads = read :: c.reads) {e : RunError}
    (hread : r.plan.row read = .error e) :
    r.failure? = some e ∧ r.complete = [] ∧ r.Past [] { r with cursor := c } := by
  obtain ⟨hrows, hahead, hfails⟩ := Plan.rows_of_error hread c.reads
  have hfailure : r.failure? = some e := by
    rw [failure?, hreads, hfails]
  -- Only the pending row is left in front of the failure, and it is not complete without the rows
  -- behind.
  refine ⟨hfailure, ?_, ⟨hr.notClosed, hopen, fun hend => ?_⟩, rfl, ?_⟩
  · rw [complete, hfailure, Plan.upTo, hreads, hahead, List.append_nil]
    cases r.merger.pending with
    | none => rw [Option.toList, Row.entities_nil, List.dropLast_nil]
    | some p => rw [Option.toList, Row.entities_singleton, List.dropLast_singleton]
  · have hnil := hr.atEnd hend
    rw [hreads] at hnil
    cases hnil
  · rw [entities, hreads, hrows]
    rfl

/-! ### Pulls -/

/-- The entity handed out next is the first one that is complete. If none is, reading fails or is at
its end. -/
theorem nextEntity_cases (hr : r.Running) :
    (∃ x s, r.nextEntity = (some (.ok x), s) ∧ r.Onward [x] s) ∨
      ∃ s, r.nextEntity = (r.failure?.map .error, s) ∧ r.complete = [] ∧ r.Past [] s := by
  -- The cases are those of reading on: the result is at its end, the cursor fails, it ends, its row
  -- cannot be put together, or the row is pushed. Only in the last case can reading go on, where
  -- the pushed row joins the pending one.
  fun_induction nextEntity r with
  | case1 r hend =>
    rcases finish_cases hr (hr.atEnd hend) with
      ⟨x, s, hx, hon⟩ | ⟨s, hs, hfailure, hcomplete, hpast⟩
    · exact .inl ⟨x, s, by rw [hx]; rfl, hon⟩
    · exact .inr ⟨s, by rw [hs, hfailure]; rfl, hcomplete, hpast⟩
  | case2 r _ e c hc =>
    obtain ⟨hopen, hreads⟩ := Cursor.next_eq_error hr.cursorOpen hc
    obtain ⟨hfailure, hcomplete, hpast⟩ := past_failure hr hopen hreads rfl
    exact .inr ⟨_, by rw [hfailure]; rfl, hcomplete, hpast⟩
  | case3 r _ c hc r' =>
    obtain ⟨hend, hon⟩ : c.reads = [] ∧ r.Onward [] r' := onward_end hr hc
    rcases finish_cases hon.running hend with
      ⟨x, s, hx, hlast⟩ | ⟨s, hs, hfailure, hcomplete, hpast⟩
    · exact .inl ⟨x, s, by rw [hx]; rfl, hon.trans hlast⟩
    · refine .inr ⟨s, ?_, ?_, hon.toPast.trans hpast⟩
      · rw [hs, ← hon.failure, hfailure]
        rfl
      · rw [hon.complete, hcomplete, List.append_nil]
  | case4 r _ cells c hc e he =>
    obtain ⟨hopen, hreads⟩ := Cursor.next_eq_row hr.cursorOpen hc
    obtain ⟨hfailure, hcomplete, hpast⟩ := past_failure hr hopen hreads he
    exact .inr ⟨_, by rw [hfailure]; rfl, hcomplete, hpast⟩
  | case5 r _ cells c hc row hrow done m hm =>
    have hon := onward_push hr hc hrow
    rw [hm] at hon
    exact .inl ⟨done, _, rfl, hon⟩
  | case6 r _ cells c hc row hrow m hm ih =>
    have hon := onward_push hr hc hrow
    rw [hm] at hon
    rcases ih hon.running with ⟨x, s, hx, hmore⟩ | ⟨s, hs, hcomplete, hpast⟩
    · exact .inl ⟨x, s, hx, hon.trans hmore⟩
    · refine .inr ⟨s, ?_, ?_, hon.toPast.trans hpast⟩
      · rw [hs, hon.failure]
      · rw [hon.complete, hcomplete]
        rfl

/-- One pull acts on entities, up to the first on which the action succeeds. If it fails on all that
are complete, the pull ends in the error of reading or hands out nothing. -/
theorem next_cases {h : Host} (hr : r.Running) (calls : Calls) :
    (∃ acted x s mid, r.next h calls = ((some (.ok x), s), mid) ∧ r.Onward acted s ∧
      acted.getLast? = some x ∧ r.plan.settleAll h acted calls = ([x], mid)) ∨
    ∃ s mid, r.next h calls = ((r.failure?.map .error, s), mid) ∧ r.Past r.complete s ∧
      r.plan.settleAll h r.complete calls = ([], mid) := by
  -- Each round asks for one entity and runs the action on it. A failing action goes on to the next
  -- entity, which is where the induction is used.
  fun_induction next h r generalizing calls with
  | case1 r hclosed => exact absurd hclosed (by rw [hr.notClosed]; exact Bool.false_ne_true)
  | case2 r _ x t ht ih =>
    obtain ⟨y, s, hs, hon⟩ | ⟨s, hs, -⟩ := nextEntity_cases hr
    · cases ht.symm.trans hs
      rcases hact : t.plan.action.apply h x calls with ⟨f | kept, mid⟩
      · have hfails : t.plan.settleAll h [x] calls = ([], mid) := Plan.settle_of_error hact
        simp only [Hosted.bind_apply, hact]
        rcases ih hon.running mid with
          ⟨acted, y, s, final, hnext, hmore, hlast, hsettle⟩ | ⟨s, final, hnext, hpast, hsettle⟩
        · refine .inl ⟨x :: acted, y, s, final, hnext, hon.trans hmore, ?_, ?_⟩
          · rw [List.getLast?_cons, hlast]
            rfl
          · rw [← hon.plan]
            exact Plan.settleAll_append hfails hsettle
        · refine .inr ⟨s, final, ?_, ?_, ?_⟩
          · rw [hnext, hon.failure]
          · rw [hon.complete]
            exact hon.toPast.trans hpast
          · rw [hon.complete, ← hon.plan]
            exact Plan.settleAll_append hfails hsettle
      · cases Action.eq_of_apply hact
        simp only [Hosted.bind_apply, hact, Hosted.pure_apply]
        refine .inl ⟨[x], x, t, mid, rfl, hon, rfl, ?_⟩
        rw [← hon.plan]
        exact Plan.settle_of_ok hact
    · obtain ⟨hanswer, -⟩ := Prod.mk.inj (ht.symm.trans hs)
      cases hfailure : r.failure? <;> rw [hfailure] at hanswer <;> cases hanswer
  | case3 r _ e t ht =>
    obtain ⟨y, s, hs, -⟩ | ⟨s, hs, hcomplete, hpast⟩ := nextEntity_cases hr
    · cases ht.symm.trans hs
    · obtain ⟨hanswer, rfl⟩ := Prod.mk.inj (ht.symm.trans hs)
      rw [hcomplete, ← hanswer]
      exact .inr ⟨t, calls, rfl, hpast, rfl⟩
  | case4 r _ t ht =>
    obtain ⟨y, s, hs, -⟩ | ⟨s, hs, hcomplete, hpast⟩ := nextEntity_cases hr
    · cases ht.symm.trans hs
    · obtain ⟨hanswer, rfl⟩ := Prod.mk.inj (ht.symm.trans hs)
      rw [hcomplete, ← hanswer]
      exact .inr ⟨t, calls, rfl, hpast, rfl⟩

variable {h : Host} {calls mid final : Calls}

/-- The rows among answers. -/
def rowsOf (answers : List (Except RunError Row)) : List Row := answers.filterMap Except.toOption

/-- A pull acts on entities, and if it hands out a row, that is the last of them. -/
theorem past_of_next (hr : r.Running) {answer : Except RunError Row}
    (hn : r.next h calls = ((some answer, s), mid)) : ∃ acted, r.Past acted s ∧
      r.plan.settleAll h acted calls = (rowsOf [answer], mid) ∧
      ∀ x, answer = .ok x → r.Onward acted s ∧ acted.getLast? = some x := by
  rcases next_cases (h := h) hr calls with
    ⟨acted, x, s', mid', hnext, hon, hlast, hsettle⟩ | ⟨s', mid', hnext, hpast, hsettle⟩
  · cases hnext.symm.trans hn
    refine ⟨acted, hon.toPast, hsettle, fun y hy => ?_⟩
    cases hy
    exact ⟨hon, hlast⟩
  · cases hfailure : r.failure? with
    | none =>
      rw [hfailure] at hnext
      cases hnext.symm.trans hn
    | some e =>
      rw [hfailure] at hnext
      cases hnext.symm.trans hn
      exact ⟨r.complete, hpast, hsettle, fun y hy => by cases hy⟩

/-- The answers to pulls one after the other, and the calls that they make. -/
inductive Pulls (h : Host) (r : LazyResult) (calls : Calls) :
    List (Except RunError Row) → LazyResult → Calls → Prop
  | nothing : Pulls h r calls [] r calls
  | pull {s t : LazyResult} {mid final : Calls} {answer : Except RunError Row}
      {answers : List (Except RunError Row)} (hp : Pulls h r calls answers s mid)
      (hn : s.next h mid = ((some answer, t), final)) :
      Pulls h r calls (answers ++ [answer]) t final

/-- Pulls act on the entities in front of those still to come. If the last answer is a row, it is
the last of them. -/
theorem Pulls.past {answers : List (Except RunError Row)} (hp : r.Pulls h calls answers s final)
    (hr : r.Running) : ∃ acted, r.Past acted s ∧
      r.plan.settleAll h acted calls = (rowsOf answers, final) ∧
      (∀ x, answers.getLast? = some (.ok x) → acted.getLast? = some x) ∧
      ((∀ e, .error e ∉ answers) → r.Onward acted s) := by
  induction hp with
  | nothing =>
    exact ⟨[], (Onward.refl hr).toPast, rfl, fun x hx => (by cases hx), fun _ => Onward.refl hr⟩
  | @pull s t mid final answer answers _ hn ih =>
    obtain ⟨acted, hpast, hsettle, -, hon⟩ := ih
    obtain ⟨more, hmore, hsettle', hrow⟩ := past_of_next hpast.running hn
    rw [hpast.plan] at hsettle'
    refine ⟨acted ++ more, hpast.trans hmore, ?_, fun x hx => ?_, fun hok => ?_⟩
    · rw [rowsOf, List.filterMap_append]
      exact Plan.settleAll_append hsettle hsettle'
    · rw [List.getLast?_concat] at hx
      rw [List.getLast?_append, (hrow x (Option.some.inj hx)).2]
      rfl
    · cases answer with
      | error e => exact absurd (List.mem_append_right _ (List.mem_singleton_self _)) (hok e)
      | ok x =>
        exact (hon fun e he => hok e (List.mem_append_left _ he)).trans (hrow x rfl).1

/-- Pulling reaches the first failure or the end. -/
theorem Pulls.exists_end (hr : r.Running) : ∀ {rows : List Row} {s : LazyResult} {mid : Calls},
    r.Pulls h calls (rows.map .ok) s mid → ∃ (rows' : List Row) (s' t : LazyResult)
      (mid' final : Calls), r.Pulls h calls (rows'.map .ok) s' mid' ∧
        s'.next h mid' = ((r.failure?.map .error, t), final)
  | rows, s, mid, hp => by
    obtain ⟨acted, hpast, -, -, hon⟩ := hp.past hr
    have hfailure := (hon fun e he => by simp at he).failure
    -- One more pull either hands out a row, and leaves less to do, or is the last one.
    rcases next_cases (h := h) hpast.running mid with
      ⟨_, x, t, final, hnext, -⟩ | ⟨t, final, hnext, -⟩
    · have hshorter := next_work hnext
      have hlonger : r.Pulls h calls ((rows ++ [x]).map .ok) t final := by
        rw [List.map_append]
        exact hp.pull hnext
      exact Pulls.exists_end hr hlonger
    · rw [hfailure] at hnext
      exact ⟨rows, s, t, mid, final, hp, hnext⟩
termination_by _ s => s.work

/-- Where pulls of rows end, all entities complete before the first failure have been acted upon. -/
theorem Pulls.settles (hr : r.Running) {rows : List Row} (hp : r.Pulls h calls (rows.map .ok) s mid)
    {answer : Option (Except RunError Row)} (hno : ∀ x, answer ≠ some (.ok x))
    (hn : s.next h mid = ((answer, t), final)) : answer = r.failure?.map .error ∧
      r.plan.settleAll h r.complete calls = (rows, final) := by
  obtain ⟨acted, hpast, hsettle, -, hok⟩ := hp.past hr
  have hon := hok fun e he => by simp at he
  have hrows : rowsOf (rows.map .ok) = rows := by
    rw [rowsOf, List.filterMap_map]
    exact List.filterMap_some
  rw [hrows] at hsettle
  -- The last pull acts on what is left of the entities, without keeping any.
  rcases next_cases (h := h) hpast.running mid with
    ⟨_, x, s', mid', hnext, -⟩ | ⟨s', mid', hnext, -, hrest⟩
  · obtain ⟨hanswer, -⟩ := Prod.mk.inj (Prod.mk.inj (hnext.symm.trans hn)).1
    exact absurd hanswer.symm (hno x)
  · rw [hon.failure] at hnext
    cases hnext.symm.trans hn
    rw [hpast.plan] at hrest
    have happend := Plan.settleAll_append hsettle hrest
    rw [List.append_nil, ← hon.complete] at happend
    exact ⟨rfl, happend⟩

/-- Pulling to the first failure or the end acts on the entities complete by then. -/
theorem pulls_end_iff (hr : r.Running) {rows : List Row} {answer : Option (Except RunError Row)}
    (hno : ∀ x, answer ≠ some (.ok x)) :
    (∃ s mid t, r.Pulls h calls (rows.map .ok) s mid ∧ s.next h mid = ((answer, t), final)) ↔
      answer = r.failure?.map .error ∧ r.plan.settleAll h r.complete calls = (rows, final) := by
  constructor
  · rintro ⟨s, mid, t, hp, hn⟩
    exact hp.settles hr hno hn
  -- Pulls from the start come to an end somewhere, and where they do is determined.
  · rintro ⟨rfl, hsettle⟩
    have hnothing : r.Pulls h calls ([].map .ok) r calls := .nothing
    obtain ⟨rows', s, t, mid, final', hp, hn⟩ := hnothing.exists_end hr
    cases hsettle.symm.trans (hp.settles hr hno hn).2
    exact ⟨s, mid, t, hp, hn⟩

end LazyResult

/-! ## Results at hand -/

namespace EagerResult

/-- What reading everything yields: the rows kept, or the error that it meets. -/
def outcome (failure : Option RunError) (kept : List Row) : Except RunError (List Row) :=
  match failure with
  | none => .ok kept
  | some e => .error e

variable {h : Host} {p : Plan} {calls final : Calls} {kept : List Row}

/-- A result read on demand that stands where reading everything stands. -/
def ahead (p : Plan) (m : Merger) (c : Cursor) : LazyResult :=
  { plan := p, cursor := c, merger := m }

/-- Reading everything acts on the entities complete before the first failure. -/
theorem drain_eq {m : Merger} {c : Cursor} (hr : (ahead p m c).Running)
    (hsettle : p.settleAll h (ahead p m c).complete calls = (kept, final)) :
    ∃ d, drain h p m c calls = ((outcome (ahead p m c).failure? kept, d), final) ∧
      d.closing = c.closing := by
  -- Reading everything is compared, at each read, with a result read on demand that stands at the
  -- same place. The action runs on the entity that a read completes, then on those of the rest.
  fun_induction drain h p m c generalizing calls kept with
  | case1 m c e d hd =>
    obtain ⟨hopen, hreads⟩ := Cursor.next_eq_error hr.cursorOpen hd
    obtain ⟨hfailure, hcomplete, -⟩ := LazyResult.past_failure hr hopen hreads rfl
    rw [hcomplete] at hsettle
    cases hsettle
    rw [hfailure]
    exact ⟨d, rfl, Cursor.closing_of_next hd⟩
  | case2 m c d hd =>
    obtain ⟨-, hreads, -⟩ := Cursor.next_eq_end hr.cursorOpen hd
    obtain ⟨hfailure, hcomplete, -⟩ := LazyResult.entities_of_end (r := ahead p m c) hreads
    rw [hcomplete, Plan.settleAll_toList] at hsettle
    rw [hfailure]
    refine ⟨d, ?_, Cursor.closing_of_next hd⟩
    rw [Hosted.bind_apply, show p.settle h m.finish.1 calls = (kept, final) from hsettle]
    rfl
  | case3 m c cells d hd e he =>
    obtain ⟨hopen, hreads⟩ := Cursor.next_eq_row hr.cursorOpen hd
    obtain ⟨hfailure, hcomplete, -⟩ := LazyResult.past_failure hr hopen hreads he
    rw [hcomplete] at hsettle
    cases hsettle
    rw [hfailure]
    exact ⟨d, rfl, Cursor.closing_of_next hd⟩
  | case4 m c cells d hd row hrow ih =>
    have hon : (ahead p m c).Onward (m.push row).1.toList (ahead p (m.push row).2 d) :=
      LazyResult.onward_push hr hd hrow
    rcases hone : p.settle h (m.push row).1 calls with ⟨done, mid⟩
    rcases hrest : p.settleAll h (ahead p (m.push row).2 d).complete mid with ⟨more, final'⟩
    have happend := Plan.settleAll_append ((Plan.settleAll_toList _ _).trans hone) hrest
    rw [← hon.complete, hsettle] at happend
    cases happend
    obtain ⟨d', hdrain, hclosing⟩ := ih hon.running hrest
    refine ⟨d', ?_, hclosing.trans (Cursor.closing_of_next hd)⟩
    rw [Hosted.bind_apply, hone, Hosted.bind_apply, hdrain, ← hon.failure]
    dsimp only
    cases (ahead p (m.push row).2 d).failure? <;> rfl

/-- Fetching a result acts on the entities complete before the first failure, and then closes the
cursor. -/
theorem fetch_eq {c : Cursor} (hr : (LazyResult.start p c).Running)
    (hsettle : p.settleAll h (LazyResult.start p c).complete calls = (kept, final)) :
    (fetch h p c calls).1.1.map EagerResult.rows =
        (outcome (LazyResult.start p c).failure? kept >>= fun rows => c.close.1.map fun _ => rows) ∧
      (fetch h p c calls).2 = final := by
  obtain ⟨d, hdrain, hd⟩ := drain_eq (m := {}) hr hsettle
  have hclose : d.close.1 = c.close.1 := Cursor.close_of_closing hd
  rw [fetch, Hosted.bind_apply, hdrain]
  dsimp only
  rw [hclose, show ahead p {} c = .start p c from rfl]
  refine ⟨?_, rfl⟩
  cases (LazyResult.start p c).failure? with
  | some e => rfl
  | none => cases c.close.1 <;> rfl

end EagerResult

theorem LazyResult.running_start {c : Cursor} (hopen : c.closed = false) (p : Plan) :
    (LazyResult.start p c).Running := ⟨rfl, hopen, fun hend => by cases hend⟩

open LazyResult in
/-- Fetching a result that an open cursor yields agrees with pulling it row by row. It returns the
rows that are pulled up to the end, or the first error that a pull ends in, and the calls made are
the same. Whenever a pull has handed out a row, the action has run on the entities up to that row,
in order and on no other, and closing the result then leaves it at that: neither the pending row nor
what is still to be read is acted upon. -/
theorem fetch_agrees (h : Host) (p : Plan) {c : Cursor} (hopen : c.closed = false)
    (hclosing : c.closing = none) (calls : Calls) :
    (∀ rows final,
      ((EagerResult.fetch h p c calls).1.1.map EagerResult.rows = .ok rows ∧
        (EagerResult.fetch h p c calls).2 = final) ↔
      ∃ s mid t, (start p c).Pulls h calls (rows.map .ok) s mid ∧
        s.next h mid = ((none, t), final)) ∧
    (∀ e final,
      ((EagerResult.fetch h p c calls).1.1.map EagerResult.rows = .error e ∧
        (EagerResult.fetch h p c calls).2 = final) ↔
      ∃ (rows : List Row) (s : LazyResult) (mid : Calls) (t : LazyResult),
        (start p c).Pulls h calls (rows.map .ok) s mid ∧
          s.next h mid = ((some (.error e), t), final)) ∧
    ∀ answers row s mid, (start p c).Pulls h calls (answers ++ [.ok row]) s mid →
      ∃ acted, Row.entities (p.rows c.reads) =
          acted ++ Row.entities (s.merger.pending.toList ++ p.rows s.cursor.reads) ∧
        acted.getLast? = some row ∧
        p.settleAll h acted calls = (rowsOf (answers ++ [.ok row]), mid) ∧
        ∀ later, s.close.2.next h later = ((none, s.close.2), later) := by
  have hr : (start p c).Running := running_start hopen p
  rcases hsettle : p.settleAll h (start p c).complete calls with ⟨kept, last⟩
  have hsettle' : (start p c).plan.settleAll h (start p c).complete calls = (kept, last) := hsettle
  obtain ⟨hfetch, hlast⟩ := EagerResult.fetch_eq hr hsettle
  have hclose : c.close.1 = .ok () := Cursor.close_of_closing (d := { reads := [] }) hclosing
  rw [hclose] at hfetch
  refine ⟨fun rows final => ?_, fun e final => ?_, fun answers row s mid hp => ?_⟩
  · rw [pulls_end_iff hr (by rintro x ⟨⟩), hfetch, hlast, hsettle', Prod.mk.injEq]
    cases (start p c).failure? with
    | none => simp [EagerResult.outcome]
    | some e => simp [EagerResult.outcome]
  · refine Iff.trans ?_ (exists_congr fun rows => (pulls_end_iff hr (by rintro x ⟨⟩)).symm)
    rw [hfetch, hlast, hsettle']
    cases (start p c).failure? with
    | none => simp [EagerResult.outcome]
    | some e' =>
      constructor
      · rintro ⟨herror, rfl⟩
        cases herror
        exact ⟨kept, rfl, rfl⟩
      · rintro ⟨rows, hanswer, hkept⟩
        cases hanswer
        cases hkept
        exact ⟨rfl, rfl⟩
  · obtain ⟨acted, hpast, hacted, hlast, -⟩ := hp.past hr
    have hentities := hpast.entities
    rw [entities, entities, hpast.plan] at hentities
    exact ⟨acted, hentities, hlast row List.getLast?_concat, hacted,
      next_of_closed s.closed_close h⟩

/-- Deletes the items whose places are read. -/
def Plan.deletion : Plan where
  domain := .items
  fields := [.main .itemRepo .items, .main .itemPath .items, .main .itemName .items]
  action := { kind := .delete, dryRun := false }

/-- A host that deletes one item and no more. -/
def Host.deletesOnce : Host where
  undeploy calls p := if calls = [] then none else some (.readOnly p)
  execute _ _ _ := .ok { reads := [] }

/-- Two rows of one item and one of another. -/
def Cursor.ofTwoItems : Cursor := .ofRows
  [[.text "r", .text ".", .text "a"], [.text "r", .text ".", .text "a"],
    [.text "r", .text ".", .text "b"]]

open LazyResult in
/-- Two items are deleted once each, and the row of the one whose deletion fails is left out. -/
theorem fetch_agrees_on_deletion : Cursor.ofTwoItems.closed = false ∧
    Cursor.ofTwoItems.closing = none ∧
    ∃ rows : List Row, rows.map Row.repoPath? = [some ⟨"r", "a"⟩] ∧
      ∃ s mid t, (start .deletion .ofTwoItems).Pulls .deletesOnce [] (rows.map .ok) s mid ∧
        s.next .deletesOnce mid = ((none, t), [.undeploy ⟨"r", "a"⟩, .undeploy ⟨"r", "b"⟩]) := by
  have hcalls : (EagerResult.fetch .deletesOnce .deletion .ofTwoItems []).2 =
      [.undeploy ⟨"r", "a"⟩, .undeploy ⟨"r", "b"⟩] := by decide +kernel
  have hplaces : (EagerResult.fetch .deletesOnce .deletion .ofTwoItems []).1.1.toOption.map
      (·.rows.map Row.repoPath?) = some [some ⟨"r", "a"⟩] := by decide +kernel
  have hagrees := (fetch_agrees .deletesOnce .deletion (c := .ofTwoItems) rfl rfl []).1
  cases hfetch : (EagerResult.fetch .deletesOnce .deletion .ofTwoItems []).1.1 with
  | error e =>
    rw [hfetch] at hplaces
    cases hplaces
  | ok r =>
    rw [hfetch] at hplaces
    refine ⟨rfl, rfl, r.rows, Option.some.inj hplaces, ?_⟩
    exact (hagrees r.rows _).1 ⟨by rw [hfetch]; rfl, hcalls⟩

end ArtifactQuery
