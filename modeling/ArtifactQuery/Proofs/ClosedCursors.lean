import ArtifactQuery.Proofs.ReadFilter

/-!
# Closed cursors

However a result is used, and whatever fails on the way, its cursor is read any number of times and
then closed, once.

* `Cursor.OnlyRead`, `Cursor.ClosedOnce`: what was asked of a cursor since it was handed over.
* `LazyResult.Used`: what becomes of a result through pulls and closings in any order.
* `LazyResult.Accounts`: an open result has only read its cursor, a closed one has closed it once.
* `DocumentStream.Draws`: a document draws on its rows by pulling and closing them.
* `closed_once`: the cursor is closed once in all ways of using it.
-/

namespace ArtifactQuery

/-! ## Calls to a cursor -/

namespace Cursor

/-- Since `c` the cursor was read and nothing else. -/
def OnlyRead (c d : Cursor) : Prop := ∃ n, d.log = c.log ++ List.replicate n .next

/-- Since `c` the cursor was closed once, and not read after that. -/
def ClosedOnce (c d : Cursor) : Prop := ∃ n, d.log = c.log ++ List.replicate n .next ++ [.close]

@[simp] theorem log_next (c : Cursor) : c.next.2.log = c.log ++ [.next] := by
  obtain ⟨reads, closing, _ | _, log⟩ := c
  · match reads with
    | [] | .ok _ :: _ | .error _ :: _ => rfl
  · rfl

@[simp] theorem log_close (c : Cursor) : c.close.2.log = c.log ++ [.close] := by
  obtain ⟨reads, _ | e, closed, log⟩ := c
  · rfl
  · rfl

variable {c d : Cursor}

theorem OnlyRead.refl (c : Cursor) : c.OnlyRead c := ⟨0, (List.append_nil _).symm⟩

theorem OnlyRead.next (h : c.OnlyRead d) : c.OnlyRead d.next.2 := by
  obtain ⟨n, hn⟩ := h
  refine ⟨n + 1, ?_⟩
  rw [log_next, hn, List.replicate_succ', List.append_assoc]

theorem OnlyRead.close (h : c.OnlyRead d) : c.ClosedOnce d.close.2 := by
  obtain ⟨n, hn⟩ := h
  exact ⟨n, by rw [log_close, hn]⟩

end Cursor

/-! ## Results at hand -/

namespace EagerResult

variable {h : Host} {p : Plan}

/-- Reading everything does not close the cursor. -/
theorem onlyRead_drain {m : Merger} {c d : Cursor} (hd : c.OnlyRead d) (calls : Calls) :
    c.OnlyRead (drain h p m d calls).1.2 := by
  fun_induction drain h p m d generalizing calls with
  | case1 m d e d' hnext | case2 m d d' hnext | case3 m d cells d' hnext e he =>
    have hread := hd.next
    rw [hnext] at hread
    exact hread
  | case4 m d cells d' hnext row hrow ih =>
    have hread := hd.next
    rw [hnext] at hread
    exact ih hread _

theorem closedOnce_fetch (c : Cursor) (calls : Calls) : c.ClosedOnce (fetch h p c calls).1.2 :=
  (onlyRead_drain (.refl c) calls).close

end EagerResult

/-! ## Results read on demand -/

namespace LazyResult

variable {h : Host} {c : Cursor} {r s t : LazyResult}

/-- What becomes of a result through pulls and closings. -/
inductive Used (h : Host) (r : LazyResult) : LazyResult → Prop
  | nothing : Used h r r
  | next {s : LazyResult} (hs : Used h r s) (calls : Calls) : Used h r (s.next h calls).1.2
  | close {s : LazyResult} (hs : Used h r s) : Used h r s.close.2

/-- An open result has only read its cursor, and a closed one has closed it once. -/
structure Accounts (c : Cursor) (r : LazyResult) : Prop where
  opened : r.closed = false → c.OnlyRead r.cursor
  closed : r.closed = true → c.ClosedOnce r.cursor

theorem accounts_start (p : Plan) (c : Cursor) : (start p c).Accounts c :=
  ⟨fun _ => .refl c, fun hclosed => by cases hclosed⟩

/-- Looking for an entity reads the cursor and leaves the result open. -/
theorem onlyRead_nextEntity (hr : c.OnlyRead r.cursor) :
    c.OnlyRead r.nextEntity.2.cursor ∧ r.nextEntity.2.closed = r.closed := by
  fun_induction nextEntity r with
  | case1 r _ => exact ⟨hr, rfl⟩
  | case2 r _ e d hd | case3 r _ d hd r' | case4 r _ cells d hd e he
  | case5 r _ cells d hd row hrow done m hm =>
    have hread := hr.next
    rw [hd] at hread
    exact ⟨hread, rfl⟩
  | case6 r _ cells d hd row hrow m hm ih =>
    have hread := hr.next
    rw [hd] at hread
    exact ih hread

/-- So does a pull. -/
theorem onlyRead_next (hr : c.OnlyRead r.cursor) (hopen : r.closed = false) (calls : Calls) :
    c.OnlyRead (r.next h calls).1.2.cursor ∧ (r.next h calls).1.2.closed = false := by
  fun_induction next h r generalizing calls with
  | case1 r hclosed => cases hopen.symm.trans hclosed
  | case2 r _ x s hs ih =>
    obtain ⟨hread, hstill⟩ := onlyRead_nextEntity hr
    rw [hs] at hread hstill
    rw [Hosted.bind_apply]
    rcases (s.plan.action.apply h x calls).1 with _ | _
    · exact ih hread (hstill.trans hopen) _
    · exact ⟨hread, hstill.trans hopen⟩
  | case3 r _ e s hs | case4 r _ s hs =>
    obtain ⟨hread, hstill⟩ := onlyRead_nextEntity hr
    rw [hs] at hread hstill
    exact ⟨hread, hstill.trans hopen⟩

/-- A pull neither opens nor closes a result. -/
theorem closed_next (r : LazyResult) (calls : Calls) : (r.next h calls).1.2.closed = r.closed := by
  cases hclosed : r.closed with
  | true => rw [next_of_closed hclosed, hclosed]
  | false => exact (onlyRead_next (.refl r.cursor) hclosed calls).2

theorem Accounts.next (hr : r.Accounts c) (calls : Calls) : (r.next h calls).1.2.Accounts c := by
  cases hclosed : r.closed with
  | true =>
    rw [next_of_closed hclosed]
    exact hr
  | false =>
    obtain ⟨hread, hstill⟩ := onlyRead_next (h := h) (hr.opened hclosed) hclosed calls
    exact ⟨fun _ => hread, fun hnow => by cases hstill.symm.trans hnow⟩

/-- A closed result is left alone by closing it. -/
theorem close_of_closed (hr : r.closed = true) : r.close = (.ok (), r) := if_pos hr

theorem Accounts.close (hr : r.Accounts c) : r.close.2.Accounts c := by
  cases hclosed : r.closed with
  | true =>
    rw [close_of_closed hclosed]
    exact hr
  | false =>
    rw [LazyResult.close, if_neg (by rw [hclosed]; exact Bool.false_ne_true)]
    exact ⟨fun hnow => (by cases hnow), fun _ => (hr.opened hclosed).close⟩

theorem Used.accounts (hu : Used h r s) (hr : r.Accounts c) : s.Accounts c := by
  induction hu with
  | nothing => exact hr
  | next _ calls ih => exact ih.next calls
  | close _ ih => exact ih.close

/-- Whatever was done with a result before, its cursor has been closed once when it is left. -/
theorem Used.closedOnce {p : Plan} (hu : Used h (start p c) s) : c.ClosedOnce s.drop.cursor :=
  (hu.accounts (accounts_start p c)).close.closed s.closed_close

/-- A closed result stays as it is. -/
theorem Used.eq_of_closed (hu : Used h r s) (hr : r.closed = true) : s = r := by
  induction hu with
  | nothing => rfl
  | next _ calls ih => rw [ih, next_of_closed hr]
  | close _ ih => rw [ih, close_of_closed hr]

end LazyResult

/-! ## Documents -/

namespace DocumentStream

open LazyResult

variable {h : Host} {r : LazyResult} {s : DocumentStream}

/-- A document draws on the rows of a result: it pulls and closes them, and hands out no pieces once
they are closed. -/
def Draws (h : Host) (r : LazyResult) (s : DocumentStream) : Prop :=
  ∃ t, s.rows = .lazy t ∧ Used h r t ∧ (t.closed = true → s.state = .done)

theorem draws_start (r : LazyResult) (hr : r.closed = false) (filtered : Bool) :
    Draws h r { rows := .lazy r, filtered } :=
  ⟨r, rfl, .nothing, fun hclosed => by cases hr.symm.trans hclosed⟩

theorem rows_of_next {t : LazyResult} {o : Option (Except RunError Row)} {rows : ResultSet}
    {calls calls' : Calls} (hn : (ResultSet.lazy t).next h calls = ((o, rows), calls')) :
    rows = .lazy (t.next h calls).1.2 := congrArg (fun x => x.1.2) hn.symm

/-- One request for a row. If it closes the rows, it ends the document. -/
theorem Draws.nextRowChunk (hs : Draws h r s) (hrows : s.state = .rows) (calls : Calls) :
    Draws h r (s.nextRowChunk h calls).1.2 := by
  have still : ∀ {t : LazyResult}, (t.closed = true → s.state = .done) →
      ∀ calls, (t.next h calls).1.2.closed = true → s.state = .done := fun hdone calls hclosed =>
    hdone ((closed_next _ calls).symm.trans hclosed)
  -- Pulling never closes the rows by itself. Where the document closes them, at an error or at the
  -- end, it is done.
  fun_induction DocumentStream.nextRowChunk h s calls with
  | case1 s calls e rows calls' hn | case2 s calls rows calls' hn =>
    obtain ⟨t, ht, hu, -⟩ := hs
    obtain rfl := rows_of_next (ht ▸ hn)
    exact ⟨_, rfl, (hu.next calls).close, fun _ => rfl⟩
  | case3 s calls row rows calls' hn shown later hp =>
    obtain ⟨t, ht, hu, hdone⟩ := hs
    obtain rfl := rows_of_next (ht ▸ hn)
    exact ⟨_, rfl, hu.next calls, still hdone calls⟩
  | case4 s calls row rows calls' hn later hp ih =>
    obtain ⟨t, ht, hu, hdone⟩ := hs
    obtain rfl := rows_of_next (ht ▸ hn)
    exact ih ⟨_, rfl, hu.next calls, still hdone calls⟩ hrows still

theorem Draws.nextChunk (hs : Draws h r s) (calls : Calls) :
    Draws h r (s.nextChunk h calls).1.2 := by
  rw [DocumentStream.nextChunk]
  cases hstate : s.state with
  | head =>
    obtain ⟨t, ht, hu, hdone⟩ := hs
    exact ⟨t, ht, hu, fun hclosed => by cases hstate.symm.trans (hdone hclosed)⟩
  | rows => exact hs.nextRowChunk hstate calls
  | done => exact hs

theorem Draws.requests (hs : Draws h r s) (n : Nat) (calls : Calls) :
    Draws h r (DocumentStream.requests h n s calls).1.2 := by
  induction n generalizing s calls with
  | zero => exact hs
  | succ n ih => exact ih (hs.nextChunk calls) _

/-- Writing a document pulls and closes its rows, whatever the sink takes. -/
theorem Draws.writeTo (hs : Draws h r s) (k : Sink) (calls : Calls) :
    ∃ t, (s.writeTo h k calls).1.2.1.rows = .lazy t ∧ Used h r t := by
  -- Writing stops at an error, at the end, or at a sink that fails, where the rows are closed at
  -- once.
  fun_induction DocumentStream.writeTo h s k calls with
  | case1 s k calls e s' calls' hn | case2 s k calls s' calls' hn =>
    have hnext := hs.nextChunk calls
    rw [hn] at hnext
    obtain ⟨t, ht, hu, -⟩ := hnext
    exact ⟨t, ht, hu⟩
  | case3 s k calls chunk s' calls' hn hk ih =>
    have hnext := hs.nextChunk calls
    rw [hn] at hnext
    exact ih hnext
  | case4 s k calls chunk s' calls' hn hk =>
    have hnext := hs.nextChunk calls
    rw [hn] at hnext
    obtain ⟨t, ht, hu, -⟩ := hnext
    exact ⟨t.close.2, by rw [ht]; rfl, hu.close⟩

end DocumentStream

open LazyResult DocumentStream in
/-- The cursor of a result read on demand is closed once, and not read after that: after any pulls
and closings and leaving the result, after any use in a scope, after any number of requests to a
document, and after writing the rest of it to a sink. A closed result hands out nothing more, and a
document whose rows are closed no more pieces. Fetching a result closes its cursor once. -/
theorem closed_once (h : Host) (p : Plan) (c : Cursor) (calls : Calls) :
    (∀ s, Used h (start p c) s → c.ClosedOnce s.drop.cursor ∧
      ∀ t, Used h s.close.2 t → ∀ later,
        t.next h later = ((none, t), later) ∧ t.close = (.ok (), t)) ∧
    (∀ (α : Type) (use : LazyResult → Hosted (Except RunError α × LazyResult)),
      Used h (start p c) (use (start p c) calls).1.2 →
        c.ClosedOnce (inScope use (start p c) calls).1.2.cursor ∧
          (inScope use (start p c) calls).1.2.drop = (inScope use (start p c) calls).1.2) ∧
    (∀ (filtered : Bool) n answers s later,
      requests h n { rows := .lazy (start p c), filtered } calls = ((answers, s), later) →
        (∃ t, s.rows = .lazy t ∧ c.ClosedOnce t.drop.cursor ∧ (t.closed = true →
          ∀ m, requests h m s later = ((List.replicate m (.ok none), s), later))) ∧
        ∀ k, ∃ t, (s.writeTo h k later).1.2.1.rows = .lazy t ∧ c.ClosedOnce t.drop.cursor) ∧
    c.ClosedOnce (EagerResult.fetch h p c calls).1.2 := by
  refine ⟨fun s hs => ⟨hs.closedOnce, fun t ht later => ?_⟩, fun α use huse => ?_,
    fun b n answers s later hn => ?_, EagerResult.closedOnce_fetch c calls⟩
  · obtain rfl := ht.eq_of_closed s.closed_close
    exact ⟨next_of_closed s.closed_close h later, close_of_closed s.closed_close⟩
  · have hclosed := (use (start p c) calls).1.2.closed_close
    have hdrop : (use (start p c) calls).1.2.close.2.drop =
        (use (start p c) calls).1.2.close.2 := by
      rw [drop, close_of_closed hclosed]
    exact ⟨huse.closedOnce, hdrop⟩
  · have hs := (draws_start (h := h) (start p c) rfl b).requests n calls
    rw [hn] at hs
    obtain ⟨t, ht, hu, hdone⟩ := id hs
    refine ⟨⟨t, ht, hu.closedOnce, fun hclosed m => requests_done (hdone hclosed) m later⟩,
      fun k => ?_⟩
    obtain ⟨t', ht', hu'⟩ := hs.writeTo k later
    exact ⟨t', ht', hu'.closedOnce⟩

/-- A row and an error, and an error of closing. -/
def Cursor.failing : Cursor where
  reads := [.ok [], .error (.execution .cursorClosed)]
  closing := some .output

/-- A host whose cursors fail. -/
def Host.failing : Host where
  execute _ _ _ := .ok .failing

/-- Items without fields. -/
def Plan.bare : Plan where
  domain := .items
  fields := []
  action := { kind := .find, dryRun := true }

open LazyResult DocumentStream in
/-- Neither an error of reading nor one of closing keeps the cursor open: not after a pull, not in a
scope that ends in an error, and not under a document. -/
theorem closed_once_failing :
    (Used .failing (start .bare .failing) ((start .bare .failing).next .failing []).1.2 ∧
      Cursor.failing.ClosedOnce ((start .bare .failing).next .failing []).1.2.drop.cursor ∧
      (((start .bare .failing).next .failing []).1.2.close.2.next .failing []).1.1 = none) ∧
    (Used .failing (start .bare .failing) (start .bare .failing).close.2 ∧
      Cursor.failing.ClosedOnce (inScope (α := Unit) (fun r => return (.error .output, r.close.2))
        (start .bare .failing) []).1.2.cursor) ∧
    ∃ answers s later t, requests .failing 3 { rows := .lazy (start .bare .failing) } [] =
      ((answers, s), later) ∧ s.rows = .lazy t ∧ Cursor.failing.ClosedOnce t.drop.cursor := by
  obtain ⟨hused, hscope, hrequests, -⟩ := closed_once .failing .bare .failing []
  have hpull : Used .failing (start .bare .failing) ((start .bare .failing).next .failing []).1.2 :=
    .next .nothing []
  have hclose : Used .failing (start .bare .failing) (start .bare .failing).close.2 :=
    .close .nothing
  have hnone := congrArg (fun x => x.1.1) ((hused _ hpull).2 _ .nothing []).1
  refine ⟨⟨hpull, (hused _ hpull).1, hnone⟩, ⟨hclose, (hscope Unit _ hclose).1⟩, ?_⟩
  obtain ⟨⟨t, ht, hclosed, -⟩, -⟩ := hrequests false 3 _ _ _ rfl
  exact ⟨_, _, _, t, rfl, ht, hclosed⟩

end ArtifactQuery
