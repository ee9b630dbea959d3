import ArtifactQuery.Result.Document
import Mathlib.Data.List.Basic

/-!
# Which rows a filtered document shows

A filtered document asks the host for some of the items in its rows. Which ones are asked for
decides what can be said about the items that it shows.

* `Row.Within`: a row occurs in another, at any depth.
* `Row.part`: the part of a row that is shown when the host answers by the place of an item alone.
* `ResultSet.HandsOut`: the rows that a result hands out one after the other.
* `nextRowChunk_shows`, `requests_shows`: one request, and any number of them.
* `filtered_shows`: the pieces of a filtered document, and when all of the items in it are readable.
-/

namespace ArtifactQuery

/-! ## Rows in rows -/

/-- Whether a row is another one or occurs below it. -/
inductive Row.Within : Row → Row → Prop
  | self (r : Row) : Within r r
  | child {s c r : Row} (hc : c ∈ r.children) (h : Within s c) : Within s r

namespace Row

/-- Whether a row may be read, where `f` says which places may: an item at a known place may if its
place may, everything else may. -/
def permitted (f : RepoPath → Bool) (r : Row) : Bool := r.repoPath?.all f

/-- Whether every item in a row may be read, at any depth. -/
def AllPermitted (f : RepoPath → Bool) (r : Row) : Prop := ∀ s : Row, s.Within r → s.permitted f

/-- The rows that a filter asks for: an item itself, and what is next to any other entity. -/
def asked (r : Row) : List Row := if r.domain = .items then [r] else r.children

/-- The part of a row that is shown where `f` says which places may be read. -/
def part (f : RepoPath → Bool) (r : Row) : Option Row :=
  if r.domain = .items then if r.permitted f then some r else none
  else
    let kept := r.keepChildren (permitted f)
    if r.childrenOf .items ≠ [] ∧ kept.childrenOf .items = [] then none else some kept

variable {f : RepoPath → Bool} {r : Row}

theorem permitted_of_domain (h : r.domain ≠ .items) : r.permitted f = true := by
  rw [permitted, repoPath?, if_pos h]
  rfl

theorem within_iff {s : Row} : s.Within r ↔ s = r ∨ ∃ c ∈ r.children, s.Within c := by
  constructor
  · intro h
    cases h with
    | self => exact .inl rfl
    | child hc h => exact .inr ⟨_, hc, h⟩
  · rintro (rfl | ⟨c, hc, h⟩)
    · exact .self _
    · exact .child hc h

theorem allPermitted_iff :
    r.AllPermitted f ↔ r.permitted f ∧ ∀ c ∈ r.children, c.AllPermitted f := by
  constructor
  · intro h
    exact ⟨h r (.self r), fun c hc s hs => h s (.child hc hs)⟩
  · rintro ⟨hself, hchildren⟩ s hs
    rcases within_iff.1 hs with rfl | ⟨c, hc, hs⟩
    · exact hself
    · exact hchildren c hc s hs

/-- What is asked for in the shown part of a row may be read. -/
theorem permitted_of_part {shown : Row} (h : r.part f = some shown) :
    ∀ c ∈ shown.asked, c.permitted f := by
  rw [part] at h
  by_cases hitems : r.domain = .items
  · rw [if_pos hitems] at h
    split at h
    · rename_i hpermitted
      cases h
      intro c hc
      rw [asked, if_pos hitems, List.mem_singleton] at hc
      rwa [hc]
    · cases h
  · rw [if_neg hitems] at h
    dsimp only at h
    split at h
    · cases h
    · cases h
      intro c hc
      have hkept : c ∈ r.children.filter (permitted f) := by
        rwa [asked, if_neg (show (r.keepChildren (permitted f)).domain ≠ .items from hitems)] at hc
      exact List.of_mem_filter hkept

/-- All items in a row may be read if those that are asked for may, and all items below them. -/
theorem allPermitted_iff_asked (h : ∀ c ∈ r.asked, c.permitted f) :
    r.AllPermitted f ↔ ∀ c ∈ r.asked, ∀ d ∈ c.children, d.AllPermitted f := by
  rw [asked] at h ⊢
  rw [allPermitted_iff]
  by_cases hitems : r.domain = .items
  · rw [if_pos hitems] at h ⊢
    simp [h r (List.mem_singleton_self r)]
  · rw [if_neg hitems] at h ⊢
    constructor
    · rintro ⟨-, hchildren⟩ c hc d hd
      exact (allPermitted_iff.1 (hchildren c hc)).2 d hd
    · intro hbelow
      refine ⟨permitted_of_domain hitems, fun c hc => ?_⟩
      exact allPermitted_iff.2 ⟨h c hc, hbelow c hc⟩

end Row

/-! ## Asking the host -/

/-- The host, where `f` says which places may be read. -/
def Host.reading (h : Host) (f : RepoPath → Bool) : Host := { h with canRead := fun _ => f }

section Asking

variable {h : Host} {f : RepoPath → Bool}

theorem Row.readableAmong_eq (rs : List Row) (calls : Calls) :
    (readableAmong (h.reading f) rs calls).1 = rs.filter (permitted f) := by
  induction rs generalizing calls with
  | nil => rfl
  | cons c cs ih =>
    rw [readableAmong, List.filter_cons, permitted]
    cases c.repoPath? with
    | none =>
      show (Prod.fst (c :: (readableAmong (h.reading f) cs calls).1, _)) = _
      rw [ih]
      rfl
    | some p =>
      show (if f p = true then c :: (readableAmong (h.reading f) cs _).1
        else (readableAmong (h.reading f) cs _).1) = _
      rw [ih]
      rfl

theorem Row.readable_eq (r : Row) (calls : Calls) :
    (r.readable (h.reading f) calls).1 = r.part f := by
  rw [readable, part]
  by_cases hitems : r.domain = .items
  · rw [if_pos hitems, if_pos hitems, permitted]
    cases r.repoPath? with
    | none => rfl
    | some p => rfl
  · rw [if_neg hitems, if_neg hitems, Hosted.bind_apply, Hosted.pure_apply, readableAmong_eq]
    rfl

theorem DocumentStream.shownPart_eq {s : DocumentStream} (hs : s.filtered = true) (r : Row)
    (calls : Calls) : (s.shownPart (h.reading f) r calls).1 = r.part f := by
  rw [shownPart, if_pos hs]
  exact r.readable_eq calls

end Asking

/-! ## The pieces of a document -/

/-- The rows that a result hands out one after the other, and what is left of it. Between two of
them the host may be asked anything. -/
inductive ResultSet.HandsOut (h : Host) : ResultSet → List Row → ResultSet → Prop
  | nothing (r : ResultSet) : HandsOut h r [] r
  | row {r s t : ResultSet} {row : Row} {rows : List Row} {calls calls' : Calls}
      (hn : r.next h calls = ((some (.ok row), s), calls')) (ht : HandsOut h s rows t) :
      HandsOut h r (row :: rows) t

theorem ResultSet.HandsOut.append {h : Host} {r s t : ResultSet} {rows rows' : List Row}
    (hr : r.HandsOut h rows s) (hs : s.HandsOut h rows' t) : r.HandsOut h (rows ++ rows') t := by
  induction hr with
  | nothing => exact hs
  | row hn _ ih => exact .row hn (ih hs)

namespace DocumentStream

/-- An answer to a request for the next piece. -/
abbrev Answer := Except RunError (Option String)

/-- The answers to a number of requests for the next piece. -/
def requests (h : Host) : Nat → DocumentStream → Hosted (List Answer × DocumentStream)
  | 0, s => return ([], s)
  | n + 1, s => do
    let (answer, s) ← s.nextChunk h
    let (answers, s) ← requests h n s
    return (answer :: answers, s)

/-- The pieces of rows behind `n` others. -/
def rowChunks : Nat → List Row → List Answer
  | _, [] => []
  | n, r :: rs => .ok (some (rowText n r)) :: rowChunks (n + 1) rs

/-- Whether an answer ends a document with `n` rows: it is the foot, an error or no piece. -/
def Ends (n : Nat) (answer : Answer) : Prop :=
  answer = .ok (some (footText n)) ∨ answer = .ok none ∨ ∃ e, answer = .error e

variable {h : Host} {f : RepoPath → Bool}

/-- One request for a row: the result hands out rows of which nothing is shown, and then one whose
part is shown, or nothing more. -/
theorem nextRowChunk_shows {s t : DocumentStream} {calls calls' : Calls} {answer : Answer}
    (hs : s.filtered = true) (hrows : s.state = .rows)
    (hn : s.nextRowChunk (h.reading f) calls = ((answer, t), calls')) :
    ∃ source rest, s.rows.HandsOut (h.reading f) source rest ∧ t.filtered = true ∧
      ((∃ r, source.filterMap (Row.part f) = [r] ∧ answer = .ok (some (rowText s.total r)) ∧
          t.rows = rest ∧ t.state = .rows ∧ t.total = s.total + 1) ∨
        (source.filterMap (Row.part f) = [] ∧ Ends s.total answer ∧ t.state = .done ∧
          t.total = s.total)) := by
  -- A row of which nothing is shown is passed over within the request, which is where the induction
  -- is used. All other cases answer it.
  fun_induction nextRowChunk (h.reading f) s calls with
  | case1 s _ e rows _ _ =>
    cases hn
    exact ⟨[], _, .nothing _, hs, .inr ⟨rfl, .inr (.inr ⟨e, rfl⟩), rfl, rfl⟩⟩
  | case2 s _ rows _ _ =>
    cases hn
    refine ⟨[], _, .nothing _, hs, .inr ⟨rfl, ?_, rfl, rfl⟩⟩
    cases rows.close.1 with
    | error e => exact .inr (.inr ⟨e, rfl⟩)
    | ok _ => exact .inl rfl
  | case3 s _ row rows calls hr shown _ hp =>
    cases hn
    have hpart : row.part f = some shown := by
      rw [← shownPart_eq hs row calls, hp]
    refine ⟨[row], rows, .row hr (.nothing _), hs, .inl ⟨shown, ?_, rfl, rfl, hrows, rfl⟩⟩
    simp [hpart]
  | case4 s _ row rows calls hr _ hp ih =>
    have hpart : row.part f = none := by
      rw [← shownPart_eq hs row calls, hp]
    obtain ⟨source, rest, hsource, ht, hcases⟩ := ih hs hrows hn
    refine ⟨row :: source, rest, .row hr hsource, ht, ?_⟩
    rw [List.filterMap_cons, hpart]
    exact hcases

theorem nextChunk_rows {s : DocumentStream} (hs : s.state = .rows) (calls : Calls) :
    s.nextChunk h calls = s.nextRowChunk h calls := by
  rw [nextChunk, hs]

theorem requests_succ {s t : DocumentStream} {calls calls' : Calls} {answer : Answer}
    (hn : s.nextChunk h calls = ((answer, t), calls')) (n : Nat) :
    requests h (n + 1) s calls =
      ((answer :: (requests h n t calls').1.1, (requests h n t calls').1.2),
        (requests h n t calls').2) := by
  rw [requests, Hosted.bind_apply, hn]
  rfl

/-- Behind the end there are no pieces. -/
theorem requests_done {s : DocumentStream} (hs : s.state = .done) (n : Nat) (calls : Calls) :
    requests h n s calls = ((List.replicate n (.ok none), s), calls) := by
  induction n with
  | zero => rfl
  | succ n ih =>
    have hnext : s.nextChunk h calls = ((.ok none, s), calls) := by
      rw [nextChunk, hs]
      rfl
    rw [requests_succ hnext, ih]
    rfl

/-- Any number of requests for rows: the shown parts of the rows that the result hands out, and then
the end. -/
theorem requests_shows (n : Nat) {s : DocumentStream} (hs : s.filtered = true)
    (hrows : s.state = .rows) (calls : Calls) :
    ∃ source rest shown ending, s.rows.HandsOut (h.reading f) source rest ∧
      shown = source.filterMap (Row.part f) ∧
      (requests (h.reading f) n s calls).1.1 = rowChunks s.total shown ++ ending ∧
      (∀ answer ∈ ending, Ends (s.total + shown.length) answer) ∧
      (requests (h.reading f) n s calls).1.2.total = s.total + shown.length := by
  -- Every request starts where the one before left the document, with the rows shown so far counted
  -- in its total.
  induction n generalizing s calls with
  | zero => exact ⟨[], s.rows, [], [], .nothing _, rfl, rfl, by simp, rfl⟩
  | succ n ih =>
    rcases hn : s.nextRowChunk (h.reading f) calls with ⟨⟨answer, t⟩, calls'⟩
    obtain ⟨source, rest, hsource, ht, hcases⟩ := nextRowChunk_shows hs hrows hn
    rw [← nextChunk_rows hrows] at hn
    rw [requests_succ hn]
    rcases hcases with ⟨r, hr, rfl, rfl, htrows, htotal⟩ | ⟨hnone, hends, hdone, htotal⟩
    · obtain ⟨source', rest', shown, ending, hsource', hshown, hanswers, hending, htotal'⟩ :=
        ih ht htrows calls'
      rw [htotal] at hanswers hending htotal'
      have hlength : s.total + 1 + shown.length = s.total + (r :: shown).length := by
        simp only [List.length_cons]
        omega
      rw [hlength] at hending htotal'
      refine ⟨source ++ source', rest', r :: shown, ending, hsource.append hsource', ?_, ?_,
        hending, htotal'⟩
      · rw [List.filterMap_append, hr, hshown]
        rfl
      · rw [hanswers]
        rfl
    · rw [requests_done hdone]
      refine ⟨source, rest, [], _, hsource, hnone.symm, rfl, fun answer' h => ?_, htotal⟩
      rcases List.mem_cons.1 h with rfl | h
      · exact hends
      · exact .inr (.inl (List.eq_of_mem_replicate h))

end DocumentStream

/-! ## Filtered documents -/

open DocumentStream in
/-- The pieces of a filtered document are its head, the shown parts of the rows that the result
hands out, and then the foot with their number or an error. In each of these parts, the rows that
are asked for may be read. All items in it may be read exactly if all items below these may. -/
theorem filtered_shows (h : Host) (f : RepoPath → Bool) (rows : ResultSet) (n : Nat)
    (calls : Calls) :
    ∃ source rest shown ending answers s, rows.HandsOut (h.reading f) source rest ∧
      shown = source.filterMap (Row.part f) ∧
      (requests (h.reading f) (n + 1) { rows, filtered := true } calls).1 = (answers, s) ∧
      answers = .ok (some headText) :: rowChunks 0 shown ++ ending ∧
      (∀ answer ∈ ending, Ends shown.length answer) ∧ s.total = shown.length ∧
      ∀ r ∈ shown, (∀ c ∈ r.asked, c.permitted f) ∧
        (r.AllPermitted f ↔ ∀ c ∈ r.asked, ∀ d ∈ c.children, d.AllPermitted f) := by
  obtain ⟨source, rest, shown, ending, hsource, hshown, hanswers, hending, htotal⟩ :=
    requests_shows (h := h) (f := f) n (s := { rows, filtered := true, state := .rows }) rfl rfl
      calls
  rw [Nat.zero_add] at hending htotal
  refine ⟨source, rest, shown, ending, _, _, hsource, hshown, rfl, ?_, hending, htotal,
    fun r hr => ?_⟩
  · exact congrArg (Except.ok (some headText) :: ·) hanswers
  · rw [hshown] at hr
    obtain ⟨source', -, hpart⟩ := List.mem_filterMap.1 hr
    have hasked : ∀ c ∈ r.asked, c.permitted f := Row.permitted_of_part hpart
    exact ⟨hasked, Row.allPermitted_iff_asked hasked⟩

/-- A host that has no rows. -/
def Host.idle : Host where
  execute _ _ _ := .ok (.ofRows [])

/-- The row of an item with a repository, a folder and a name. -/
def Row.ofItem (repo folder name : String) (children : List Row) : Row where
  domain := .items
  values := [(.itemRepo, .text repo), (.itemPath, .text folder), (.itemName, .text name)]
  children := children

/-- An item of one repository, and in its archive an item of another one. -/
def Row.itemInArchive : Row :=
  .ofItem "libs" "." "a.jar"
    [{ domain := .archives, children := [.ofItem "secret" "." "b.jar" []] }]

open DocumentStream in
/-- Only the repository of the outer item may be read, but its row is shown as it is. -/
theorem not_allPermitted_itemInArchive :
    (requests (Host.idle.reading fun p => p.repo = "libs") 3
        { rows := .eager ⟨.items, [Row.itemInArchive]⟩, filtered := true } []).1.1 =
      [.ok (some headText), .ok (some (rowText 0 Row.itemInArchive)), .ok (some (footText 1))] ∧
    ¬ Row.itemInArchive.AllPermitted fun p => p.repo = "libs" := by
  constructor
  · have hhead : (DocumentStream.mk (.eager ⟨.items, [Row.itemInArchive]⟩) true .head 0).nextChunk
        (Host.idle.reading fun p => p.repo = "libs") [] =
          ((.ok (some headText), ⟨.eager ⟨.items, [Row.itemInArchive]⟩, true, .rows, 0⟩), []) := rfl
    have hrow : (DocumentStream.mk (.eager ⟨.items, [Row.itemInArchive]⟩) true .rows 0).nextChunk
        (Host.idle.reading fun p => p.repo = "libs") [] =
          ((.ok (some (rowText 0 Row.itemInArchive)),
            ⟨.eager ⟨.items, []⟩, true, .rows, 1⟩), [.canRead ⟨"libs", "a.jar"⟩]) := by
      rw [nextChunk_rows rfl, nextRowChunk]
      rfl
    have hfoot : (DocumentStream.mk (.eager ⟨.items, []⟩) true .rows 1).nextChunk
        (Host.idle.reading fun p => p.repo = "libs") [.canRead ⟨"libs", "a.jar"⟩] =
          ((.ok (some (footText 1)), ⟨.eager ⟨.items, []⟩, true, .done, 1⟩),
            [.canRead ⟨"libs", "a.jar"⟩]) := by
      rw [nextChunk_rows rfl, nextRowChunk]
      rfl
    rw [requests_succ hhead, requests_succ hrow, requests_succ hfoot]
    rfl
  -- The inner item stands two levels below the row, where nobody asks for it.
  · intro hall
    have hsecret := hall (.ofItem "secret" "." "b.jar" [])
      (.child (List.mem_singleton_self _) (.child (List.mem_singleton_self _) (.self _)))
    revert hsecret
    decide

end ArtifactQuery
