import ArtifactQuery.Proofs.ClosedCursors

/-!
# Documents written piece by piece

The pieces of a document, put together, are the text of the document as a whole, in which the rows
stand that the filter leaves.

* `ResultSet.Passes`: the rows that a result hands out, and the parts of them that are shown.
* `ResultSet.EndsIn`: how a result comes to its end.
* `joined_rowChunks`, `joined_document`: pieces put together.
* `requests_of_passes`, `requests_of_endsIn`: the answers to any number of requests for pieces.
* `writeTo_of_requests`, `writeTo_document`: writing them to a sink.
* `streamed_exact`: the pieces, their text, and the number of rows.
-/

namespace ArtifactQuery

/-! ## What a document is made of -/

namespace ResultSet

/-- The rows that a result hands out one after the other, and what is shown of them. A filter asks
the host for each row before the next one is pulled. -/
inductive Passes (h : Host) (filtered : Bool) :
    ResultSet → Calls → List Row → List Row → ResultSet → Calls → Prop
  | nothing (r : ResultSet) (calls : Calls) : Passes h filtered r calls [] [] r calls
  | dropped {r s t : ResultSet} {calls mid later final : Calls} {row : Row} {source kept : List Row}
      (hn : r.next h calls = ((some (.ok row), s), mid))
      (hp : (if filtered then row.readable h mid else (some row, mid)) = (none, later))
      (hs : Passes h filtered s later source kept t final) :
      Passes h filtered r calls (row :: source) kept t final
  | shown {r s t : ResultSet} {calls mid later final : Calls} {row part : Row}
      {source kept : List Row} (hn : r.next h calls = ((some (.ok row), s), mid))
      (hp : (if filtered then row.readable h mid else (some row, mid)) = (some part, later))
      (hs : Passes h filtered s later source kept t final) :
      Passes h filtered r calls (row :: source) (part :: kept) t final

/-- How a result comes to its end: there are no more rows, and closing tells the outcome, or reading
fails. -/
inductive EndsIn (h : Host) (r : ResultSet) (calls : Calls) : Except RunError Unit → Prop
  | closed {s : ResultSet} {final : Calls} {outcome : Except RunError Unit}
      (hn : r.next h calls = ((none, s), final)) (hc : s.close.1 = outcome) :
      EndsIn h r calls outcome
  | failed {s : ResultSet} {final : Calls} {e : RunError}
      (hn : r.next h calls = ((some (.error e), s), final)) : EndsIn h r calls (.error e)

variable {h : Host} {filtered : Bool} {r s : ResultSet} {calls final : Calls}
  {source kept : List Row}

/-- Every result comes to an end. -/
theorem exists_passes (h : Host) (filtered : Bool) (r : ResultSet) (calls : Calls) :
    ∃ source kept s final outcome, r.Passes h filtered calls source kept s final ∧
      s.EndsIn h final outcome := by
  generalize hwork : r.work = n
  induction n using Nat.strongRecOn generalizing r calls with
  | ind n ih =>
    rcases hn : r.next h calls with ⟨⟨_ | e | row, s⟩, mid⟩
    · exact ⟨[], [], r, calls, _, .nothing r calls, .closed hn rfl⟩
    · exact ⟨[], [], r, calls, _, .nothing r calls, .failed hn⟩
    · have hless : s.work < n := hwork ▸ next_work hn
      rcases hp : (if filtered then row.readable h mid else (some row, mid)) with ⟨_ | part, later⟩
      · obtain ⟨source, kept, t, final, outcome, hs, hend⟩ := ih _ hless s later rfl
        exact ⟨_, _, t, final, outcome, .dropped hn hp hs, hend⟩
      · obtain ⟨source, kept, t, final, outcome, hs, hend⟩ := ih _ hless s later rfl
        exact ⟨_, _, t, final, outcome, .shown hn hp hs, hend⟩

/-- Without a filter all rows are shown as they are. -/
theorem Passes.unfiltered (hp : r.Passes h false calls source kept s final) : kept = source := by
  generalize hfiltered : false = filtered at hp
  induction hp with
  | nothing => rfl
  | dropped _ hpart =>
    subst hfiltered
    cases hpart
  | shown _ hpart _ ih =>
    subst hfiltered
    cases hpart
    rw [ih]

/-- The rows of a result at hand are handed out one after the other, and there is no error. -/
theorem Passes.rows_eager {x : EagerResult} {outcome : Except RunError Unit}
    (hp : (eager x).Passes h filtered calls source kept s final) (hend : s.EndsIn h final outcome) :
    source = x.rows ∧ outcome = .ok () := by
  generalize hx : eager x = r at hp
  induction hp generalizing x with
  | nothing =>
    subst hx
    obtain ⟨d, _ | ⟨row, rest⟩⟩ := x
    · cases hend with
      | closed hn hc =>
        cases hn
        exact ⟨rfl, hc.symm⟩
      | failed hn => cases hn
    · cases hend with
      | closed hn _ => cases hn
      | failed hn => cases hn
  | dropped hn _ _ ih | shown hn _ _ ih =>
    subst hx
    obtain ⟨d, _ | ⟨row, rest⟩⟩ := x
    · cases hn
    · cases hn
      obtain ⟨hrest, houtcome⟩ := ih hend rfl
      exact ⟨congrArg (_ :: ·) hrest, houtcome⟩

/-- With a filter that looks at the place of an item only, the parts are those of `Row.part`. -/
theorem Passes.keptParts {f : RepoPath → Bool}
    (hp : r.Passes (h.reading f) true calls source kept s final) :
    kept = source.filterMap (Row.part f) := by
  generalize hfiltered : true = filtered at hp
  induction hp with
  | nothing => rfl
  | @dropped r s t calls mid later final row source kept _ hpart _ ih =>
    subst hfiltered
    have hnone : row.part f = none := by
      rw [← Row.readable_eq (h := h) row mid]
      exact congrArg Prod.fst hpart
    rw [List.filterMap_cons_none hnone, ih]
  | @shown r s t calls mid later final row part source kept _ hpart _ ih =>
    subst hfiltered
    have hsome : row.part f = some part := by
      rw [← Row.readable_eq (h := h) row mid]
      exact congrArg Prod.fst hpart
    rw [List.filterMap_cons_some hsome, ih]

end ResultSet

/-- Whether a sink takes every piece, and all that it has taken arrives. -/
def Sink.TakesAll (k : Sink) : Prop :=
  (∀ taken chunk, k.accepts taken chunk = true) ∧ ∀ taken, k.flushes taken = true

namespace DocumentStream

/-! ## Pieces put together -/

/-- The pieces put together, up to the first answer that is none. -/
def joined : List Answer → String
  | .ok (some chunk) :: answers => chunk ++ joined answers
  | _ => ""

/-- Pieces of rows, put together, are the items of an array. -/
theorem joined_rowChunks (n : Nat) (rs : List Row) (answers : List Answer) :
    joined (rowChunks n rs ++ answers) =
      Json.compactItems (if n = 0 then "" else ",") (rs.map Row.json) ++ joined answers := by
  induction rs generalizing n with
  | nil => simp [rowChunks, Json.compactItems]
  | cons r rs ih =>
    simp only [rowChunks, List.cons_append, joined, ih, rowText, List.map_cons, Json.compactItems,
      Nat.succ_ne_zero, if_false, String.append_assoc]

/-- Head, rows and foot, put together, are the text of the rows as a document. -/
theorem joined_document (d : Domain) (rs : List Row) (n : Nat) :
    joined (.ok (some headText) :: rowChunks 0 rs ++
        .ok (some (footText rs.length)) :: List.replicate n (.ok none)) =
      (EagerResult.mk d rs).json.compact := by
  have hnone : joined (List.replicate n (.ok none)) = "" := by
    cases n <;> rfl
  have hresults : Json.quote "results" = "\"results\"" := by decide +kernel
  have htotal : Json.quote "total" = "\"total\"" := by decide +kernel
  have hnumber : toString (rs.length : Int) = toString rs.length := rfl
  rw [List.cons_append, joined, joined_rowChunks, joined, hnone, if_pos rfl]
  simp only [EagerResult.json, Json.compact, Json.compactEntries, hresults, htotal, hnumber,
    headText, footText]
  rw [← String.toList_inj]
  simp

/-- The texts of the pieces of a document. -/
def pieceTexts (rs : List Row) : List String :=
  headText :: (rs.zipIdx.map fun r => rowText r.2 r.1) ++ [footText rs.length]

/-- Pieces of rows are never errors. -/
theorem rowChunks_eq (n : Nat) (rs : List Row) : rowChunks n rs =
    ((rs.zipIdx n).map fun r => rowText r.2 r.1).map fun chunk => .ok (some chunk) := by
  induction rs generalizing n with
  | nil => rfl
  | cons r rs ih =>
    rw [rowChunks, ih, List.zipIdx_cons]
    rfl

theorem answers_pieceTexts (rs : List Row) :
    .ok (some headText) :: rowChunks 0 rs ++ [.ok (some (footText rs.length))] =
      (pieceTexts rs).map fun chunk => .ok (some chunk) := by
  rw [rowChunks_eq, pieceTexts, List.map_append]
  rfl

theorem length_pieceTexts (rs : List Row) : (pieceTexts rs).length = rs.length + 2 := by
  simp [pieceTexts]

/-- A foot starts with a bracket, unlike the piece of a row. -/
theorem footText_ne_rowText (m n : Nat) (r : Row) : footText m ≠ rowText n r := by
  obtain ⟨d, vs, cs⟩ := r
  intro heq
  have hfirst := congrArg (·.toList.head?) heq
  by_cases hn : n = 0
  · simp [footText, rowText, Row.json, Json.compact, hn] at hfirst
  · simp [footText, rowText, hn] at hfirst

/-- Nor is it a head. -/
theorem footText_ne_headText (m : Nat) : footText m ≠ headText := by
  intro heq
  have hfirst := congrArg (·.toList.head?) heq
  simp [footText, headText] at hfirst

/-! ## Requests -/

variable {h : Host} {filtered : Bool} {rows last : ResultSet} {calls mid later final : Calls}
  {source kept : List Row} {total : Nat}

/-- A row of which nothing is shown is passed over. -/
theorem nextRowChunk_of_dropped {s : DocumentStream} {row : Row}
    (hn : s.rows.next h calls = ((some (.ok row), rows), mid))
    (hp : s.shownPart h row mid = (none, later)) :
    s.nextRowChunk h calls = nextRowChunk h { s with rows := rows } later := by
  fun_cases nextRowChunk h s calls with
  | case1 _ _ _ hn' => cases hn.symm.trans hn'
  | case2 _ _ hn' => cases hn.symm.trans hn'
  | case3 _ _ _ hn' _ _ hp' =>
    cases hn.symm.trans hn'
    cases hp.symm.trans hp'
  | case4 _ _ _ hn' _ hp' =>
    cases hn.symm.trans hn'
    cases hp.symm.trans hp'
    rfl

/-- The shown part of a row is a piece. -/
theorem nextRowChunk_of_shown {s : DocumentStream} {row part : Row}
    (hn : s.rows.next h calls = ((some (.ok row), rows), mid))
    (hp : s.shownPart h row mid = (some part, later)) : s.nextRowChunk h calls =
      ((.ok (some (rowText s.total part)), { s with rows := rows, total := s.total + 1 }),
        later) := by
  fun_cases nextRowChunk h s calls with
  | case1 _ _ _ hn' => cases hn.symm.trans hn'
  | case2 _ _ hn' => cases hn.symm.trans hn'
  | case3 _ _ _ hn' _ _ hp' =>
    cases hn.symm.trans hn'
    cases hp.symm.trans hp'
    rfl
  | case4 _ _ _ hn' _ hp' =>
    cases hn.symm.trans hn'
    cases hp.symm.trans hp'

/-- At the end of the result the foot is the last piece, or there is an error. -/
theorem nextRowChunk_of_endsIn {s : DocumentStream} {outcome : Except RunError Unit}
    (hend : s.rows.EndsIn h calls outcome) :
    ∃ t later, s.nextRowChunk h calls = ((outcome.map fun _ => some (footText s.total), t), later) ∧
      t.state = .done ∧ t.total = s.total := by
  fun_cases nextRowChunk h s calls with
  | case1 e _ _ hn' =>
    cases hend with
    | closed hn hc => cases hn.symm.trans hn'
    | failed hn =>
      cases hn.symm.trans hn'
      exact ⟨_, _, rfl, rfl, rfl⟩
  | case2 _ _ hn' =>
    cases hend with
    | closed hn hc =>
      cases hn.symm.trans hn'
      rw [hc]
      exact ⟨_, _, rfl, rfl, rfl⟩
    | failed hn => cases hn.symm.trans hn'
  | case3 _ _ _ hn' | case4 _ _ _ hn' =>
    cases hend with
    | closed hn hc => cases hn.symm.trans hn'
    | failed hn => cases hn.symm.trans hn'

/-- Requests for as many pieces as rows are shown, and more: the pieces of these rows, and what is
answered by the document that stands behind them. -/
theorem requests_of_passes (hp : rows.Passes h filtered calls source kept last mid) {n : Nat}
    {answers : List Answer} {t : DocumentStream}
    (hrest : requests h (n + 1) ⟨last, filtered, .rows, total + kept.length⟩ mid =
      ((answers, t), final)) :
    requests h (kept.length + (n + 1)) ⟨rows, filtered, .rows, total⟩ calls =
      ((rowChunks total kept ++ answers, t), final) := by
  -- The induction is on the rows that pass, with the number of rows before them left free: a row
  -- that is shown takes one request and counts as one, and a row that is dropped does neither.
  induction hp generalizing total with
  | nothing r calls => rwa [List.length_nil, Nat.zero_add]
  | @dropped r s t' calls mid later final' row source kept hn hpart _ ih =>
    -- The same request goes on to the next row, so it is not counted.
    have hskip : nextChunk h ⟨r, filtered, .rows, total⟩ calls =
        nextChunk h ⟨s, filtered, .rows, total⟩ later := by
      rw [nextChunk_rows rfl, nextChunk_rows rfl]
      refine nextRowChunk_of_dropped hn ?_
      rw [← hpart, shownPart]
      cases filtered <;> rfl
    have hsame : ∀ m, requests h (m + 1) ⟨r, filtered, .rows, total⟩ calls =
        requests h (m + 1) ⟨s, filtered, .rows, total⟩ later := by
      intro m
      rw [requests, Hosted.bind_apply, hskip]
      rfl
    rw [← Nat.add_assoc, hsame, Nat.add_assoc]
    exact ih hrest
  | @shown r s t' calls mid later final' row part source kept hn hpart _ ih =>
    have hpiece : nextChunk h ⟨r, filtered, .rows, total⟩ calls =
        ((.ok (some (rowText total part)), ⟨s, filtered, .rows, total + 1⟩), later) := by
      rw [nextChunk_rows rfl]
      refine nextRowChunk_of_shown hn ?_
      rw [← hpart, shownPart]
      cases filtered <;> rfl
    have hlength : total + (part :: kept).length = total + 1 + kept.length := by
      rw [List.length_cons]
      omega
    rw [hlength] at hrest
    have hcount : (part :: kept).length + (n + 1) = kept.length + (n + 1) + 1 := by
      rw [List.length_cons]
      omega
    rw [hcount, requests_succ hpiece, ih hrest]
    rfl

/-- Where the result ends, the foot or an error is answered, and nothing more. -/
theorem requests_of_endsIn {outcome : Except RunError Unit} (hend : last.EndsIn h mid outcome)
    (filtered : Bool) (total n : Nat) :
    ∃ t final, requests h (n + 1) ⟨last, filtered, .rows, total⟩ mid =
      (((outcome.map fun _ => some (footText total)) :: List.replicate n (.ok none), t), final) ∧
        t.total = total := by
  obtain ⟨t, later, hpiece, hdone, htotal⟩ :=
    nextRowChunk_of_endsIn (s := ⟨last, filtered, .rows, total⟩) hend
  rw [← nextChunk_rows rfl] at hpiece
  refine ⟨t, later, ?_, htotal⟩
  rw [requests_succ hpiece, requests_done hdone]

/-- The answers to requests for the pieces of a document and for more. -/
theorem requests_document (hp : rows.Passes h filtered calls source kept last mid)
    {outcome : Except RunError Unit} (hend : last.EndsIn h mid outcome) (n : Nat) :
    ∃ t final, requests h (kept.length + 2 + n) { rows, filtered } calls =
      ((.ok (some headText) :: rowChunks 0 kept ++
          (outcome.map fun _ => some (footText kept.length)) :: List.replicate n (.ok none), t),
        final) ∧ t.total = kept.length := by
  obtain ⟨t, final, hrest, htotal⟩ :=
    requests_of_endsIn hend filtered (0 + kept.length) n
  have hhead : nextChunk h { rows, filtered } calls =
      ((.ok (some headText), ⟨rows, filtered, .rows, 0⟩), calls) := rfl
  have hcount : kept.length + 2 + n = kept.length + (n + 1) + 1 := by omega
  refine ⟨t, final, ?_, by rw [htotal, Nat.zero_add]⟩
  rw [hcount, requests_succ hhead, requests_of_passes hp hrest, Nat.zero_add]
  rfl

/-! ## Writing -/

variable {k : Sink} {s t : DocumentStream}

/-- A piece that is taken arrives behind the others. -/
theorem writeTo_of_piece {chunk : String}
    (hn : s.nextChunk h calls = ((.ok (some chunk), t), later))
    (hk : k.accepts k.taken chunk = true) :
    s.writeTo h k calls = t.writeTo h { k with taken := k.taken ++ chunk } later := by
  fun_cases writeTo h s k calls with
  | case1 _ _ _ hn' => cases hn.symm.trans hn'
  | case2 _ _ hn' => cases hn.symm.trans hn'
  | case3 _ _ _ hn' _ =>
    cases hn.symm.trans hn'
    rfl
  | case4 _ _ _ hn' hk' =>
    cases hn.symm.trans hn'
    exact absurd hk hk'

/-- Behind the last piece the number of rows is returned. -/
theorem writeTo_of_none (hn : s.nextChunk h calls = ((.ok none, t), later))
    (hk : k.flushes k.taken = true) : s.writeTo h k calls = ((.ok t.total, t, k), later) := by
  fun_cases writeTo h s k calls with
  | case1 _ _ _ hn' => cases hn.symm.trans hn'
  | case2 _ _ hn' =>
    cases hn.symm.trans hn'
    rw [if_pos hk]
  | case3 _ _ _ hn' _ | case4 _ _ _ hn' _ => cases hn.symm.trans hn'

/-- What arrives in a sink that takes everything are the pieces put together, and the number of rows
is returned. -/
theorem writeTo_of_requests (hk : k.TakesAll) (pieces : List String)
    (hanswers : requests h (pieces.length + 1) s calls =
      ((pieces.map (fun chunk => .ok (some chunk)) ++ [.ok none], t), final)) :
    s.writeTo h k calls = ((.ok t.total, t,
      { k with taken := k.taken ++ joined (pieces.map fun chunk => .ok (some chunk)) }),
      final) := by
  induction pieces generalizing s k calls with
  | nil =>
    rcases hn : s.nextChunk h calls with ⟨⟨answer, u⟩, later⟩
    rw [List.length_nil, requests_succ hn] at hanswers
    cases hanswers
    rw [writeTo_of_none hn (hk.2 _)]
    simp [joined, requests, Hosted.pure_apply]
  | cons chunk pieces ih =>
    rcases hn : s.nextChunk h calls with ⟨⟨answer, u⟩, later⟩
    rw [List.length_cons, requests_succ hn, List.map_cons, List.cons_append] at hanswers
    obtain ⟨hboth, hfinal⟩ := Prod.mk.inj hanswers
    obtain ⟨hcons, ht⟩ := Prod.mk.inj hboth
    obtain ⟨rfl, hrest⟩ := List.cons.inj hcons
    have hwritten := ih (k := { k with taken := k.taken ++ chunk }) hk
      (show requests h (pieces.length + 1) u later = _ from Prod.ext (Prod.ext hrest ht) hfinal)
    rw [writeTo_of_piece hn (hk.1 _ _), hwritten, List.map_cons, joined, String.append_assoc]

/-- So a document is written as a whole, if its result ends without an error. -/
theorem writeTo_document (hp : rows.Passes h filtered calls source kept last mid)
    (hend : last.EndsIn h mid (.ok ())) (hk : k.TakesAll) :
    ∃ s final, writeTo h { rows, filtered } k calls = ((.ok kept.length, s,
      { k with taken := k.taken ++ (EagerResult.mk rows.domain kept).json.compact }), final) := by
  obtain ⟨t, final, hn, htotal⟩ := requests_document hp hend 1
  -- One request more than there are pieces, for the answer that nothing is left.
  have hanswers : .ok (some headText) :: rowChunks 0 kept ++
      [.ok (some (footText kept.length)), .ok none] =
        ((pieceTexts kept).map fun chunk => .ok (some chunk)) ++ [.ok none] := by
    rw [← answers_pieceTexts, List.append_assoc]
    rfl
  have hwritten := writeTo_of_requests hk (pieceTexts kept)
    (show requests h _ _ calls = _ by rw [length_pieceTexts, hn, ← hanswers]; rfl)
  have htext : joined ((pieceTexts kept).map fun chunk => .ok (some chunk)) =
      (EagerResult.mk rows.domain kept).json.compact := by
    rw [← answers_pieceTexts]
    exact joined_document rows.domain kept 0
  exact ⟨t, final, by rw [hwritten, htotal, htext]⟩

end DocumentStream

open DocumentStream in
/-- Every result hands out rows and comes to its end, and with or without a filter the pieces of its
document are the head, the rows that are shown, the foot or an error, and nothing more. If there is
no error, the pieces put together are the text of the shown rows as a result at hand, which arrives
in every sink that takes it, and their number is returned. If there is one, there is no foot.
Without a filter all rows are shown as they are. A filter that looks at the place of an item only
shows their parts. The rows of a result at hand are all handed out. -/
theorem streamed_exact (h : Host) (filtered : Bool) (rows : ResultSet) (calls : Calls) :
    (∃ source kept last mid outcome,
      rows.Passes h filtered calls source kept last mid ∧ last.EndsIn h mid outcome) ∧
    ∀ source kept last mid outcome, rows.Passes h filtered calls source kept last mid →
      last.EndsIn h mid outcome →
      (∀ n, (requests h (kept.length + 2 + n) { rows, filtered } calls).1.1 =
        .ok (some headText) :: rowChunks 0 kept ++
          (outcome.map fun _ => some (footText kept.length)) :: List.replicate n (.ok none)) ∧
      (outcome = .ok () →
        (∀ n, joined (requests h (kept.length + 2 + n) { rows, filtered } calls).1.1 =
          (EagerResult.mk rows.domain kept).json.compact) ∧
        ∀ k : Sink, k.TakesAll → ∃ s final, DocumentStream.writeTo h { rows, filtered } k calls =
          ((.ok kept.length, s, { k with
            taken := k.taken ++ (EagerResult.mk rows.domain kept).json.compact }), final)) ∧
      (outcome ≠ .ok () → ∀ n m, .ok (some (footText m)) ∉
        (requests h (kept.length + 2 + n) { rows, filtered } calls).1.1) ∧
      (filtered = false → kept = source) ∧
      (filtered = true → ∀ f, h = h.reading f → kept = source.filterMap (Row.part f)) ∧
      (∀ r, rows = .eager r → source = r.rows ∧ outcome = .ok ()) := by
  refine ⟨ResultSet.exists_passes h filtered rows calls,
    fun source kept last mid outcome hp hend => ?_⟩
  have hanswers (n : Nat) : (requests h (kept.length + 2 + n) { rows, filtered } calls).1.1 =
      .ok (some headText) :: rowChunks 0 kept ++
        (outcome.map fun _ => some (footText kept.length)) :: List.replicate n (.ok none) := by
    obtain ⟨t, final, hn, -⟩ := requests_document hp hend n
    rw [hn]
  refine ⟨hanswers, ?_, ?_, ?_, ?_, ?_⟩
  · rintro rfl
    refine ⟨fun n => ?_, fun k hk => ?_⟩
    · rw [hanswers]
      exact joined_document rows.domain kept n
    · exact writeTo_document hp hend hk
  · -- All pieces but a foot start with a brace or a comma.
    intro herror n m hfoot
    obtain ⟨e, rfl⟩ : ∃ e, outcome = .error e := by
      cases outcome with
      | error e => exact ⟨e, rfl⟩
      | ok _ => exact absurd rfl herror
    rw [hanswers, rowChunks_eq] at hfoot
    simp only [Except.map, List.mem_append, List.mem_cons, List.mem_map, List.mem_replicate,
      Except.ok.injEq, Option.some.injEq, reduceCtorEq, and_false, or_false] at hfoot
    rcases hfoot with hhead | ⟨chunk, ⟨r, -, rfl⟩, hrow⟩
    · exact footText_ne_headText m hhead
    · exact footText_ne_rowText m r.2 r.1 hrow.symm
  · rintro rfl
    exact hp.unfiltered
  -- A host that looks at places only shows the same part of a row at any time.
  · rintro rfl f hf
    rw [hf] at hp
    exact hp.keptParts
  · rintro r rfl
    exact hp.rows_eager hend

/-- Two items, of which only the second one lies in the repository `libs`. -/
def EagerResult.ofTwoItems : EagerResult where
  domain := .items
  rows := [.ofItem "secret" "." "b.jar" [], .ofItem "libs" "." "a.jar" []]

/-- A result at its end, where closing fails. -/
def LazyResult.stuck : LazyResult where
  plan := .bare
  cursor := { reads := [], closing := some .output }
  exhausted := true

/-- Reading that ends without a row ends the result. -/
theorem LazyResult.next_of_finished {h : Host} {r s : LazyResult} (hr : r.nextEntity = (none, s))
    (hopen : r.closed = false) (calls : Calls) : r.next h calls = ((none, s), calls) := by
  fun_cases next h r with
  | case1 hclosed => cases hopen.symm.trans hclosed
  | case2 _ _ _ hr' => cases hr.symm.trans hr'
  | case3 _ _ _ hr' => cases hr.symm.trans hr'
  | case4 _ _ hr' =>
    cases hr.symm.trans hr'
    rfl

theorem LazyResult.endsIn_stuck : ResultSet.EndsIn .failing (.lazy .stuck) [] (.error .output) := by
  have hentity : LazyResult.stuck.nextEntity = (none, .stuck) := by
    rw [nextEntity]
    rfl
  have hnext : ResultSet.next .failing (.lazy .stuck) [] = ((none, .lazy .stuck), []) := by
    rw [ResultSet.next, Hosted.bind_apply, next_of_finished hentity rfl]
    rfl
  exact .closed hnext rfl

open DocumentStream in
/-- The first of two items is passed over, so the second one stands there without a comma. Where
closing fails, there is a head and no foot. -/
theorem streamed_exact_ofTwoItems :
    (∃ s final, DocumentStream.writeTo (Host.idle.reading fun p => p.repo = "libs")
        { rows := .eager .ofTwoItems, filtered := true } {} [] =
      ((.ok 1, s, { taken := "\x7b\"results\":[\x7b\"name\":\"a.jar\",\"path\":\".\"," ++
        "\"repo\":\"libs\"\x7d],\"total\":1\x7d" }), final)) ∧
    (requests .failing 4 { rows := .lazy .stuck } []).1.1 =
      [.ok (some headText), .error .output, .ok none, .ok none] := by
  constructor
  · have hp : ResultSet.Passes (Host.idle.reading fun p => p.repo = "libs") true
        (.eager .ofTwoItems) [] EagerResult.ofTwoItems.rows [.ofItem "libs" "." "a.jar" []] _ _ :=
      .dropped rfl rfl (.shown rfl rfl (.nothing _ _))
    obtain ⟨-, hstreamed⟩ := streamed_exact (Host.idle.reading fun p => p.repo = "libs") true
      (.eager .ofTwoItems) []
    obtain ⟨-, hdocument, -⟩ := hstreamed _ _ _ _ _ hp (.closed rfl rfl)
    obtain ⟨s, final, hwritten⟩ := (hdocument rfl).2 {} ⟨fun _ _ => rfl, fun _ => rfl⟩
    have htext : (EagerResult.mk .items [.ofItem "libs" "." "a.jar" []]).json.compact =
        "\x7b\"results\":[\x7b\"name\":\"a.jar\",\"path\":\".\"," ++
          "\"repo\":\"libs\"\x7d],\"total\":1\x7d" := by
      decide +kernel
    exact ⟨s, final, hwritten.trans (by rw [← htext]; rfl)⟩
  · obtain ⟨-, hstreamed⟩ := streamed_exact .failing false (.lazy .stuck) []
    exact (hstreamed _ _ _ _ _ (.nothing _ _) LazyResult.endsIn_stuck).1 2

end ArtifactQuery
