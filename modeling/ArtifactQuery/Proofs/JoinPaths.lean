import ArtifactQuery.Proofs.Numbering
import ArtifactQuery.Proofs.StatementTexts
import Mathlib.Data.List.Infix

/-!
# Join paths of criteria

Where a criterion over several tables finds its rows: its condition is on the last occurrence of its
own walk, and the joins lead along this walk as long as no earlier hop has reached one of its
occurrences from elsewhere.

* `along_of_distinct`: a walk over different tables, with a number that belongs to no other walk, is
  joined as it is.
* `Query.selection_of_toStatement`: the joins that are read from the text of a statement.
* `joinedAlong_iff`: in the statement of a described query, a criterion is joined along its own walk
  exactly if each hop of it is the first hop, of all criteria in their order, to its occurrence.
* `not_joinedAlong_archiveInArchive`: a walk that passes a table twice and is not joined.
-/

namespace ArtifactQuery

open Sql

/-! ## Placed criteria -/

namespace Criterion

variable {d : Domain} {c : Criterion}

theorem Placed.chainOf_eq (h : c.Placed d) {t : Table} {ts : List Table}
    (hchain : chainOf c = t :: ts) : tableChain c.path c.leftTable.table = t :: ts := by
  rw [chainOf] at hchain
  cases ht : comparedTable? c with
  | none =>
    rw [ht] at hchain
    cases hchain
  | some t' =>
    rw [ht] at hchain
    rwa [← h.compares t' ht]

/-- A placed criterion over several tables has a number of its own. -/
theorem Placed.numbered' (h : c.Placed d) : Numbered c := by
  cases hchain : chainOf c with
  | nil =>
    left
    rw [hchain]
    exact Nat.zero_le _
  | cons t ts =>
    rcases h.numbered with hone | hid
    · left
      rw [hchain, ← h.chainOf_eq hchain]
      exact Nat.le_of_eq hone
    · exact .inr hid

/-- The walk of a placed criterion starts at the table of the domain. -/
theorem Placed.head_chainOf (h : c.Placed d) {t : Table} {ts : List Table}
    (hchain : chainOf c = t :: ts) : t = d.table := by
  have hhead : (tableChain c.path c.leftTable.table).head? = some t := by
    rw [h.chainOf_eq hchain]
    rfl
  obtain ⟨rest, hpath⟩ := List.head?_eq_some_iff.1 h.mainDomain
  rw [tableChain, hpath] at hhead
  split at hhead
  · cases hhead
    rfl
  · cases hhead
    rfl

end Criterion

/-! ## Walks over different tables -/

namespace Sql

theorem table_mem_of_mem_hops {id : Nat} {ts : List Table} :
    ∀ {a : Occurrence} {h : Hop}, h ∈ hops id a ts → h.target.table ∈ ts := by
  induction ts with
  | nil =>
    intro a h hmem
    cases hmem
  | cons t ts ih =>
    intro a h hmem
    rcases List.mem_cons.1 hmem with rfl | hmem
    · exact List.mem_cons_self
    · exact List.mem_cons_of_mem _ (ih hmem)

/-- A walk over different tables reaches each occurrence once. -/
theorem hop_eq_of_target_eq {id : Nat} {ts : List Table} (hts : ts.Nodup) :
    ∀ {a : Occurrence} {h h' : Hop}, h ∈ hops id a ts → h' ∈ hops id a ts →
      h.target = h'.target → h = h' := by
  induction ts with
  | nil =>
    intro a h h' hmem
    cases hmem
  | cons t ts ih =>
    obtain ⟨hnot, hts⟩ := List.nodup_cons.1 hts
    have hothers : ∀ {a : Occurrence} {h : Hop}, h ∈ hops id a ts → h.target ≠ ⟨t, id⟩ := by
      intro a h hmem htarget
      have htable := table_mem_of_mem_hops hmem
      rw [htarget] at htable
      exact hnot htable
    intro a h h' hmem hmem' htarget
    rcases List.mem_cons.1 hmem with rfl | hmem
    · rcases List.mem_cons.1 hmem' with rfl | hmem'
      · rfl
      · exact absurd htarget.symm (hothers hmem')
    · rcases List.mem_cons.1 hmem' with rfl | hmem'
      · exact absurd htarget (hothers hmem)
      · exact ih hts hmem hmem' htarget

/-- The hops along the first of some tables. -/
theorem hops_subset_of_prefix {id : Nat} {ts ts' : List Table} (h : ts' <+: ts) :
    ∀ a, hops id a ts' ⊆ hops id a ts := by
  induction ts' generalizing ts with
  | nil =>
    intro a h hmem
    cases hmem
  | cons t ts' ih =>
    obtain ⟨rest, rfl⟩ := h
    intro a
    exact List.cons_subset_cons _ (ih (List.prefix_append ts' rest) _)

/-- The hops of a criterion are those along its tables, as far as they are joined. -/
theorem hopsOf_subset (main : Occurrence) (c : Criterion) :
    hopsOf main c ⊆ hops c.leftTable.id main ((chainOf c).drop 1) := by
  refine hops_subset_of_prefix ?_ main
  split
  · exact List.IsPrefix.drop (List.dropLast_prefix _) 1
  · exact List.prefix_refl _

/-- Each hop of a walk over different tables is the first to its end, if all walks with its number
go along the same tables. -/
theorem firstHop?_of_distinct {main : Occurrence} {es : List Element} {c : Criterion}
    {t : Table} {ts : List Table} (hc : .criterion c ∈ es) (hchain : chainOf c = t :: ts)
    (hdenies : ¬ DeniesProperty c) (hts : ts.Nodup)
    (hsame : ∀ c', .criterion c' ∈ es → c'.leftTable.id = c.leftTable.id →
      1 < (chainOf c').length → chainOf c' = chainOf c) :
    ∀ h ∈ hops c.leftTable.id main ts,
      firstHop? (Selection.hopsOfAll main es) h.target = some h := by
  intro h hmem
  have hown : hopsOf main c = hops c.leftTable.id main ts := by
    rw [hopsOf, if_neg hdenies, hchain]
    rfl
  have hall : h ∈ Selection.hopsOfAll main es :=
    List.mem_flatMap.2 ⟨c, List.mem_filterMap.2 ⟨_, hc, rfl⟩, by rwa [hown]⟩
  cases hfirst : firstHop? (Selection.hopsOfAll main es) h.target with
  | none =>
    have hnot := List.find?_eq_none.1 hfirst h hall
    exact absurd (decide_eq_true rfl) hnot
  -- Another first hop would be of a criterion with the same number, whose walk is the same one. A
  -- walk over different tables enters each of them once.
  | some h' =>
    have htarget := target_of_firstHop? hfirst
    obtain ⟨c', hc', hmem'⟩ := List.mem_flatMap.1 (List.mem_of_find?_eq_some hfirst)
    obtain ⟨e, he, hcriterion⟩ := List.mem_filterMap.1 hc'
    have hid : c'.leftTable.id = c.leftTable.id := by
      rw [← target_id_of_mem_hops (hopsOf_subset main c' hmem'), htarget,
        target_id_of_mem_hops hmem]
    have hlong : 1 < (chainOf c').length := by
      by_contra hlen
      rw [hopsOf_of_length_le_one (Nat.not_lt.1 hlen)] at hmem'
      cases hmem'
    have he' : e = .criterion c' := by
      cases e <;> cases hcriterion
      rfl
    have hmem'' := hopsOf_subset main c' hmem'
    rw [hid, hsame c' (he' ▸ he) hid hlong, hchain] at hmem''
    rw [hop_eq_of_target_eq hts hmem'' hmem htarget]

end Sql

/-! ## The text of a statement -/

namespace Sql

/-- Whether a text stands in another one. -/
def Within (inner outer : String) : Prop := ∃ front back, outer = front ++ inner ++ back

namespace Within

variable {s t u : String}

theorem refl (s : String) : Within s s := ⟨"", "", by rw [String.empty_append, String.append_empty]⟩

theorem append (h : Within s t) (u : String) : Within s (t ++ u) := by
  obtain ⟨front, back, rfl⟩ := h
  exact ⟨front, back ++ u, String.append_assoc⟩

theorem prepend (h : Within s t) (u : String) : Within s (u ++ t) := by
  obtain ⟨front, back, rfl⟩ := h
  exact ⟨u ++ front, back, by rw [← String.append_assoc, ← String.append_assoc]⟩

theorem trans (h : Within s t) (h' : Within t u) : Within s u := by
  obtain ⟨front, back, rfl⟩ := h'
  exact (h.prepend front).append back

end Within

/-- The window of a statement goes around it. -/
theorem Window.within_around (w : Window) (base : String) : Within base (w.around base) := by
  have hbase := Within.refl base
  cases w with
  | offsetFetch o n =>
    cases n with
    | none => exact ((hbase.append _).append _).append _
    | some n => exact ((((hbase.append _).append _).append _).append _).append _
  | limitPair o n => exact (((hbase.append _).append _).append _).append _
  | rowNum skipped last => exact ((((hbase.prepend _).append _).append _).append _).append _
  | limitOffset n o =>
    cases n with
    | none => exact (hbase.append _).append _
    | some n => exact (((hbase.append _).append _).append _).append _
  | rowNumber order first stop => exact ((((hbase.prepend _).append _).append _).append _).append _

/-- The tables of a statement stand behind its `from`. -/
theorem SelectParts.within_written {p : SelectParts} {d : Dialect} {sql : String}
    (h : p.written d = .ok sql) : Within (" from " ++ trim p.tables) sql := by
  have hbase : Within (" from " ++ trim p.tables) (p.base d) := by
    have hfrom : ∀ s : String, Within (" from " ++ trim p.tables)
        (s ++ " from " ++ trim p.tables) := fun s => by
      rw [String.append_assoc]
      exact (Within.refl _).prepend s
    exact ((((hfrom _).append _).append _).append _).append _
  rw [written] at h
  split at h
  · cases h
  split at h
  · cases h
    exact hbase.trans (Window.within_around _ _)
  · cases h
    exact hbase

end Sql

/-- A statement is the text of a selection, whose joins stand behind its `from`. What is read from
its words are the joins of the selection, each from the words that `Join.tokens_written` lists. -/
theorem Query.selection_of_toStatement {q : Query} {d : Dialect} {st : Sql.Statement}
    (h : q.toStatement d = .ok st) :
    ∃ sel, Selection.ofQuery q = .ok sel ∧
      Within (" from " ++ trim sel.joins.written) st.sql ∧
      ∃ a, readStatement? d (tokens st.sql) = some (sel.head, a) := by
  obtain ⟨sel, hsel, -, -, hread⟩ := read_toStatement h
  rw [toStatement, hsel, ok_bind] at h
  obtain ⟨sql, hsql, h⟩ := bind_eq_ok.1 h
  have hst := Except.ok.inj h
  have hwithin := SelectParts.within_written hsql
  rw [← hst] at hread ⊢
  exact ⟨sel, hsel, hwithin, _, hread⟩

/-! ## Criteria in a statement -/

/-- In the statement of a query as described, under any policies and in any dialect, a criterion
over several tables that denies no property becomes a condition on the last occurrence of its own
walk from the main table. The joins that are read from its text, behind `from`, lead along this walk
exactly if each hop of it is the first hop to its occurrence among those of all criteria in their
order. They do if the walk passes different tables and all walks with its number go along the same
ones. -/
theorem joinedAlong_iff {now : Int} {q₀ : Query} (hq₀ : q₀.Described now) (s : Surroundings)
    (ps : List Policy) (d : Dialect) {q : Query} (hq : q = (q₀.decorate s ps).tuned d)
    {st : Sql.Statement} (hst : q.toStatement d = .ok st) :
    ∃ sel, Selection.ofQuery q = .ok sel ∧ Within (" from " ++ trim sel.joins.written) st.sql ∧
      (∃ a, readStatement? d (tokens st.sql) = some (sel.head, a)) ∧
      ∀ (i : Nat) c t ts, q.elements[i]? = some (.criterion c) → chainOf c = t :: ts →
        ∀ hts : ts ≠ [], ¬ DeniesProperty c →
          sel.joins.main = .plain t ∧ t = q.domain.table ∧
          (∃ k, sel.condition[i]? = some (.condition k) ∧
            c.render ⟨ts.getLast hts, c.leftTable.id⟩ none = .ok k) ∧
          (JoinsAlong sel.head.joins t (Occurrence.plain t).name ts
              (Occurrence.mk (ts.getLast hts) c.leftTable.id).name ↔
            Along sel.joins.joins (.plain t) ts ⟨ts.getLast hts, c.leftTable.id⟩) ∧
          (Along sel.joins.joins (.plain t) ts ⟨ts.getLast hts, c.leftTable.id⟩ ↔
            ∀ h ∈ hops c.leftTable.id (.plain t) ts,
              firstHop? (Selection.hopsOfAll (.plain t) q.elements) h.target = some h) ∧
          (ts.Nodup → (∀ c', .criterion c' ∈ q.elements → c'.leftTable.id = c.leftTable.id →
              1 < (chainOf c').length → chainOf c' = chainOf c) →
            Along sel.joins.joins (.plain t) ts ⟨ts.getLast hts, c.leftTable.id⟩) := by
  have hdomain : q.domain = q₀.domain := by
    rw [hq, Query.tuned_domain, Query.decorate_domain]
  have hplaced : ∀ c ∈ q.criteria, c.Placed q.domain := by
    rw [hdomain, hq]
    exact Query.placed_of_mem_compiled hq₀.placed s ps d
  obtain ⟨sel, hsel, hwithin, hread⟩ := Query.selection_of_toStatement hst
  obtain ⟨hmain, hfollows, hrenders⟩ :=
    Selection.follows_ofQuery (fun c hc => (hplaced c hc).numbered') hsel
  refine ⟨sel, hsel, hwithin, hread, fun i c t ts hi hchain hts hdenies => ?_⟩
  have hmem : Element.criterion c ∈ q.elements := List.mem_of_getElem? hi
  have hc := hplaced c (List.mem_filterMap.2 ⟨_, hmem, rfl⟩)
  have ht := hc.head_chainOf hchain
  -- A walk over several tables takes a dynamic number, so none of its occurrences is shared with a
  -- result field.
  have hid : firstDynamicId ≤ c.leftTable.id := by
    refine hc.numbered'.resolve_left fun hlen => ?_
    rw [hchain, List.length_cons] at hlen
    exact hts (List.length_eq_zero_iff.1 (by omega))
  have halong := along_iff hfollows hid (hmain ▸ fun h => source_of_mem_hopsOfAll) ts
  rw [hmain, ← ht, hopsEnd_eq hts] at halong
  refine ⟨by rw [hmain, ht], ht, ?_, joinsAlong_listed (a := .plain t), halong,
    fun hnodup hsame => halong.2 ?_⟩
  · obtain ⟨piece, hpiece, hrender⟩ := Selection.exists_piece hrenders hi
    obtain ⟨k, rfl, hk⟩ := hrender c t ts rfl hchain hts hdenies
    rw [hopsEnd_eq hts] at hk
    exact ⟨k, hpiece, hk⟩
  · exact firstHop?_of_distinct hmem hchain hdenies hnodup hsame

/-- Builds that made something stored in a repository. -/
def FluentQuery.builtInto : FluentQuery where
  domain := .builds
  filters := [.test ⟨"module.artifact.item.repo", .equals, .text "libs"⟩]
  includes := ["name"]

theorem joinedAlong_iff_builtInto :
    ∃ q₀ st sel, Query.ofFluent 0 .builtInto = .ok q₀ ∧
      ((q₀.decorate {} Policy.all).tuned .oracle).toStatement .oracle = .ok st ∧
      Selection.ofQuery ((q₀.decorate {} Policy.all).tuned .oracle) = .ok sel ∧
      Along sel.joins.joins (.plain .builds) [.buildModules, .buildArtifacts, .nodes]
        ⟨.nodes, 100⟩ := by
  have hcompiles : (Query.ofFluent 0 .builtInto >>= fun q =>
      ((q.decorate {} Policy.all).tuned .oracle).toStatement .oracle).toOption.isSome := by
    decide +kernel
  obtain ⟨q₀, hq₀⟩ : ∃ q₀, Query.ofFluent 0 .builtInto = .ok q₀ := ⟨_, rfl⟩
  rw [hq₀, ok_bind] at hcompiles
  cases hst : ((q₀.decorate {} Policy.all).tuned .oracle).toStatement .oracle with
  | error e =>
    rw [hst] at hcompiles
    cases hcompiles
  | ok st =>
    obtain ⟨sel, hsel, -, -, hall⟩ :=
      joinedAlong_iff (.fluent .builtInto hq₀) {} Policy.all .oracle rfl hst
    refine ⟨q₀, st, sel, hq₀, hst, hsel, ?_⟩
    cases hq₀
    obtain ⟨-, -, -, -, -, halong⟩ :=
      hall 0 _ _ _ rfl rfl (List.cons_ne_nil _ _) (by decide)
    refine halong (by decide) fun c' hc' _ _ => ?_
    cases List.mem_singleton.1 hc'
    rfl

/-- Archives that hold an item which is in an archive again. -/
def FluentQuery.archiveInArchive : FluentQuery where
  domain := .items
  filters := [.test ⟨"archive.item.archive.item.name", .equals, .text "x"⟩]
  includes := ["name"]

/-- A walk that passes tables twice ends on an occurrence that belongs to a shorter walk: no joins
lead along it. -/
theorem not_joinedAlong_archiveInArchive :
    ∃ q sel c t ts, Query.ofFluent 0 .archiveInArchive = .ok q ∧
      Selection.ofQuery ((q.decorate {} Policy.all).tuned .derby) = .ok sel ∧
      .criterion c ∈ ((q.decorate {} Policy.all).tuned .derby).elements ∧
      chainOf c = t :: ts ∧ ts ≠ [] ∧ ¬ DeniesProperty c ∧
      ∀ z, ¬ Along sel.joins.joins (.plain t) ts z := by
  have hnot : ∀ z, ¬ Along
      [⟨⟨.indexedArchives, 100⟩, "archive_sha1", .plain .nodes, "sha1_actual"⟩,
        ⟨⟨.nodes, 100⟩, "sha1_actual", ⟨.indexedArchives, 100⟩, "archive_sha1"⟩]
      (.plain .nodes) [.indexedArchives, .nodes, .indexedArchives, .nodes] z := by
    rintro z ⟨b₁, -, ⟨j₁, hj₁, honto₁, rfl, -⟩, b₂, -, ⟨j₂, hj₂, honto₂, rfl, -⟩, b₃, -,
      ⟨j₃, hj₃, honto₃, rfl, -⟩, -⟩
    rcases List.mem_pair.1 hj₁ with rfl | rfl
    · rcases List.mem_pair.1 hj₂ with rfl | rfl
      · cases honto₂
      · rcases List.mem_pair.1 hj₃ with rfl | rfl <;> cases honto₃
    · cases honto₁
  exact ⟨_, _, _, _, _, rfl, rfl,
    List.mem_cons_of_mem _ (List.mem_cons_of_mem _ List.mem_cons_self), rfl,
    List.cons_ne_nil _ _, by decide, hnot⟩

end ArtifactQuery
