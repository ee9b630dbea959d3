import ArtifactQuery.Proofs.Paging
import ArtifactQuery.Proofs.PlainNames

/-!
# The condition within its statement

A statement is put together around its condition: the fields, the tables, the order and the window.
None of these has a place for a parameter, and the condition stands among them as it was written.

* `Framed`: a text in another one, with no question mark in front of it and behind it.
* `Window.framed_around`, `SelectParts.framed_written`: windows and parts around a condition.
* `Named.clauseText_conditions`: the condition is not trimmed.
* `framed_of_toStatement`: what this makes of a statement, whichever query and dialect it is for.
-/

namespace ArtifactQuery.Sql

/-! ## Texts around the condition -/

theorem unmarked_written_column {o : Occurrence} {column : String} (h : IsName column) :
    Unmarked (o.name ++ "." ++ column) :=
  unmarked_of_isPlain (isPlain_written_column h)

theorem Join.unmarked_written {j : Join} (hcolumn : IsName j.column) (honto : IsName j.ontoColumn) :
    Unmarked j.written := by
  have htable := j.occurrence.table.unmarked_name
  have hjoined := unmarked_written_column (o := j.occurrence) hcolumn
  have honto := unmarked_written_column (o := j.onto) honto
  have hwords : Unmarked "left outer join " ∧ Unmarked " " ∧ Unmarked " on " ∧ Unmarked " = " := by
    decide
  unfold Join.written
  simp only [unmarked_append] at hjoined honto ⊢
  simp only [htable, hjoined, honto, hwords, and_self]

theorem JoinPlan.unmarked_written {p : JoinPlan} (hp : p.NamesPlainly) : Unmarked p.written := by
  refine unmarked_intercalate (by decide) fun s hs => ?_
  rcases List.mem_cons.1 hs with rfl | hs
  · simp only [unmarked_append]
    exact ⟨⟨Table.unmarked_name _, by decide⟩, Occurrence.unmarked_name _⟩
  · obtain ⟨j, hj, rfl⟩ := List.mem_map.1 hs
    exact Join.unmarked_written (hp j hj).1 (hp j hj).2

namespace Selection

variable {s : Selection}

theorem Named.unmarked_fields (hs : s.Named) :
    Unmarked (", ".intercalate (s.items.map SelectItem.written)) := by
  refine unmarked_intercalate (by decide) fun t ht => ?_
  obtain ⟨i, hi, rfl⟩ := List.mem_map.1 ht
  have has : Unmarked " as " := by decide
  have hlisted := hs.items i hi
  have hcolumn : Unmarked (i.occurrence.name ++ "." ++ i.reads) :=
    unmarked_written_column (hlisted.reads ▸ Field.isName_column _)
  rw [SelectItem.written, unmarked_append, unmarked_append]
  exact ⟨⟨hcolumn, has⟩, hlisted.unmarked_name⟩

theorem Named.unmarked_orderText (hs : s.Named) : Unmarked s.orderText := by
  refine unmarked_intercalate (by decide) fun t ht => ?_
  obtain ⟨⟨name, direction⟩, hterm, rfl⟩ := List.mem_map.1 ht
  have hkeyword : Unmarked direction.keyword := by cases direction <;> decide
  simp only [unmarked_append]
  obtain ⟨i, hi, rfl⟩ := hs.order _ hterm
  exact ⟨⟨(hs.items i hi).unmarked_name, by decide⟩, hkeyword⟩

end Selection

theorem unmarked_outerTerm {term : List Char} (h : '?' ∉ term) : Unmarked (outerTerm term) := by
  rw [outerTerm, unmarked_append]
  refine ⟨by decide, ?_⟩
  rw [Unmarked, String.toList_ofList]
  split
  · intro hmem
    exact h ((List.dropWhile_sublist _).subset (List.mem_of_mem_drop hmem))
  · exact h

theorem unmarked_of_mem_outerTerms {order term : String} (h : Unmarked order)
    (hterm : term ∈ outerTerms order) : Unmarked term := by
  obtain ⟨part, hpart, rfl⟩ := List.mem_map.1 hterm
  obtain ⟨cut, hcut, rfl⟩ := List.mem_map.1 (List.mem_filter.1 hpart).1
  exact unmarked_outerTerm fun hmem => h (mem_of_mem_cutAt hcut (mem_trimChars hmem))

/-- Whether a text stands in another one, with no question mark in front of it and behind it. -/
def Framed (inner outer : String) : Prop :=
  ∃ front back, Unmarked front ∧ Unmarked back ∧ outer = front ++ inner ++ back

namespace Framed

variable {s t u : String}

theorem refl (s : String) : Framed s s :=
  ⟨"", "", by decide, by decide, by rw [String.empty_append, String.append_empty]⟩

theorem append (h : Framed s t) (hu : Unmarked u) : Framed s (t ++ u) := by
  obtain ⟨front, back, hfront, hback, rfl⟩ := h
  exact ⟨front, back ++ u, hfront, unmarked_append.2 ⟨hback, hu⟩, String.append_assoc⟩

theorem prepend (h : Framed s t) (hu : Unmarked u) : Framed s (u ++ t) := by
  obtain ⟨front, back, hfront, hback, rfl⟩ := h
  refine ⟨u ++ front, back, unmarked_append.2 ⟨hu, hfront⟩, hback, ?_⟩
  rw [← String.append_assoc, ← String.append_assoc]

theorem trans (h : Framed s t) (h' : Framed t u) : Framed s u := by
  obtain ⟨front, back, hfront, hback, rfl⟩ := h'
  exact (h.prepend hfront).append hback

end Framed

/-- The order that a window numbers its rows in. -/
def Window.order? : Window → Option (List String)
  | rowNumber order _ _ => order
  | _ => none

/-- A window puts no question mark in front of its base statement or behind it. -/
theorem Window.framed_around {w : Window} (hw : ∀ terms ∈ w.order?, ∀ t ∈ terms, Unmarked t)
    (base : String) : Framed base (w.around base) := by
  have hnumber : ∀ n : Int, Unmarked (toString n) := unmarked_toString_int
  have hbase := Framed.refl base
  cases w with
  | offsetFetch o n =>
    have hoffset : Framed base (base ++ " offset " ++ toString o) :=
      (hbase.append (by decide)).append (hnumber o)
    cases n with
    | none => exact hoffset.append (by decide)
    | some n =>
      exact ((hoffset.append (by decide)).append (hnumber n)).append (by decide)
  | limitPair o n =>
    exact (((hbase.append (by decide)).append (hnumber o)).append (by decide)).append (hnumber n)
  | rowNum skipped last =>
    exact ((((hbase.prepend (by decide)).append (by decide)).append (hnumber last)).append
      (by decide)).append (hnumber skipped)
  | limitOffset n o =>
    cases n with
    | none => exact (hbase.append (by decide)).append (hnumber o)
    | some n =>
      exact (((hbase.append (by decide)).append (hnumber n)).append (by decide)).append (hnumber o)
  | rowNumber order first stop =>
    have horder : Unmarked (orderText order) := by
      cases order with
      | none => decide
      | some terms => exact unmarked_intercalate (by decide) (hw terms rfl)
    have hfront : Unmarked ("select bb.* from ( select aa.*, ROW_NUMBER() OVER ( order by " ++
        orderText order ++ " ) AS RN from ( ") :=
      unmarked_append.2 ⟨unmarked_append.2 ⟨by decide, horder⟩, by decide⟩
    exact ((((hbase.prepend hfront).append (by decide)).append (hnumber first)).append
      (by decide)).append (hnumber stop)

/-! ## The condition of a statement -/

theorem unmarked_of_mem_nonBlank? {o : Option String} (h : ∀ s ∈ o, Unmarked s) :
    ∀ s ∈ nonBlank? o, Unmarked s := by
  intro s hs
  obtain ⟨t, ht, rfl⟩ := Option.map_eq_some_iff.1 (Option.mem_filter_iff.1 hs).1
  exact unmarked_trim (h t ht)

theorem unmarked_clauseText {keyword : String} {o : Option String} (hkeyword : Unmarked keyword)
    (h : ∀ s ∈ o, Unmarked s) : Unmarked (clauseText keyword (nonBlank? o)) := by
  have hclause := unmarked_of_mem_nonBlank? h
  have hempty : Unmarked "" := by decide
  cases ho : nonBlank? o with
  | none => exact hempty
  | some s => exact unmarked_append.2 ⟨hkeyword, hclause s ho⟩

/-- A statement is its `where` clause between texts without question marks, if no other part of it
has one. -/
theorem SelectParts.framed_written {p : SelectParts} {d : Dialect} {sql : String}
    (hfields : ∀ s ∈ p.fields, Unmarked s) (htables : Unmarked p.tables) (hjoin : p.join = none)
    (horder : ∀ s ∈ p.orderBy, Unmarked s) (hgroup : p.groupBy = none)
    (h : p.written d = .ok sql) : Framed (clauseText " where " (nonBlank? p.conditions)) sql := by
  have hselected : Unmarked ((nonBlank? p.fields).getD "*") := by
    have hclause := unmarked_of_mem_nonBlank? hfields
    cases hf : nonBlank? p.fields with
    | none => decide
    | some s => exact hclause s hf
  have hdistinct : Unmarked (if p.distinct then "distinct " else "") := by
    split <;> decide
  have hfront : Unmarked ("select " ++ (if p.distinct then "distinct " else "") ++
      (nonBlank? p.fields).getD "*" ++ " from " ++ trim p.tables ++
      (p.join.map JoinClause.written).getD "") := by
    have hwords : Unmarked "select " ∧ Unmarked " from " ∧ Unmarked "" := by decide
    simp only [unmarked_append, hjoin, Option.map_none, Option.getD_none, hwords, hdistinct,
      hselected, unmarked_trim htables, and_self]
  have hordered : Unmarked (if d.ordersBase p.offset p.limit then
      clauseText " order by " (nonBlank? p.orderBy) else "") := by
    split
    · exact unmarked_clauseText (by decide) horder
    · decide
  have hgrouped : Unmarked (clauseText " group by " (nonBlank? p.groupBy)) :=
    unmarked_clauseText (by decide) fun s hs => by
      rw [hgroup] at hs
      cases hs
  -- What stands in front of the clause and behind it was shown to be free of question marks.
  have hbase : Framed (clauseText " where " (nonBlank? p.conditions)) (p.base d) :=
    (((Framed.refl _).prepend hfront).append hordered).append hgrouped
  rw [written] at h
  split at h
  · cases h
  split at h
  · cases h
    refine hbase.trans (Window.framed_around (fun terms hterms t ht => ?_) _)
    -- Only one dialect writes the order into the window.
    cases d with
    | sqlserver =>
      obtain ⟨order, ho, rfl⟩ := Option.map_eq_some_iff.1 hterms
      exact unmarked_of_mem_outerTerms (unmarked_of_mem_nonBlank? horder order ho) ht
    | derby | mysql | oracle | postgresql => cases hterms
  · cases h
    exact hbase

theorem ColumnRef.tightStart_written {c : ColumnRef} (h : IsName c.column) :
    TightStart c.written :=
  tightStart_of_isPlain (written_ne_nil h) (isPlain_written h)

theorem ColumnRef.tightEnd_written {c : ColumnRef} (h : IsName c.column) : TightEnd c.written :=
  tightEnd_of_isPlain (written_ne_nil h) (isPlain_written h)

theorem Term.tightStart_written {t : Term} (h : ∀ c ∈ t.columns, IsName c.column) :
    TightStart t.written := by
  have hsubstr : TightStart "substr(" := by decide
  have hmarked : TightStart "substr(?, 1, " := by decide
  have hmark : TightStart "?" := by decide
  cases t with
  | column c => exact ColumnRef.tightStart_written (h c List.mem_cons_self)
  | columnHead n c => exact (((hsubstr.append _).append _).append _).append _
  | param p => exact hmark
  | paramHead n p => exact (hmarked.append _).append _

theorem Term.tightEnd_written {t : Term} (h : ∀ c ∈ t.columns, IsName c.column) :
    TightEnd t.written := by
  have hparen : TightEnd ")" := by decide
  have hmark : TightEnd "?" := by decide
  cases t with
  | column c => exact ColumnRef.tightEnd_written (h c List.mem_cons_self)
  | columnHead n c => exact hparen.append _
  | param p => exact hmark
  | paramHead n p => exact hparen.append _

namespace Condition

theorem tightStart_written {k : Condition} (h : k.NamesPlainly) : TightStart k.written := by
  have hparen : TightStart "(" := by decide
  cases k with
  | compare l r t =>
    have hl := Term.tightStart_written fun c hc => h c (List.mem_append_left _ hc)
    exact (((hl.append _).append _).append _).append _
  | isNull c => exact (ColumnRef.tightStart_written h).append _
  | isNotNull c => exact (ColumnRef.tightStart_written h).append _
  | always => decide
  | never => decide
  | both a b => exact (((hparen.append _).append _).append _).append _
  | either a b => exact (((hparen.append _).append _).append _).append _
  | noneOf c column t a b =>
    have hc := ColumnRef.tightStart_written h.1
    exact ((((((((hc.append _).append _).append _).append _).append _).append _).append _).append
      _).append _

theorem tightEnd_written {k : Condition} (h : k.NamesPlainly) : TightEnd k.written := by
  have hparen : TightEnd ")" := by decide
  have hnull : TightEnd " is null" := by decide
  have hnotNull : TightEnd " is not null" := by decide
  cases k with
  | compare l r t =>
    exact (Term.tightEnd_written fun c hc => h c (List.mem_append_right _ hc)).append _
  | isNull c => exact hnull.append _
  | isNotNull c => exact hnotNull.append _
  | always => decide
  | never => decide
  | both a b => exact hparen.append _
  | either a b => exact hparen.append _
  | noneOf c column t a b => exact hparen.append _

end Condition

namespace Selection

variable {s : Selection}

theorem Named.tightStart_written (hs : s.Named) {p : Piece} (hp : p ∈ s.condition) :
    TightStart p.written := by
  cases p with
  | condition k => exact Condition.tightStart_written (hs.conditions k hp)
  | and | or | openParen | closeParen => decide

theorem Named.tightEnd_written (hs : s.Named) {p : Piece} (hp : p ∈ s.condition) :
    TightEnd p.written := by
  cases p with
  | condition k => exact Condition.tightEnd_written (hs.conditions k hp)
  | and | or | openParen | closeParen => decide

/-- The `where` clause of a selection. -/
def whereText (s : Selection) : String :=
  if s.condition = [] then "" else " where " ++ s.conditionText

theorem Named.tightStart_conditionText (hs : s.Named) (hne : s.condition ≠ []) :
    TightStart s.conditionText := by
  obtain ⟨p, ps, hps⟩ := List.exists_cons_of_ne_nil hne
  rw [conditionText, hps, List.map_cons]
  exact tightStart_intercalate (hs.tightStart_written (hps ▸ List.mem_cons_self)) _

theorem Named.tightEnd_conditionText (hs : s.Named) (hne : s.condition ≠ []) :
    TightEnd s.conditionText := by
  refine tightEnd_intercalate (List.map_eq_nil_iff.not.2 hne) fun t ht => ?_
  obtain ⟨p, hp, rfl⟩ := List.mem_map.1 ht
  exact hs.tightEnd_written hp

/-- The condition stands in a statement as it is, since no blanks are at its ends. -/
theorem Named.clauseText_conditions (hs : s.Named) :
    clauseText " where " (nonBlank? (some s.conditionText)) = s.whereText := by
  rw [whereText]
  split
  case isTrue hnil =>
    rw [conditionText, hnil]
    rfl
  case isFalse hne =>
    rw [nonBlank?_tight (hs.tightStart_conditionText hne) (hs.tightEnd_conditionText hne)]
    rfl

/-- What a statement is, apart from its names: the parameters of its selection, and its `where`
clause between texts without question marks. -/
theorem framed_of_toStatement {q : Query} {d : Dialect} {st : Statement}
    (h : q.toStatement d = .ok st) : ∃ sel, ofQuery q = .ok sel ∧ sel.Named ∧
      st.params = sel.params ∧ Framed sel.whereText st.sql := by
  rw [Query.toStatement] at h
  obtain ⟨sel, hsel, h⟩ := bind_eq_ok.1 h
  obtain ⟨sql, hsql, h⟩ := bind_eq_ok.1 h
  cases h
  have hnamed := named_ofQuery hsel
  refine ⟨sel, hsel, hnamed, rfl, ?_⟩
  have hframed := SelectParts.framed_written (fun s hs => ?_)
    (JoinPlan.unmarked_written hnamed.joins) rfl (fun s hs => ?_) rfl hsql
  · rw [← hnamed.clauseText_conditions]
    exact hframed
  · cases hs
    exact hnamed.unmarked_fields
  · cases hs
    exact hnamed.unmarked_orderText

end Selection

end ArtifactQuery.Sql
