import ArtifactQuery.Proofs.Framing
import ArtifactQuery.Proofs.StatementHeads

/-!
# Statements as they are written

What is read from the text of a statement is what its selection has: the items, the joins, the
columns that its conditions name, and the order.

* `Condition.namesColumns`: the columns that the text of a condition names, in their order.
* `Join.tokens_written`: the words of a join.
* `JoinsAlong`, `joinsAlong_listed`: joins that lead along tables, as they are listed.
* `Selection.head`: the head of a selection; `Selection.tokens_select`: its words are those of the
  text.
* `read_toStatement`: what is read from the statement of a query.
-/

namespace ArtifactQuery

open Sql

/-! ## Names -/

theorem isPlainName_of_isNamePart {s : String} (hne : s.toList ≠ [])
    (h : s.toList.all isNamePart) : IsPlainName s := by
  refine ⟨hne, fun c hc => ?_⟩
  have hpart := List.all_eq_true.1 h c hc
  simp [isNamePart, isPlain] at hpart
  simp [endsWord, sqlMarks, hpart]

theorem IsName.isPlainName {s : String} (h : IsName s) : IsPlainName s :=
  isPlainName_of_isNamePart h.1 h.2.1

theorem Occurrence.isPlainName_name (o : Occurrence) : IsPlainName o.name := by
  refine isPlainName_of_isNamePart ?_ o.isNamePart_name
  have hstem : o.table.aliasStem.toList ≠ [] := by
    cases o.table <;> decide
  rw [toList_name]
  exact List.append_ne_nil_of_left_ne_nil hstem _

theorem Table.isPlainName_name (t : Table) : IsPlainName t.name := by
  refine isPlainName_of_isNamePart ?_ t.isNamePart_name
  cases t <;> decide

namespace Sql

theorem IsPlainName.tokens_eq {s : String} (h : IsPlainName s) : tokens s = [s] := by
  refine tokens_eq_singleton h.1 (List.all_eq_true.2 fun c hc => ?_)
  rw [(h.2 c hc).2]
  rfl

/-! ## The columns of a condition -/

/-- The name of a column, if it stands behind an occurrence. -/
def ColumnRef.named? (c : ColumnRef) : Option ColumnName :=
  c.source.map fun o => ⟨some o.name, c.column⟩

/-- Whether the tokens of a condition name the columns, and its text does not end early. -/
structure NamesColumns (ws : List String) (cs : List ColumnRef) : Prop where
  inside : StaysInside ws
  references : ws.filterMap reference? = cs.filterMap ColumnRef.named?

namespace NamesColumns

variable {ws ws' : List String} {cs cs' : List ColumnRef}

theorem append (h : NamesColumns ws cs) (h' : NamesColumns ws' cs') :
    NamesColumns (ws ++ ws') (cs ++ cs') where
  inside := List.forall_mem_append.2 ⟨h.inside, h'.inside⟩
  references := by
    rw [List.filterMap_append, List.filterMap_append, h.references, h'.references]

/-- Words without dots that do not stand behind conditions. -/
theorem of_plain (h : ∀ w ∈ ws, w ∉ conditionEnds ++ outerNames ∧ '.' ∉ w.toList) :
    NamesColumns ws [] where
  inside w hw := not_or.1 fun hmem => (h w hw).1 (List.mem_append.2 hmem)
  references := List.filterMap_eq_nil_iff.2 fun w hw => if_neg (h w hw).2

/-- Words without columns on both sides. -/
theorem around (h : NamesColumns ws cs) (front back : List String)
    (hfront : ∀ w ∈ front, w ∉ conditionEnds ++ outerNames ∧ '.' ∉ w.toList)
    (hback : ∀ w ∈ back, w ∉ conditionEnds ++ outerNames ∧ '.' ∉ w.toList) :
    NamesColumns (front ++ ws ++ back) cs := by
  have hall := ((of_plain hfront).append h).append (of_plain hback)
  rwa [List.nil_append, List.append_nil] at hall

end NamesColumns

theorem ColumnRef.plain {c : ColumnRef} (h : IsName c.column) :
    ColumnName.Plain ⟨c.source.map Occurrence.name, c.column⟩ where
  table name hname := by
    obtain ⟨o, -, rfl⟩ := Option.map_eq_some_iff.1 hname
    exact o.isPlainName_name
  column := h.isPlainName

/-- A column with what it is converted to, if anything. -/
theorem ColumnRef.namesColumns {c : ColumnRef} (h : IsName c.column) (cast : String)
    (hcast : cast ∈ ["", "::text"]) : NamesColumns (tokens (c.written ++ cast)) [c] := by
  have hcasts : ∀ cast ∈ ["", "::text"], cast.toList.all (! endsWord sqlMarks ·) ∧
      '.' ∉ cast.toList ∧ ¬ cast.toList.head?.any (· ≠ ':') := by decide
  obtain ⟨hends, hdot, hhead⟩ := hcasts cast hcast
  have hplain := plain h
  have hwritten : c.written = ColumnName.written ⟨c.source.map Occurrence.name, c.column⟩ := by
    rw [written, ColumnName.written]
    cases c.source with
    | none => simp
    | some o => rfl
  have htokens : tokens (c.written ++ cast) = [c.written ++ cast] := by
    refine tokens_eq_singleton ?_ ?_
    · rw [String.toList_append]
      exact List.append_ne_nil_of_left_ne_nil (written_ne_nil h) _
    · rw [String.toList_append, List.all_append, hends, Bool.and_true, List.all_eq_true, hwritten]
      intro c hc
      rw [hplain.endsWord_written hc]
      rfl
  rw [htokens]
  -- A column behind no table is one word without dots, and names nothing that could be missing.
  -- Behind a table it is a reference, and the dot sets it apart from the words that end a
  -- condition.
  cases hsource : c.source with
  | none =>
    have hcolumn : c.written = c.column := by rw [written, hsource]
    have hnot : '.' ∉ c.column.toList := fun hmem =>
      absurd (List.all_eq_true.1 h.2.1 _ hmem) (by decide)
    have hreferences : [c].filterMap named? = [] := by
      rw [List.filterMap_cons_none (by rw [named?, hsource]; rfl)]
      rfl
    rw [hcolumn]
    suffices hnames : NamesColumns [c.column ++ cast] [] from
      ⟨hnames.inside, hnames.references.trans hreferences.symm⟩
    refine .of_plain fun w hw => ?_
    rw [List.mem_singleton.1 hw]
    refine ⟨fun hmem => ?_, ?_⟩
    -- No word behind a condition is a name, and none has the colon of a cast.
    · rcases List.mem_pair.1 hcast with rfl | rfl
      · rw [String.append_empty] at hmem
        have hkeywords : ∀ w ∈ conditionEnds ++ outerNames, ¬ IsName w := by decide
        exact hkeywords _ hmem h
      · have hcolon : ∀ w ∈ conditionEnds ++ outerNames, ':' ∉ w.toList := by decide
        refine hcolon _ hmem ?_
        rw [String.toList_append]
        exact List.mem_append_right _ (by decide)
    · rw [String.toList_append, List.mem_append, not_or]
      exact ⟨hnot, hdot⟩
  | some o =>
    have htext : c.written = o.name ++ "." ++ c.column := by rw [written, hsource]
    have hmem : '.' ∈ (c.written ++ cast).toList := by
      rw [htext]
      simp
    have hcolon : c.written.toList.all (· ≠ ':') := by
      have hpart : ∀ {cs : List Char}, cs.all isNamePart → cs.all (· ≠ ':') := fun hcs =>
        List.all_eq_true.2 fun c' hc' => decide_eq_true fun heq =>
          absurd (heq ▸ List.all_eq_true.1 hcs c' hc') (by decide)
      rw [htext, String.toList_append, String.toList_append, List.all_append, List.all_append,
        hpart o.isNamePart_name, hpart h.2.1]
      rfl
    have hreference : reference? (c.written ++ cast) = some ⟨some o.name, c.column⟩ := by
      rw [reference?, if_pos hmem, String.toList_append,
        (takeWhile_dropWhile_append hcolon hhead).1, String.ofList_toList, hwritten,
        hplain.ofToken_written, hsource]
      rfl
    constructor
    · -- The words behind conditions have no dots.
      have hdots : ∀ w ∈ conditionEnds ++ outerNames, '.' ∉ w.toList := by decide
      intro w hw
      rw [List.mem_singleton.1 hw, ← not_or, ← List.mem_append]
      exact fun hends => hdots _ hends hmem
    · have hnamed : c.named? = some ⟨some o.name, c.column⟩ := by rw [named?, hsource]; rfl
      rw [List.filterMap_cons_some hreference, List.filterMap_cons_some hnamed]
      rfl

theorem ColumnRef.namesColumns_written {c : ColumnRef} (h : IsName c.column) :
    NamesColumns (tokens c.written) [c] := by
  have hnames := namesColumns h "" (by decide)
  rwa [String.append_empty] at hnames

/-- A name that stands for itself. -/
theorem IsPlainName.namesColumns {s : String} (h : IsPlainName s)
    (hends : s ∉ conditionEnds ++ outerNames) : NamesColumns (tokens s) [] := by
  rw [h.tokens_eq]
  refine .of_plain fun w hw => ?_
  rw [List.mem_singleton.1 hw]
  exact ⟨hends, fun hmem => (h.2 _ hmem).1 rfl⟩

theorem namesColumns_toString (n : Nat) : NamesColumns (tokens (toString n)) [] := by
  have hne : (toString n).toList ≠ [] := by
    rw [Nat.toString_eq_repr, Nat.repr_eq_ofList_toDigits, String.toList_ofList]
    exact Nat.toDigits_ne_nil
  have hdigit : (toString n).toList.all Char.isDigit := by
    rw [Nat.toString_eq_repr, Nat.repr_eq_ofList_toDigits, String.toList_ofList, List.all_eq_true]
    exact fun c hc => Nat.isDigit_of_mem_toDigits (by decide) (by decide) hc
  have hends : ∀ w ∈ conditionEnds ++ outerNames, ¬ w.toList.all Char.isDigit := by decide
  exact (isPlainName_of_isNamePart hne (isNamePart_toString_nat n)).namesColumns
    fun hmem => hends _ hmem hdigit

/-- The head of a value names what the value names. -/
theorem namesColumns_substr {value : String} {cs : List ColumnRef}
    (hvalue : NamesColumns (tokens value) cs) (n : Nat) :
    NamesColumns (tokens ("substr(" ++ (value ++ ", 1, " ++ toString n) ++ ")")) cs := by
  have hcall : BreaksAfter sqlMarks "substr(" ∧ tokens "substr(" = ["substr", "("] := by decide
  have hclose : BreaksBefore sqlMarks ")" ∧ tokens ")" = [")"] := by decide
  have hone : Separates ", 1, " [",", "1", ","] := by decide
  have hones : NamesColumns [",", "1", ","] [] := .of_plain (by decide)
  have hinner := (hvalue.append hones).append (namesColumns_toString n)
  rw [List.append_nil, List.append_nil] at hinner
  rw [hclose.1.tokens_append, hcall.1.tokens_append, hone.tokens_around, hcall.2, hclose.2]
  exact hinner.around ["substr", "("] [")"] (by decide) (by decide)

theorem Term.namesColumns {t : Term} (h : ∀ c ∈ t.columns, IsName c.column) :
    NamesColumns (tokens t.written) t.columns := by
  have hmark : NamesColumns (tokens "?") [] := .of_plain (by decide)
  cases t with
  | column c => exact ColumnRef.namesColumns_written (h c List.mem_cons_self)
  | columnHead n c =>
    have htext : (columnHead n c).written =
        "substr(" ++ (c.written ++ "::text" ++ ", 1, " ++ toString n) ++ ")" := by
      rw [written]
      simp only [String.append_assoc]
      rfl
    rw [htext]
    exact namesColumns_substr
      (ColumnRef.namesColumns (h c List.mem_cons_self) "::text" (by decide)) n
  | param p => exact hmark
  | paramHead n p =>
    have htext : (paramHead n p).written =
        "substr(" ++ ("?" ++ ", 1, " ++ toString n) ++ ")" := by
      rw [written]
      simp only [String.append_assoc]
      rfl
    rw [htext]
    exact namesColumns_substr hmark n

namespace Condition

theorem namesColumns_parens {s op t : String} {w : String} {cs cs' : List ColumnRef}
    (hs : NamesColumns (tokens s) cs) (ht : NamesColumns (tokens t) cs')
    (hop : Separates op [w]) (hw : NamesColumns [w] []) :
    NamesColumns (tokens ("(" ++ s ++ op ++ t ++ ")")) (cs ++ cs') := by
  have hopen : BreaksAfter sqlMarks "(" ∧ tokens "(" = ["("] := by decide
  have hclose : BreaksBefore sqlMarks ")" ∧ tokens ")" = [")"] := by decide
  have hinner := (hs.append hw).append ht
  rw [List.append_nil] at hinner
  have hall := hinner.around ["("] [")"] (by decide) (by decide)
  rw [hclose.1.tokens_append, hop.tokens_around, hopen.1.tokens_append, hopen.2, hclose.2]
  simpa using hall

/-- The columns that the text of a condition names are those of the condition, in their order. -/
theorem namesColumns {k : Condition} (h : k.NamesPlainly) :
    NamesColumns (tokens k.written) k.columns := by
  induction k with
  | compare l r t =>
    have hsign : NamesColumns (tokens r.sign) [] := .of_plain (by cases r <;> decide)
    have hl := Term.namesColumns fun c hc => h c (List.mem_append_left _ hc)
    have ht := Term.namesColumns fun c hc => h c (List.mem_append_right _ hc)
    have hall := (hl.append hsign).append ht
    rw [List.append_nil] at hall
    rw [written, tokens_around_blank, tokens_around_blank]
    exact hall
  | isNull c =>
    have hnull : BreaksBefore sqlMarks " is null" ∧ tokens " is null" = ["is", "null"] := by decide
    have hwords : NamesColumns ["is", "null"] [] := .of_plain (by decide)
    rw [written, hnull.1.tokens_append, hnull.2]
    exact (ColumnRef.namesColumns_written h).append hwords
  | isNotNull c =>
    have hnull : BreaksBefore sqlMarks " is not null" ∧
        tokens " is not null" = ["is", "not", "null"] := by decide
    have hwords : NamesColumns ["is", "not", "null"] [] := .of_plain (by decide)
    rw [written, hnull.1.tokens_append, hnull.2]
    exact (ColumnRef.namesColumns_written h).append hwords
  | always =>
    have hwords : NamesColumns (tokens "1 = 1") [] := .of_plain (by decide)
    exact hwords
  | never =>
    have hwords : NamesColumns (tokens "1 = 0") [] := .of_plain (by decide)
    exact hwords
  | both a b iha ihb =>
    have hand : Separates " and " ["and"] := by decide
    exact namesColumns_parens (iha h.1) (ihb h.2) hand (.of_plain (by decide))
  | either a b iha ihb =>
    have hor : Separates " or " ["or"] := by decide
    exact namesColumns_parens (iha h.1) (ihb h.2) hor (.of_plain (by decide))
  -- Inside, the selected column and the table are plain words, so that only the compared column and
  -- the two conditions name anything.
  | noneOf c column t a b iha ihb =>
    obtain ⟨hc, hcolumn, ha, hb⟩ := h
    have hnames : ∀ w ∈ conditionEnds ++ outerNames, ¬ IsName w := by decide
    have htables : t.name ∉ conditionEnds ++ outerNames := by cases t <;> decide
    have hselect : Separates " not in (select " ["not", "in", "(", "select"] := by decide
    have hfrom : Separates " from " ["from"] := by decide
    have hwhere : Separates " where " ["where"] := by decide
    have hand : Separates " and " ["and"] := by decide
    have hclose : BreaksBefore sqlMarks ")" ∧ tokens ")" = [")"] := by decide
    have hplain := hcolumn.isPlainName.namesColumns fun hmem => hnames _ hmem hcolumn
    have htable := t.isPlainName_name.namesColumns htables
    have hwords : NamesColumns ["not", "in", "(", "select"] [] ∧ NamesColumns ["from"] [] ∧
        NamesColumns ["where"] [] ∧ NamesColumns ["and"] [] ∧ NamesColumns [")"] [] :=
      ⟨.of_plain (by decide), .of_plain (by decide), .of_plain (by decide), .of_plain (by decide),
        .of_plain (by decide)⟩
    have hsub := ((((hplain.append hwords.2.1).append htable).append hwords.2.2.1).append
      (iha ha)).append (hwords.2.2.2.1.append (ihb hb))
    have hall := (((ColumnRef.namesColumns_written hc).append hwords.1).append hsub).append
      hwords.2.2.2.2
    rw [written, hclose.1.tokens_append, hand.tokens_around, hwhere.tokens_around,
      hfrom.tokens_around, hselect.tokens_around, hclose.2]
    simpa [columns] using hall

end Condition

/-- The columns that a piece names. -/
def Piece.columns : Piece → List ColumnRef
  | condition k => k.columns
  | and | or | openParen | closeParen => []

theorem Piece.namesColumns {p : Piece} (h : ∀ k, p = .condition k → k.NamesPlainly) :
    NamesColumns (tokens p.written) p.columns := by
  have hwords : ∀ s ∈ ["and", "or", "(", ")"], NamesColumns (tokens s) [] := by
    intro s hs
    have htokens : ∀ s ∈ ["and", "or", "(", ")"], ∀ w ∈ tokens s,
        w ∉ conditionEnds ++ outerNames ∧ '.' ∉ w.toList := by decide
    exact .of_plain (htokens s hs)
  cases p with
  | condition k => exact Condition.namesColumns (h k rfl)
  | and => exact hwords "and" (by decide)
  | or => exact hwords "or" (by decide)
  | openParen => exact hwords "(" (by decide)
  | closeParen => exact hwords ")" (by decide)

/-! ## Selections -/

theorem plain_column (o : Occurrence) {column : String} (h : IsName column) :
    ColumnName.Plain ⟨some o.name, column⟩ :=
  ⟨fun _ hname => Option.some.inj hname ▸ o.isPlainName_name, h.isPlainName⟩

theorem tokens_column {o : Occurrence} {column : String} (h : IsName column) :
    tokens (o.name ++ "." ++ column) = [o.name ++ "." ++ column] := by
  have htext : o.name ++ "." ++ column = ColumnName.written ⟨some o.name, column⟩ := rfl
  rw [htext, (plain_column o h).tokens_written]

/-- The words of a join: the table and its name, and both columns behind the names of their
tables. -/
theorem Join.tokens_written {j : Join} (hcolumn : IsName j.column) (honto : IsName j.ontoColumn) :
    tokens j.written = ["left", "outer", "join", j.occurrence.table.name, j.occurrence.name, "on",
      j.occurrence.name ++ "." ++ j.column, "=", j.onto.name ++ "." ++ j.ontoColumn] := by
  have hjoin : BreaksAfter sqlMarks "left outer join " ∧
      tokens "left outer join " = ["left", "outer", "join"] := by decide
  have hon : Separates " on " ["on"] := by decide
  have heq : Separates " = " ["="] := by decide
  have htext : j.written = "left outer join " ++ (j.occurrence.table.name ++ " " ++
      j.occurrence.name ++ " on " ++ (j.occurrence.name ++ "." ++ j.column) ++ " = " ++
      (j.onto.name ++ "." ++ j.ontoColumn)) := by
    unfold written
    simp only [String.append_assoc]
  rw [htext, hjoin.1.tokens_append, heq.tokens_around, hon.tokens_around, tokens_around_blank,
    hjoin.2, j.occurrence.table.isPlainName_name.tokens_eq, j.occurrence.isPlainName_name.tokens_eq,
    tokens_column hcolumn, tokens_column honto]
  rfl

/-- An item as it is listed. -/
def SelectItem.listed (i : SelectItem) : ListedItem :=
  ⟨⟨some i.occurrence.name, i.reads⟩, i.column.name⟩

/-- A table under the name of its occurrence. -/
def namedTable (o : Occurrence) : NamedTable := ⟨o.table.name, o.name⟩

/-- A join as it is listed. -/
def Join.listed (j : Join) : ListedJoin :=
  ⟨namedTable j.occurrence, ⟨some j.occurrence.name, j.column⟩, ⟨some j.onto.name, j.ontoColumn⟩⟩

/-- Whether joins as they are listed lead from the table `s` under the name `a` along tables to one
under the name `z`, on the columns that link each table to the one before. -/
def JoinsAlong (js : List ListedJoin) : Table → String → List Table → String → Prop
  | _, a, [], z => a = z
  | s, a, t :: ts, z => ∃ b c, s.link? t = some c ∧
      ⟨⟨t.name, b⟩, ⟨some b, c.2⟩, ⟨some a, c.1⟩⟩ ∈ js ∧ JoinsAlong js t b ts z

/-- Joins lead along tables as they do where they are listed. -/
theorem joinsAlong_listed {js : List Join} {ts : List Table} {z : Occurrence} :
    ∀ {a : Occurrence}, JoinsAlong (js.map Join.listed) a.table a.name ts z.name ↔
      Along js a ts z := by
  induction ts with
  | nil => exact fun {a} => ⟨Occurrence.name_injective, congrArg Occurrence.name⟩
  | cons t ts ih =>
    intro a
    constructor
    · rintro ⟨b, c, hlink, hmem, hrest⟩
      obtain ⟨j, hj, hlisted⟩ := List.mem_map.1 hmem
      -- A listed join comes from one of the plan, and names of tables and occurrences are distinct.
      have htable : j.occurrence.table = t :=
        Table.name_injective (congrArg (·.joined.table) hlisted)
      have hname : j.occurrence.name = b := congrArg (·.joined.name) hlisted
      have honto : j.onto = a :=
        Occurrence.name_injective (Option.some.inj (congrArg (·.onto.table) hlisted))
      have hcolumns : c = (j.ontoColumn, j.column) :=
        Prod.ext (congrArg (·.onto.column) hlisted).symm (congrArg (·.own.column) hlisted).symm
      rw [← htable, ← hname] at hrest
      rw [← htable, hcolumns] at hlink
      exact ⟨j.occurrence, htable, ⟨j, hj, honto, rfl, hlink⟩, ih.1 hrest⟩
    · rintro ⟨b, rfl, ⟨j, hj, rfl, rfl, hlink⟩, hrest⟩
      exact ⟨j.occurrence.name, _, hlink, List.mem_map.2 ⟨j, hj, rfl⟩, ih.2 hrest⟩

theorem SelectItem.Listed.isName_reads {i : SelectItem} (h : i.Listed) : IsName i.reads :=
  h.reads ▸ Field.isName_column _

theorem SelectItem.Listed.isPlainName_name {i : SelectItem} (h : i.Listed) :
    IsPlainName i.column.name :=
  isPlainName_of_isNamePart h.isNamePart_name.1 h.isNamePart_name.2

/-- The words of an item. -/
theorem SelectItem.Listed.tokens_written {i : SelectItem} (h : i.Listed) :
    tokens i.written = i.listed.words := by
  have has : Separates " as " ["as"] := by decide
  rw [SelectItem.written, has.tokens_around, tokens_column h.isName_reads,
    h.isPlainName_name.tokens_eq]
  rfl

theorem tokens_nonBlank? {s : String} (h : tokens s ≠ []) (other : String) :
    tokens ((nonBlank? (some s)).getD other) = tokens s := by
  have hne : trim s ≠ "" := by
    intro hempty
    rw [← tokens_trim, hempty] at h
    exact h rfl
  have hsome : nonBlank? (some s) = some (trim s) := Option.filter_some_pos (decide_eq_true hne)
  rw [hsome, Option.getD_some, tokens_trim]

namespace Selection

variable {s : Selection}

/-- The head of a selection. -/
def head (s : Selection) : StatementHead where
  items := s.items.map SelectItem.listed
  main := namedTable s.joins.main
  joins := s.joins.joins.map Join.listed
  condition := tokens s.conditionText

theorem tables_head (s : Selection) : s.head.tables = s.joins.occurrences.map namedTable := by
  rw [StatementHead.tables, head, JoinPlan.occurrences, List.map_cons, List.map_map, List.map_map]
  rfl

/-- The terms of a selection's order. -/
def orderTerms (s : Selection) : List OrderTerm :=
  s.order.map fun t => { column := t.1, gap := " ", direction := t.2.keyword }

/-- The text of a condition names the columns of its pieces. -/
theorem Named.namesColumns (hs : s.Named) :
    NamesColumns (tokens s.conditionText) (s.condition.flatMap Piece.columns) := by
  have hpieces : ∀ ps : List Piece, (∀ k, .condition k ∈ ps → k.NamesPlainly) →
      NamesColumns (ps.flatMap fun p => tokens p.written) (ps.flatMap Piece.columns) := by
    intro ps hps
    induction ps with
    | nil => exact .of_plain fun w hw => by cases hw
    | cons p ps ih =>
      have hp := Piece.namesColumns fun k hk => hps k (hk ▸ List.mem_cons_self)
      exact hp.append (ih fun k hk => hps k (List.mem_cons_of_mem _ hk))
  rw [conditionText, tokens_intercalate, List.flatMap_map]
  exact hpieces s.condition hs.conditions

/-- The words of the items. -/
theorem Named.tokens_items (hs : s.Named) :
    tokens (", ".intercalate (s.items.map SelectItem.written)) =
      [","].intercalate (s.head.items.map ListedItem.words) := by
  rw [tokens_intercalate_comma, head, List.map_map, List.map_map]
  congr 1
  exact List.map_congr_left fun i hi => (hs.items i hi).tokens_written

/-- The words of the `from` clause. -/
theorem Named.tokens_joins (hs : s.Named) :
    tokens s.joins.written =
      s.head.main.table :: s.head.main.name :: s.head.joins.flatMap ListedJoin.words := by
  have hjoins : (s.joins.joins.map Join.written).flatMap tokens =
      (s.joins.joins.map Join.listed).flatMap ListedJoin.words := by
    rw [List.flatMap_map, List.flatMap_map]
    refine List.flatMap_congr fun j hj => ?_
    exact Join.tokens_written (hs.joins j hj).1 (hs.joins j hj).2
  rw [JoinPlan.written, tokens_intercalate, List.flatMap_cons, hjoins, tokens_around_blank,
    (Table.isPlainName_name _).tokens_eq, (Occurrence.isPlainName_name _).tokens_eq]
  rfl

/-- The words of the `where` clause behind a text. -/
theorem Named.tokens_append_whereText (hs : s.Named) (front : String) :
    tokens (front ++ s.whereText) = tokens front ++ s.head.whereWords := by
  have hkeyword : Separates " where " ["where"] := by decide
  have hcondition : s.head.condition = tokens s.conditionText := rfl
  rw [whereText, StatementHead.whereWords, hcondition]
  split
  case isTrue hnil =>
    -- Without conditions there is no keyword either.
    have hnone : tokens s.conditionText = [] := by
      rw [conditionText, hnil]
      rfl
    rw [if_pos hnone, String.append_empty, List.append_nil]
  case isFalse hne =>
    rw [if_neg (hs.tightStart_conditionText hne).tokens_ne_nil, ← String.append_assoc,
      hkeyword.tokens_around, List.append_assoc]
    rfl

/-- The words of a selection's text, up to its conditions, are those of its head. -/
theorem Named.tokens_select (hs : s.Named) (hitems : s.items ≠ []) (offset limit : Int) :
    tokens (s.parts offset limit).select = s.head.words := by
  have hselect : BreaksAfter sqlMarks ("select " ++ "distinct ") ∧
      tokens ("select " ++ "distinct ") = ["select", "distinct"] := by decide
  have hfrom : Separates " from " ["from"] := by decide
  have hfields := hs.tokens_items
  have hne : tokens (", ".intercalate (s.items.map SelectItem.written)) ≠ [] := by
    obtain ⟨i, is, hcons⟩ := List.exists_cons_of_ne_nil hitems
    rw [hfields, head, hcons]
    cases is <;> exact List.cons_ne_nil _ _
  have htext : (s.parts offset limit).select =
      "select " ++ "distinct " ++
        (nonBlank? (some (", ".intercalate (s.items.map SelectItem.written)))).getD "*" ++
        " from " ++ trim s.joins.written ++ "" ++
        clauseText " where " (nonBlank? (some s.conditionText)) := rfl
  rw [htext, String.append_empty, hs.clauseText_conditions, hs.tokens_append_whereText,
    hfrom.tokens_around, hselect.1.tokens_append, hselect.2, tokens_nonBlank? hne, hfields,
    tokens_trim, hs.tokens_joins, StatementHead.words]
  simp only [List.cons_append, List.nil_append, List.append_assoc]

theorem Named.plain_head (hs : s.Named) (hitems : s.items ≠ []) : s.head.Plain where
  items_ne := List.map_eq_nil_iff.not.2 hitems
  items i hi := by
    obtain ⟨i, hmem, rfl⟩ := List.mem_map.1 hi
    exact plain_column _ (hs.items i hmem).isName_reads
  joins j hj := by
    obtain ⟨j, hmem, rfl⟩ := List.mem_map.1 hj
    exact ⟨plain_column _ (hs.joins j hmem).1, plain_column _ (hs.joins j hmem).2⟩
  condition := hs.namesColumns.inside

/-- The order of a selection lists its terms. -/
theorem Named.orders (hs : s.Named) (offset limit : Int) :
    Orders (s.parts offset limit).orderBy s.orderTerms := by
  have horder : (s.parts offset limit).orderBy = some s.orderText := rfl
  have htext : s.orderText = ", ".intercalate (s.orderTerms.map OrderTerm.written) := by
    rw [orderText, orderTerms, List.map_map]
    refine congrArg _ (List.map_congr_left fun t _ => ?_)
    rw [Function.comp_apply, OrderTerm.written, OrderTerm.name, ColumnName.written,
      Option.elim_none, String.empty_append, String.append_assoc]
  rw [horder, htext]
  refine orders_intercalate fun t ht => ?_
  obtain ⟨⟨name, direction⟩, hterm, rfl⟩ := List.mem_map.1 ht
  obtain ⟨i, hi, rfl⟩ := hs.order _ hterm
  constructor
  · exact fun _ h => by cases h
  · exact (hs.items i hi).isPlainName_name
  · have hdirection : ∀ d : Direction, IsDirection " " d.keyword := by
      intro d
      cases d <;> decide
    exact hdirection direction

end Selection

end Sql

/-- What is read from the statement of a query: the head of its selection, and its order with the
page. Its columns are those of the items. -/
theorem read_toStatement {q : Query} {d : Dialect} {st : Sql.Statement}
    (h : q.toStatement d = .ok st) :
    ∃ sel, Selection.ofQuery q = .ok sel ∧ sel.Named ∧ st.columns = sel.items.map (·.column) ∧
      readStatement? d (tokens st.sql) =
        some (sel.head, (sel.parts q.offset q.limit).arrangement sel.orderTerms d) := by
  rw [Query.toStatement] at h
  obtain ⟨sel, hsel, h⟩ := bind_eq_ok.1 h
  obtain ⟨sql, hsql, h⟩ := bind_eq_ok.1 h
  cases h
  have hnamed := Selection.named_ofQuery hsel
  have hitems : sel.items ≠ [] := Selection.items_ne_nil hsel
  -- The arrangement is read behind the words of the select, and these are the words of the head.
  obtain ⟨sql', hsql', hread⟩ := SelectParts.ofTokens?_written (p := sel.parts q.offset q.limit)
    sel.joins.trim_written_ne rfl (hnamed.orders q.offset q.limit) d
  cases hsql.symm.trans hsql'
  rw [hnamed.tokens_select hitems] at hread
  exact ⟨sel, hsel, hnamed, rfl, readStatement?_eq (hnamed.plain_head hitems) hread⟩

end ArtifactQuery
