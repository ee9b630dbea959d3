import ArtifactQuery.Proofs.StatementTexts

/-!
# Names in the text of a statement

Every table has its own name where a statement introduces it, and every column stands behind the
name of a table that has it: in the select list, in the joins and in the conditions.

* `ColumnName.RefersTo`: a column behind the name of one of the tables, which has it.
* `StatementHead.Resolved`: the names in the head of a statement, each with what it stands for.
* `Named.resolved_head`: the head of a selection has such names.
* `resolved_toStatement`: so does the text of every statement.
-/

namespace ArtifactQuery

open Sql

namespace Sql

/-- Whether the table of the schema with this name has a column. -/
def NamedTable.Owns (t : NamedTable) (column : String) : Prop :=
  ∃ table : Table, table.name = t.table ∧ table.Owns column

/-- Whether a column stands behind the name of one of the tables, which has it. -/
def ColumnName.RefersTo (ts : List NamedTable) (c : ColumnName) : Prop :=
  ∃ t ∈ ts, c.table = some t.name ∧ t.Owns c.column

/-- Whether the names of the tables are distinct, a join compares its own table with an earlier one,
and every column stands behind the name of a table that has it. -/
structure StatementHead.Resolved (h : StatementHead) : Prop where
  distinct : (h.tables.map NamedTable.name).Nodup
  joins : ∀ js j js', h.joins = js ++ j :: js' →
    j.own.RefersTo [j.joined] ∧ j.onto.RefersTo (h.main :: js.map ListedJoin.joined)
  items : ∀ i ∈ h.items, i.source.RefersTo h.tables
  condition : ∀ c ∈ h.condition.filterMap reference?, c.RefersTo h.tables

/-- A column of an occurrence's table, behind the name of the occurrence. -/
theorem refersTo_of_mem {os : List Occurrence} {o : Occurrence} {column : String} (ho : o ∈ os)
    (howns : o.table.Owns column) :
    ColumnName.RefersTo (os.map namedTable) ⟨some o.name, column⟩ :=
  ⟨namedTable o, List.mem_map_of_mem ho, rfl, o.table, rfl, howns⟩

namespace Selection

variable {s : Selection}

/-- The names in the head of a selection are those of its occurrences. -/
theorem Named.resolved_head (hs : s.Named) (hresolved : s.Resolved) : s.head.Resolved := by
  have htables := s.tables_head
  constructor
  case distinct =>
    rw [htables, List.map_map]
    exact hresolved.distinct
  case joins =>
    intro js j js' hjoins
    -- The listed joins are those of the plan, so the ones listed before are the ones joined before.
    obtain ⟨before, rest, hplan, rfl, hrest⟩ := List.map_eq_append_iff.1 hjoins
    obtain ⟨join, after, rfl, rfl, -⟩ := List.map_eq_cons_iff.1 hrest
    obtain ⟨hearlier, hown, honto⟩ := hresolved.joins before join after hplan
    have hrefers := refersTo_of_mem hearlier honto
    rw [List.map_cons, List.map_map] at hrefers
    refine ⟨refersTo_of_mem (List.mem_singleton_self join.occurrence) hown, ?_⟩
    rw [List.map_map]
    exact hrefers
  case items =>
    intro i hi
    obtain ⟨item, hitem, rfl⟩ := List.mem_map.1 hi
    rw [htables]
    exact refersTo_of_mem (hresolved.items item hitem).1 (hresolved.items item hitem).2
  case condition =>
    -- What looks like a column in the text of the condition is one of its conditions' columns.
    have hreferences : s.head.condition.filterMap reference? =
        (s.condition.flatMap Piece.columns).filterMap ColumnRef.named? :=
      hs.namesColumns.references
    intro c hc
    rw [hreferences] at hc
    obtain ⟨ref, href, hnamed⟩ := List.mem_filterMap.1 hc
    obtain ⟨p, hp, href⟩ := List.mem_flatMap.1 href
    obtain ⟨o, ho, rfl⟩ := Option.map_eq_some_iff.1 hnamed
    cases p with
    | condition k =>
      obtain ⟨hmem, howns⟩ := hresolved.conditions k hp ref href o ho
      rw [htables]
      exact refersTo_of_mem hmem howns
    | and | or | openParen | closeParen => cases href

end Selection

end Sql

/-- The text of every statement that is made for a query introduces its tables under distinct names,
joins each to an earlier one, and has every column behind the name of a table that has it. -/
theorem resolved_toStatement {q : Query} (hq : q.StartsAtMain) {d : Dialect} {st : Sql.Statement}
    (h : q.toStatement d = .ok st) :
    ∃ head a, readStatement? d (tokens st.sql) = some (head, a) ∧ head.Resolved := by
  obtain ⟨sel, hsel, hnamed, -, hread⟩ := read_toStatement h
  exact ⟨_, _, hread, hnamed.resolved_head (Selection.resolved_ofQuery hq hsel)⟩

/-- Items by a property, by a denied property and by a module they were built into, with their names
and the names of the items built beside them. -/
def Query.besideOthers : Query where
  domain := .items
  resultFields := [.main .itemName .items, ⟨.itemName, [.items, .artifacts, .items]⟩]
  elements :=
    [.criterion (.property [.items, .properties] "license" ⟨.nodeProps, 100⟩ .equals (.text "GPL")),
     .and,
     .criterion (.property [.items, .properties] "scan" ⟨.nodeProps, 101⟩ .notEquals (.text "no")),
     .or,
     .criterion (.simple [.items, .artifacts, .modules] .moduleName (.plain .buildModules) .equals
       (.text "core"))]

theorem resolved_besideOthers :
    Query.besideOthers.StartsAtMain ∧
      ∃ st head a, Query.besideOthers.toStatement .derby = .ok st ∧
        readStatement? .derby (tokens st.sql) = some (head, a) ∧ head.Resolved ∧
        head.tables.map NamedTable.name = ["n", "ba", "n1", "np100", "bm"] ∧
        (head.condition.filterMap reference?).map ColumnName.written =
          ["np100.prop_key", "np100.prop_value", "n.node_id", "bm.module_name_id"] := by
  have hstarts : Query.besideOthers.StartsAtMain := ⟨by decide, by decide, by decide⟩
  obtain ⟨sel, hsel, hnames⟩ : ∃ sel, Selection.ofQuery Query.besideOthers = .ok sel ∧
      (sel.head.tables.map NamedTable.name,
        ((sel.condition.flatMap Piece.columns).filterMap ColumnRef.named?).map ColumnName.written) =
        (["n", "ba", "n1", "np100", "bm"],
          ["np100.prop_key", "np100.prop_value", "n.node_id", "bm.module_name_id"]) :=
    map_eq_ok.1 (by decide +kernel)
  obtain ⟨htables, hreferences⟩ := Prod.mk.inj hnames
  obtain ⟨st, hst⟩ := Query.exists_toStatement hsel .derby
  obtain ⟨head, a, hread, hresolved⟩ := resolved_toStatement hstarts hst
  obtain ⟨sel', hsel', hnamed, -, hread'⟩ := read_toStatement hst
  cases hsel.symm.trans hsel'
  cases hread.symm.trans hread'
  rw [← hnamed.namesColumns.references] at hreferences
  exact ⟨hstarts, st, _, _, hst, hread, hresolved, htables, hreferences⟩

end ArtifactQuery
