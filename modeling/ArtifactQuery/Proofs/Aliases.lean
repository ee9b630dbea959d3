import ArtifactQuery.Proofs.JoinOrder
import ArtifactQuery.Proofs.Spelling
import ArtifactQuery.Proofs.TextParts

/-!
# Names of occurrences

A statement reads a table several times, each time under a name of its own. Numbers are given away
to result fields, and by the query itself to its criteria; still no name is used twice, and whatever
names a column names it in an occurrence that the statement has.

* `Occurrence.name_injective`: the name tells the table and the number.
* `Table.Owns`: the columns of a table that fields are stored in or that links join on.
* `Condition.columns`: the columns that a condition names.
* `Selection.Resolved`: the names of a selection are distinct, and every column behind a name is one
  of the named table.
* `resolved_ofQuery`: this holds of every selection that is made.
* `Query.exists_toStatement`: every selection is made into a statement.
-/

namespace ArtifactQuery

/-! ## Names -/

section Names

theorem Table.mem_all (t : Table) : t ∈ Table.all := by
  cases t <;> decide

theorem Table.name_injective {t t' : Table} (h : t.name = t'.name) : t = t' := by
  have hall : ∀ t ∈ Table.all, ∀ t' ∈ Table.all, t.name = t'.name → t = t' := by decide
  exact hall t t.mem_all t' t'.mem_all h

theorem Table.aliasStem_injective {t t' : Table} (h : t.aliasStem = t'.aliasStem) : t = t' := by
  have hall : ∀ t ∈ Table.all, ∀ t' ∈ Table.all, t.aliasStem = t'.aliasStem → t = t' := by decide
  exact hall t t.mem_all t' t'.mem_all h

/-- No stem has a digit. -/
theorem Table.aliasStem_all (t : Table) : t.aliasStem.toList.all (! Char.isDigit ·) := by
  cases t <;> decide

namespace Occurrence

/-- What stands behind the stem of a name. -/
def digits (o : Occurrence) : List Char := if o.id = 0 then [] else Nat.toDigits 10 o.id

theorem toList_name (o : Occurrence) : o.name.toList = o.table.aliasStem.toList ++ o.digits := by
  rw [name, digits]
  split
  · rw [List.append_nil]
  · rw [String.toList_append]
    exact congrArg (o.table.aliasStem.toList ++ ·) String.toList_ofList

theorem head?_digits (o : Occurrence) : ¬ o.digits.head?.any (! Char.isDigit ·) := by
  rw [digits]
  split
  · exact Bool.false_ne_true
  · obtain ⟨c, cs, hcons, hdigits, -⟩ := Token.exists_toDigits o.id
    rw [List.all_cons, Bool.and_eq_true] at hdigits
    rw [hcons, List.head?_cons, Option.any_some, hdigits.1]
    exact Bool.false_ne_true

theorem id_eq_of_digits {o o' : Occurrence} (h : o.digits = o'.digits) : o.id = o'.id := by
  obtain ⟨c, cs, hcons, -, hvalue⟩ := Token.exists_toDigits o.id
  obtain ⟨c', cs', hcons', -, hvalue'⟩ := Token.exists_toDigits o'.id
  rw [digits, digits, hcons, hcons'] at h
  split at h
  case isTrue hzero =>
    split at h
    case isTrue hzero' => rw [hzero, hzero']
    case isFalse => cases h
  case isFalse =>
    split at h
    case isTrue => cases h
    case isFalse => rw [← hvalue, ← hvalue', h]

/-- The letters of a name are those of the table, and the digits behind them are the number. -/
theorem name_injective {o o' : Occurrence} (h : o.name = o'.name) : o = o' := by
  obtain ⟨hstem, hdigits⟩ := takeWhile_dropWhile_append o.table.aliasStem_all o.head?_digits
  obtain ⟨hstem', hdigits'⟩ := takeWhile_dropWhile_append o'.table.aliasStem_all o'.head?_digits
  have htext : o.table.aliasStem.toList ++ o.digits = o'.table.aliasStem.toList ++ o'.digits := by
    rw [← toList_name, ← toList_name, h]
  rw [htext] at hstem hdigits
  have htable : o.table = o'.table :=
    Table.aliasStem_injective (String.toList_inj.1 (hstem.symm.trans hstem'))
  have hid := id_eq_of_digits (hdigits.symm.trans hdigits')
  cases o
  cases o'
  cases htable
  cases hid
  rfl

end Occurrence

end Names

/-! ## Columns -/

/-- Whether a table has a column: a field is stored in it, or a link joins on it. -/
def Table.Owns (t : Table) (column : String) : Prop :=
  (∃ f : Field, f.column.table = t ∧ f.column.column = column) ∨
    ∃ l ∈ Link.all,
      (l.first = t ∧ l.firstColumn = column) ∨ (l.second = t ∧ l.secondColumn = column)

theorem Field.owns (f : Field) : f.column.table.Owns f.column.column := .inl ⟨f, rfl, rfl⟩

/-- Both tables have the columns on which they are joined. -/
theorem Table.owns_of_link? {a b : Table} {c : String × String} (h : a.link? b = some c) :
    a.Owns c.1 ∧ b.Owns c.2 := by
  obtain ⟨l, hl, hc⟩ := List.exists_of_findSome?_eq_some h
  rw [Link.columns?] at hc
  split at hc
  case isTrue hends =>
    cases hc
    exact ⟨.inr ⟨l, hl, .inl ⟨hends.1, rfl⟩⟩, .inr ⟨l, hl, .inr ⟨hends.2, rfl⟩⟩⟩
  case isFalse =>
    split at hc
    case isTrue hends =>
      cases hc
      exact ⟨.inr ⟨l, hl, .inr ⟨hends.1, rfl⟩⟩, .inr ⟨l, hl, .inl ⟨hends.2, rfl⟩⟩⟩
    case isFalse => cases hc

theorem Table.link_eq_ok {a b : Table} {c : String × String} (h : a.link b = .ok c) :
    a.link? b = some c := by
  rw [link] at h
  split at h
  case h_1 c' hc' =>
    cases h
    exact hc'
  case h_2 => cases h

/-- Tables of properties have keys and values. -/
theorem Table.owns_of_holdsProperties {t : Table} (h : t.holdsProperties) :
    t.Owns "prop_key" ∧ t.Owns "prop_value" := by
  cases t with
  | nodeProps => exact ⟨Field.propertyKey.owns, Field.propertyValue.owns⟩
  | moduleProps => exact ⟨Field.modulePropertyKey.owns, Field.modulePropertyValue.owns⟩
  | buildProps => exact ⟨Field.buildPropertyKey.owns, Field.buildPropertyValue.owns⟩
  | _ => cases h

namespace Sql

/-- The columns that a term names. -/
def Term.columns : Term → List ColumnRef
  | column c | columnHead _ c => [c]
  | param _ | paramHead _ _ => []

/-- The columns that a condition names. -/
def Condition.columns : Condition → List ColumnRef
  | compare l _ r => l.columns ++ r.columns
  | isNull c | isNotNull c => [c]
  | always | never => []
  | both a b | either a b => a.columns ++ b.columns
  | noneOf c _ _ a b => c :: (a.columns ++ b.columns)

/-- Whether a column, if it stands behind a name, is one of a named occurrence's table. -/
def ColumnRef.Resolves (os : List Occurrence) (c : ColumnRef) : Prop :=
  ∀ o ∈ c.source, o ∈ os ∧ o.table.Owns c.column

/-- Whether the names of a selection are distinct, joins name earlier occurrences, and every column
behind a name is one of the table that is read under this name. -/
structure Selection.Resolved (s : Selection) : Prop where
  distinct : (s.joins.occurrences.map Occurrence.name).Nodup
  joins : ∀ js j js', s.joins.joins = js ++ j :: js' →
    j.onto ∈ s.joins.main :: js.map Join.occurrence ∧
      j.occurrence.table.Owns j.column ∧ j.onto.table.Owns j.ontoColumn
  items : ∀ i ∈ s.items, i.occurrence ∈ s.joins.occurrences ∧ i.occurrence.table.Owns i.reads
  conditions : ∀ k, .condition k ∈ s.condition → ∀ c ∈ k.columns, c.Resolves s.joins.occurrences

/-! ## Conditions of criteria -/

/-- A comparison names its own column only. -/
theorem Comparison.column_eq {c : Comparison} {k : Condition} (h : c.condition = .ok k) :
    ∀ r ∈ k.columns, r = c.column := by
  -- A null test may be added to an ordinary comparison, of the same column.
  have hordinary : ∀ {k}, c.ordinary = .ok k → ∀ r ∈ k.columns, r = c.column := by
    intro k hk r hr
    obtain ⟨⟨rel, v⟩, -, hk⟩ := bind_eq_ok.1 hk
    obtain ⟨p, -, hk⟩ := bind_eq_ok.1 hk
    have hleft : c.columnTerm.columns = [c.column] := by
      rw [columnTerm]
      split <;> rfl
    have hright : (c.paramTerm p).columns = [] := by
      rw [paramTerm]
      split <;> rfl
    dsimp only at hk
    split at hk
    all_goals
      cases hk
      simpa [Condition.columns, hleft, hright] using hr
  rw [condition] at h
  split at h
  · cases h
    exact fun r hr => List.mem_singleton.1 hr
  · cases h
    exact fun r hr => List.mem_singleton.1 hr
  · cases h
  · cases h
    exact fun r hr => by cases hr
  · cases h
    exact fun r hr => by cases hr
  · exact hordinary h

theorem orRefused_eq_ok {α : Type} {bound : List Param} {x : Except QueryError α} {a : α}
    (h : orRefused bound x = .ok a) : x = .ok a := by
  cases x with
  | error e => cases h
  | ok a' =>
    cases h
    rfl

/-- Owner and properties have the columns on which a sub-select hangs. -/
theorem owns_of_ownerColumns {owner property : Table} {c : String × String}
    (h : ownerColumns owner property = .ok c) : owner.Owns c.1 ∧ property.Owns c.2 := by
  rw [ownerColumns] at h
  split at h
  case isTrue heq =>
    obtain ⟨c', hlink, rfl⟩ := map_eq_ok.1 h
    have howns := (Table.owns_of_link? (Table.link_eq_ok hlink)).1
    exact ⟨heq ▸ howns, howns⟩
  case isFalse => exact Table.owns_of_link? (Table.link_eq_ok h)

/-- A column of an occurrence that the statement has. -/
theorem resolves_some {os : List Occurrence} {o : Occurrence} {column : String} (ho : o ∈ os)
    (howns : o.table.Owns column) : ColumnRef.Resolves os ⟨some o, column⟩ := by
  intro o' ho'
  cases ho'
  exact ⟨ho, howns⟩

theorem resolves_innerColumn (os : List Occurrence) (column : String) :
    (innerColumn column).Resolves os := by
  intro o ho
  cases ho

variable {p : JoinPlan} {c : Criterion} {r : Reading} {k : Condition}

/-- A condition on a property names its key and its value, or the column of their owner. -/
theorem resolves_renderProperty {t : Table} {key : String} {v : Value} (hr : p.Reads c t r)
    (ht : t.holdsProperties) (hkind : c.kind.namesKey)
    (h : c.renderProperty key v r.occurrence (r.owner.getD r.occurrence) = .ok k) :
    ∀ ref ∈ k.columns, ref.Resolves p.occurrences := by
  obtain ⟨hkey, hvalue⟩ := Table.owns_of_holdsProperties ht
  rw [Criterion.renderProperty] at h
  split at h
  case isTrue hpositive =>
    have hmem := hr.occurrence fun hdenies => hpositive hdenies.2
    obtain ⟨value, hcondition, h⟩ := bind_eq_ok.1 h
    have hcolumns := Comparison.column_eq (orRefused_eq_ok hcondition)
    cases h
    intro ref href
    rcases List.mem_append.1 href with href | href
    · rw [List.mem_singleton.1 href]
      exact resolves_some hmem (hr.table ▸ hkey)
    · rw [hcolumns ref href]
      exact resolves_some hmem (hr.table ▸ hvalue)
  case isFalse hnegative =>
    have hmem := hr.owner ⟨hkind, not_not.1 hnegative⟩
    obtain ⟨⟨ownerColumn, column⟩, howner, h⟩ := bind_eq_ok.1 h
    obtain ⟨value, hcondition, h⟩ := bind_eq_ok.1 h
    have hcolumns := Comparison.column_eq (orRefused_eq_ok hcondition)
    cases h
    intro ref href
    rcases List.mem_cons.1 href with rfl | href
    · exact resolves_some hmem (owns_of_ownerColumns (orRefused_eq_ok howner)).1
    -- The columns inside the sub-select stand behind no name.
    · rcases List.mem_append.1 href with href | href
      · rw [List.mem_singleton.1 href]
        exact resolves_innerColumn _ _
      · rw [hcolumns ref href]
        exact resolves_innerColumn _ _

/-- A condition names columns of what the criterion reads. -/
theorem resolves_render (hr : ∀ t ∈ comparedTable? c, p.Reads c t r)
    (hkind : c.kind.namesKey → c.leftTable.table.holdsProperties)
    (h : c.render r.occurrence r.owner = .ok k) :
    ∀ ref ∈ k.columns, ref.Resolves p.occurrences := by
  rw [Criterion.render] at h
  split at h
  · cases h
  split at h
  case isTrue hnames =>
    split at h
    case h_2 => cases h
    case h_1 v key hleft =>
      have ht : comparedTable? c = some c.leftTable.table := by
        rw [comparedTable?, hleft, if_pos hnames]
      exact resolves_renderProperty (hr _ ht) (hkind hnames) hnames h
  -- Fields are read where their table was planned for, and bound values name nothing.
  case isFalse hnames =>
    split at h
    case h_1 v f hleft =>
      have ht : comparedTable? c = some f.column.table := by rw [comparedTable?, hleft]
      have hreads := hr _ ht
      have hmem := hreads.occurrence fun hdenies => hnames hdenies.1
      have hcolumns := Comparison.column_eq (orRefused_eq_ok h)
      intro ref href
      rw [hcolumns ref href]
      exact resolves_some hmem (hreads.table ▸ f.owns)
    case h_2 =>
      rw [Criterion.renderValues] at h
      split at h
      case h_3 => cases h
      all_goals
        rw [ok_bind] at h
        obtain ⟨left, -, h⟩ := bind_eq_ok.1 h
        obtain ⟨right, -, h⟩ := bind_eq_ok.1 h
        cases h
        intro ref href
        cases href

/-! ## Selections -/

theorem ColumnRef.Resolves.mono {os os' : List Occurrence} {ref : ColumnRef}
    (h : ref.Resolves os) (hos : os ⊆ os') : ref.Resolves os' :=
  fun o ho => ⟨hos (h o ho).1, (h o ho).2⟩

/-- Whether an item returns its field from an occurrence of the field's table. -/
def SelectItem.ReadsIn (os : List Occurrence) (i : SelectItem) : Prop :=
  i.occurrence ∈ os ∧ i.occurrence.table = i.column.field.field.column.table ∧
    i.reads = i.column.field.field.column.column

end Sql

/-- Whether the paths of a query start at its domain, and criteria that name a key are on tables of
properties. -/
structure Query.StartsAtMain (q : Query) : Prop where
  fields : ∀ f ∈ q.resultFields, f.path.head? = some q.domain
  criteria : ∀ c ∈ q.criteria, c.path.head? = some q.domain
  properties : ∀ c ∈ q.criteria, c.kind.namesKey → c.leftTable.table.holdsProperties

namespace Sql.Selection

variable {d : Domain} {p p' : JoinPlan}

/-- Items are read from occurrences of the plan. -/
theorem readsIn_addItems {fs : List ResultField} (hfs : ∀ f ∈ fs, f.path.head? = some d) :
    ∀ {p : JoinPlan} {items items' : List SelectItem}, p.Ordered → p.main.table = d.table →
      (∀ i ∈ items, i.ReadsIn p.occurrences) → addItems p items fs = .ok (items', p') →
      p.Grown p' ∧ ∀ i ∈ items', i.ReadsIn p'.occurrences := by
  induction fs with
  | nil =>
    intro p items items' hp _ hitems h
    cases h
    exact ⟨hp.grown, hitems⟩
  | cons f fs ih =>
    intro p items items' hp hmain hitems h
    obtain ⟨hf, hfs⟩ := List.forall_mem_cons.1 hfs
    rw [addItems] at h
    obtain ⟨⟨o, p₁⟩, hfield, h⟩ := bind_eq_ok.1 h
    have ho := JoinPlan.arrives_forField hp hmain hf hfield
    have htable : o.table = f.field.column.table :=
      Option.some.inj (ho.table.symm.trans (getLast?_tableChain _ _))
    have hitems' : ∀ i ∈ items ++ [⟨o, f.field.column.column,
        ⟨freshName (items.map (·.column.name)) f.field.column.label, f⟩⟩],
        i.ReadsIn p₁.occurrences := by
      intro i hi
      rcases List.mem_append.1 hi with hi | hi
      · exact ⟨ho.keeps (hitems i hi).1, (hitems i hi).2⟩
      · rw [List.mem_singleton.1 hi]
        exact ⟨ho.reached, htable, rfl⟩
    obtain ⟨hgrown, hread⟩ := ih hfs ho.ordered (ho.main ▸ hmain) hitems' h
    exact ⟨ho.toGrown.trans hgrown, hread⟩

/-- The condition of an element names columns of the plan. -/
theorem resolves_pieceOf {p : JoinPlan} {e : Element} {piece : Piece} (hp : p.Ordered)
    (hmain : p.main.table = d.table) (hpath : ∀ c, e = .criterion c → c.path.head? = some d)
    (hkind : ∀ c, e = .criterion c → c.kind.namesKey → c.leftTable.table.holdsProperties)
    (h : pieceOf p e = .ok (piece, p')) :
    p.Grown p' ∧ ∀ k, piece = .condition k → ∀ ref ∈ k.columns, ref.Resolves p'.occurrences := by
  cases e with
  | criterion c =>
    rw [pieceOf] at h
    obtain ⟨⟨r, p₁⟩, hread, h⟩ := bind_eq_ok.1 h
    obtain ⟨hgrown, hreads⟩ := JoinPlan.reads_forCriterion hp hmain (hpath c rfl) hread
    dsimp only at h
    split at h
    · rename_i k hk
      cases h
      refine ⟨hgrown, fun k' hk' => ?_⟩
      cases hk'
      exact resolves_render hreads (hkind c rfl) hk
    · cases h
  | and | or | openParen | closeParen =>
    cases h
    exact ⟨hp.grown, fun k hk => by cases hk⟩

/-- Conditions name columns of the plan. -/
theorem resolves_piecesOf {es : List Element}
    (hpath : ∀ c, .criterion c ∈ es → c.path.head? = some d)
    (hkind : ∀ c, .criterion c ∈ es → c.kind.namesKey → c.leftTable.table.holdsProperties) :
    ∀ {p : JoinPlan} {pieces : List Piece}, p.Ordered → p.main.table = d.table →
      piecesOf p es = .ok (pieces, p') →
      p.Grown p' ∧
        ∀ k, .condition k ∈ pieces → ∀ ref ∈ k.columns, ref.Resolves p'.occurrences := by
  induction es with
  | nil =>
    intro p pieces hp _ h
    cases h
    exact ⟨hp.grown, fun k hk => by cases hk⟩
  | cons e es ih =>
    intro p pieces hp hmain h
    rw [piecesOf] at h
    obtain ⟨⟨piece, p₁⟩, hpiece, h⟩ := bind_eq_ok.1 h
    obtain ⟨⟨rest, p₂⟩, hrest, h⟩ := bind_eq_ok.1 h
    cases h
    obtain ⟨hgrown, hresolves⟩ := resolves_pieceOf hp hmain
      (fun c hc => hpath c (hc ▸ List.mem_cons_self))
      (fun c hc => hkind c (hc ▸ List.mem_cons_self)) hpiece
    obtain ⟨hgrown', hresolves'⟩ := ih (fun c hc => hpath c (List.mem_cons_of_mem _ hc))
      (fun c hc => hkind c (List.mem_cons_of_mem _ hc)) hgrown.ordered (hgrown.main ▸ hmain) hrest
    refine ⟨hgrown.trans hgrown', fun k hk => ?_⟩
    rcases List.mem_cons.1 hk with hk | hk
    · exact fun ref href => (hresolves k hk.symm ref href).mono hgrown'.keeps
    · exact hresolves' k hk

theorem resolved_ofQuery {q : Query} (hq : q.StartsAtMain) {s : Selection}
    (h : ofQuery q = .ok s) : s.Resolved := by
  obtain ⟨p, hitems, hpieces⟩ := ofQuery_eq_ok h
  obtain ⟨hadded, hread⟩ := readsIn_addItems (d := q.domain) hq.fields
    (JoinPlan.ordered_start q.domain.table) rfl (fun i hi => by cases hi) hitems
  have hcriteria : ∀ {c}, .criterion c ∈ q.elements → c ∈ q.criteria :=
    fun hc => List.mem_filterMap.2 ⟨_, hc, rfl⟩
  obtain ⟨hgrown, hresolves⟩ := resolves_piecesOf (d := q.domain)
    (fun c hc => hq.criteria c (hcriteria hc)) (fun c hc => hq.properties c (hcriteria hc))
    hadded.ordered (by rw [hadded.main]; rfl) hpieces
  refine ⟨?_, fun js j js' hjs => ?_, fun i hi => ?_, hresolves⟩
  · exact hgrown.ordered.distinct.map fun o o' ho => Occurrence.name_injective ho
  · have hj : j ∈ s.joins.joins := hjs ▸ List.mem_append_right _ List.mem_cons_self
    obtain ⟨honto, hjoined⟩ := Table.owns_of_link? (hgrown.ordered.linked j hj)
    exact ⟨hgrown.ordered.inOrder js j js' hjs, hjoined, honto⟩
  · obtain ⟨hmem, htable, hreads⟩ := hread i hi
    rw [htable, hreads]
    exact ⟨hgrown.keeps hmem, i.column.field.field.owns⟩

end Sql.Selection

/-! ## Statements -/

/-- The `from` clause starts with the name of the main table. -/
theorem Sql.JoinPlan.trim_written_ne (p : Sql.JoinPlan) : trim p.written ≠ "" := by
  have hname : p.main.table.name.toList.any (!isBlank ·) = true := by
    cases p.main.table <;> decide
  obtain ⟨c, hc, hnot⟩ := List.any_eq_true.1 hname
  have hblank : isBlank c = false := by simpa using hnot
  have hmem : c ∈ p.written.toList := by
    rw [written]
    cases p.joins.map Join.written with
    | nil =>
      rw [String.intercalate_singleton, String.toList_append, String.toList_append]
      exact List.mem_append_left _ (List.mem_append_left _ hc)
    | cons j js =>
      rw [String.intercalate_cons_cons]
      simp only [String.toList_append, List.append_assoc]
      exact List.mem_append_left _ hc
  intro hempty
  have hnil : trimChars p.written.toList = [] := by
    rw [← String.toList_ofList (l := trimChars p.written.toList)]
    exact congrArg String.toList hempty
  exact trimChars_ne_nil hmem hblank hnil

/-- Every selection is made into a statement. -/
theorem Query.exists_toStatement {q : Query} {sel : Sql.Selection}
    (h : Sql.Selection.ofQuery q = .ok sel) (d : Dialect) : ∃ st, q.toStatement d = .ok st := by
  have htables : trim (sel.parts q.offset q.limit).tables ≠ "" := sel.joins.trim_written_ne
  rw [toStatement, h, ok_bind, Sql.SelectParts.written, if_neg htables]
  split <;> exact ⟨_, rfl⟩

end ArtifactQuery
