import ArtifactQuery.Proofs.ConditionTruth
import ArtifactQuery.Proofs.Outcome

/-!
# Tests of property values

What the condition of a criterion on properties says about the rows that it reads.

* `Cell.IsText`, `Cell.Fits`: a cell is a text or matches a pattern, whole or by its head.
* `Criterion.judged`: a criterion on properties judged by the rows that it reads.
* `TestsKey.render_asked`: a property is looked up in the row of an occurrence.
* `TestsKey.render_denied`: a denied property is looked up in all rows of its table.
* `judged_column_equals`, `judged_of_asks` and their denials: what rows make a criterion true.
-/

namespace ArtifactQuery

open Sql

/-! ## Cells compared with texts -/

namespace Cell

/-- The first characters of a cell if a number of them is given, and the whole cell otherwise. -/
def upTo (head : Option Nat) (cell : Cell) : Cell :=
  match head with
  | some n => cell.head n
  | none => cell

/-- Whether a cell is the text `s`, or, given a number of characters, whether it starts as `s` does.
-/
def IsText (head : Option Nat) (s : String) (cell : Cell) : Prop :=
  cell.upTo head = (text s).upTo head

instance (head : Option Nat) (s : String) (cell : Cell) : Decidable (cell.IsText head s) :=
  inferInstanceAs (Decidable (_ = _))

/-- Whether a cell satisfies a comparison that asks for a text or for a pattern. -/
def Fits (db : Database) (head : Option Nat) (cell : Cell) : Comparator → String → Prop
  | .equals, s => cell.IsText head s
  | .matching, s =>
    Relation.like.relates db (cell.upTo head) ((text (Wildcard.toLike s)).upTo head) = true
  | _, _ => False

instance (db : Database) (head : Option Nat) (cell : Cell) (cmp : Comparator) (s : String) :
    Decidable (cell.Fits db head cmp s) :=
  match cmp with
  | .equals => inferInstanceAs (Decidable (cell.IsText head s))
  | .matching => inferInstanceAs (Decidable (_ = true))
  | .notEquals | .greater | .greaterEquals | .less | .lessEquals | .notMatching | .last | .before =>
    inferInstanceAs (Decidable False)

/-- Whether a cell satisfies a comparison that asks for a value, which is a text or null. -/
def Satisfies (db : Database) (head : Option Nat) (cell : Cell) (cmp : Comparator) : Value → Prop
  | .text s => cell.Fits db head cmp s
  | .null => cell = .null
  | _ => False

variable {cell : Cell} {head : Option Nat}

theorem upTo_eq_null_iff : cell.upTo head = null ↔ cell = null := by
  cases head with
  | none => exact Iff.rfl
  | some n => cases cell <;> simp [upTo, Cell.head]

theorem upTo_text_ne_null (head : Option Nat) (s : String) : (text s).upTo head ≠ null := by
  rw [Ne, upTo_eq_null_iff]
  exact Cell.noConfusion

end Cell

/-! ## Conditions on one cell -/

/-- Whether a comparator asks for a text or for a pattern. -/
def Comparator.Asks (cmp : Comparator) : Prop := cmp = .equals ∨ cmp = .matching

/-- Whether a comparator denies a text or a pattern. -/
def Comparator.Denies (cmp : Comparator) : Prop := cmp = .notEquals ∨ cmp = .notMatching

/-- Whether a comparator can ask for a value: a text, or null, which fits no pattern. -/
def Comparator.CanAsk (cmp : Comparator) (v : Value) : Prop :=
  cmp.Asks ∧ ((∃ s, v = .text s) ∨ v = .null ∧ cmp = .equals)

namespace Comparator

variable {cmp : Comparator}

theorem Asks.isNegative_eq (h : cmp.Asks) : cmp.isNegative = false := by
  rcases h with rfl | rfl <;> rfl

theorem Asks.positive_eq (h : cmp.Asks) : cmp.positive = cmp := by
  rcases h with rfl | rfl <;> rfl

theorem Denies.isNegative_eq (h : cmp.Denies) : cmp.isNegative = true := by
  rcases h with rfl | rfl <;> rfl

theorem Denies.asks_positive (h : cmp.Denies) : cmp.positive.Asks := by
  rcases h with rfl | rfl
  · exact .inl rfl
  · exact .inr rfl

end Comparator

namespace Sql

variable {db : Database} {rows : Combination} {inner : Record} {s : String}

namespace Comparison

theorem columnTerm_cell (c : Comparison) :
    c.columnTerm.cell rows inner = (c.column.cell rows inner).upTo c.head := by
  rw [columnTerm]
  cases c.head <;> rfl

theorem paramTerm_cell (c : Comparison) (p : Param) :
    (c.paramTerm p).cell rows inner = p.cell.upTo c.head := by
  rw [paramTerm]
  cases c.head <;> rfl

theorem holds_equals (c : Comparison) :
    (Condition.compare c.columnTerm .eq (c.paramTerm (.text s))).holds db rows inner = true ↔
      (c.column.cell rows inner).IsText c.head s := by
  rw [Condition.holds_compare, c.columnTerm_cell, c.paramTerm_cell, Relation.relates,
    decide_eq_true_iff]
  constructor
  · rintro ⟨-, -, h⟩
    exact h
  · intro h
    have hcell : (c.column.cell rows inner).upTo c.head ≠ .null := by
      rw [h]
      exact Cell.upTo_text_ne_null _ s
    exact ⟨hcell, Cell.upTo_text_ne_null _ s, h⟩

/-- Only texts fit patterns, so that nothing is left to say of null. -/
theorem holds_like (c : Comparison) :
    (Condition.compare c.columnTerm .like (c.paramTerm (.text (Wildcard.toLike s)))).holds
        db rows inner = true ↔ (c.column.cell rows inner).Fits db c.head .matching s := by
  rw [Condition.holds_compare, c.columnTerm_cell, c.paramTerm_cell, Cell.Fits]
  constructor
  · rintro ⟨-, -, h⟩
    exact h
  · intro h
    refine ⟨fun hnull => ?_, Cell.upTo_text_ne_null _ _, h⟩
    rw [hnull] at h
    cases h

/-- The denial that also holds of null. -/
theorem holds_notEquals (c : Comparison) :
    (Condition.either (.compare c.columnTerm .ne (c.paramTerm (.text s))) (.isNull c.column)).holds
      db rows inner = true ↔ ¬ (c.column.cell rows inner).IsText c.head s := by
  rw [Condition.holds_either, Condition.holds_isNull, Bool.or_eq_true, Condition.holds_compare,
    c.columnTerm_cell, c.paramTerm_cell, Relation.relates, decide_eq_true_iff, decide_eq_true_iff]
  constructor
  · rintro (⟨-, -, h⟩ | hnull)
    · exact h
    · intro h
      have hcell : (c.column.cell rows inner).upTo c.head = .null :=
        Cell.upTo_eq_null_iff.2 hnull
      exact Cell.upTo_text_ne_null c.head s (h.symm.trans hcell)
  · intro h
    by_cases hnull : c.column.cell rows inner = .null
    · exact .inr hnull
    · exact .inl ⟨fun h' => hnull (Cell.upTo_eq_null_iff.1 h'), Cell.upTo_text_ne_null _ s, h⟩

/-- A comparison that asks for a text becomes a condition that says whether the cell fits. -/
theorem condition_of_asks {c : Comparison} (hcmp : c.comparator.Asks) (hs : c.value = .text s) :
    ∃ k, c.condition = .ok k ∧ ∀ db rows inner,
      k.holds db rows inner = true ↔ (c.column.cell rows inner).Fits db c.head c.comparator s := by
  obtain ⟨column, nullable, head, cmp, v⟩ := c
  cases hs
  rcases hcmp with hcmp | hcmp <;> cases hcmp
  · exact ⟨_, rfl, fun db rows inner => holds_equals ⟨column, nullable, head, .equals, .text s⟩⟩
  · exact ⟨_, rfl, fun db rows inner => holds_like ⟨column, nullable, head, .matching, .text s⟩⟩

/-- A comparison that asks becomes a condition that says whether the cell satisfies it. -/
theorem condition_of_canAsk {c : Comparison} (h : c.comparator.CanAsk c.value) :
    ∃ k, c.condition = .ok k ∧ ∀ db rows inner, k.holds db rows inner = true ↔
      (c.column.cell rows inner).Satisfies db c.head c.comparator c.value := by
  obtain ⟨hcmp, ⟨s, hs⟩ | ⟨hnull, hequals⟩⟩ := h
  · obtain ⟨k, hk, hholds⟩ := condition_of_asks hcmp hs
    refine ⟨k, hk, fun db rows inner => ?_⟩
    rw [hholds, hs]
    rfl
  · obtain ⟨column, nullable, head, cmp, v⟩ := c
    cases hnull
    cases hequals
    refine ⟨.isNull column, rfl, fun db rows inner => ?_⟩
    rw [Condition.holds_isNull, decide_eq_true_iff]
    rfl

end Comparison

theorem holds_key {key : String} (column : ColumnRef) :
    (Condition.compare (.column column) .eq (.param (.text key))).holds db rows inner = true ↔
      column.cell rows inner = .text key :=
  Comparison.holds_equals ⟨column, false, none, .equals, .text key⟩

end Sql

/-! ## Conditions of criteria on properties -/

/-- How many characters of a value are compared, if not all of them. -/
def CriterionKind.head? : CriterionKind → Option Nat
  | propertyColumnHead | propertyHead => some headLength
  | _ => none

namespace Criterion

/-- Whether a criterion compares the value column of a property table. -/
structure TestsColumn (c : Criterion) (cmp : Comparator) (s : String) : Prop where
  kind : c.kind = .propertyColumn ∨ c.kind = .propertyColumnHead
  left : c.left = .field .propertyValue
  comparator : c.comparator = cmp
  right : c.right = .value (.text s)

/-- Whether a criterion compares the value of the property `key`. -/
structure TestsKey (c : Criterion) (key : String) (cmp : Comparator) (s : String) : Prop where
  kind : c.kind = .property ∨ c.kind = .propertyHead
  left : c.left = .value (.text key)
  comparator : c.comparator = cmp
  right : c.right = .value (.text s)

variable {c : Criterion} {key s : String} {cmp : Comparator}

theorem TestsColumn.ne_simple (h : c.TestsColumn cmp s) : c.kind ≠ .simple := by
  rcases h.kind with hkind | hkind <;> rw [hkind] <;> decide

theorem TestsKey.ne_simple (h : c.TestsKey key cmp s) : c.kind ≠ .simple := by
  rcases h.kind with hkind | hkind <;> rw [hkind] <;> decide

theorem TestsKey.render_eq (h : c.TestsKey key cmp s) (o : Occurrence) (owner : Option Occurrence) :
    c.render o owner = c.renderProperty key (.text s) o (owner.getD o) := by
  have hnames : c.kind.namesKey = true := by
    rcases h.kind with hkind | hkind <;> rw [hkind] <;> rfl
  rw [render, h.right]
  dsimp only
  rw [if_pos hnames, h.left]

/-- How many characters of a property's value are compared, if not all of them. -/
theorem TestsKey.head_eq (h : c.TestsKey key cmp s) :
    (if c.kind = .propertyHead then some headLength else none) = c.kind.head? := by
  rcases h.kind with hkind | hkind <;> rw [hkind] <;> rfl

/-- A property that is asked for is looked up in the row of the occurrence. -/
theorem renderProperty_asked (key : String) {v : Value} (hcmp : c.comparator.CanAsk v)
    (o owner : Occurrence) :
    ∃ k, c.renderProperty key v o owner = .ok k ∧ ∀ db rows inner,
      k.holds db rows inner = true ↔ rows o "prop_key" = .text key ∧
        (rows o "prop_value").Satisfies db
          (if c.kind = .propertyHead then some headLength else none) c.comparator v := by
  have hnot : ¬ c.comparator.isNegative = true := by
    rw [hcmp.1.isNegative_eq]
    exact Bool.false_ne_true
  obtain ⟨k, hk, hholds⟩ := Comparison.condition_of_canAsk (c := ⟨⟨some o, "prop_value"⟩, true,
    if c.kind = .propertyHead then some headLength else none, c.comparator, v⟩) hcmp
  refine ⟨.both (.compare (.column ⟨some o, "prop_key"⟩) .eq (.param (.text key))) k, ?_,
    fun db rows inner => ?_⟩
  · rw [renderProperty, if_pos hnot, hk]
    rfl
  · rw [Condition.holds_both, Bool.and_eq_true, holds_key, hholds]
    rfl

/-- A denied property is looked up in all rows of its table: each that has the key and satisfies the
comparison belongs to another owner, and both are known. -/
theorem renderProperty_denied (key : String) {v : Value} (hneg : c.comparator.isNegative = true)
    (hcmp : c.comparator.positive.CanAsk v) {o owner : Occurrence} {link : String × String}
    (hlink : ownerColumns owner.table o.table = .ok link) :
    ∃ k, c.renderProperty key v o owner = .ok k ∧ ∀ db rows inner,
      k.holds db rows inner = true ↔ ∀ row ∈ db.rows o.table, row "prop_key" = .text key →
        (row "prop_value").Satisfies db (if c.kind = .propertyHead then some headLength else none)
          c.comparator.positive v →
        rows owner link.1 ≠ .null ∧ row link.2 ≠ .null ∧ rows owner link.1 ≠ row link.2 := by
  obtain ⟨k, hk, hholds⟩ := Comparison.condition_of_canAsk (c := ⟨innerColumn "prop_value", false,
    if c.kind = .propertyHead then some headLength else none, c.comparator.positive, v⟩) hcmp
  refine ⟨.noneOf ⟨some owner, link.1⟩ link.2 o.table
    (.compare (.column (innerColumn "prop_key")) .eq (.param (.text key))) k, ?_,
    fun db rows inner => ?_⟩
  · rw [renderProperty, if_neg (not_not.2 hneg), hlink, hk]
    rfl
  · rw [Condition.holds_noneOf]
    simp only [holds_key, hholds]
    rfl

theorem TestsKey.render_asked (h : c.TestsKey key cmp s) (hcmp : cmp.Asks) (o : Occurrence)
    (owner : Option Occurrence) : ∃ k, c.render o owner = .ok k ∧ ∀ db rows inner,
      k.holds db rows inner = true ↔ rows o "prop_key" = .text key ∧
        (rows o "prop_value").Fits db c.kind.head? cmp s := by
  obtain rfl := h.comparator
  rw [h.render_eq, ← h.head_eq]
  exact renderProperty_asked key ⟨hcmp, .inl ⟨s, rfl⟩⟩ o (owner.getD o)

theorem TestsKey.render_denied (h : c.TestsKey key cmp s) (hcmp : cmp.Denies) (o : Occurrence)
    (owner : Option Occurrence) {link : String × String}
    (hlink : ownerColumns (owner.getD o).table o.table = .ok link) :
    ∃ k, c.render o owner = .ok k ∧ ∀ db rows inner,
      k.holds db rows inner = true ↔ ∀ row ∈ db.rows o.table, row "prop_key" = .text key →
        (row "prop_value").Fits db c.kind.head? cmp.positive s →
        rows (owner.getD o) link.1 ≠ .null ∧ row link.2 ≠ .null ∧
          rows (owner.getD o) link.1 ≠ row link.2 := by
  obtain rfl := h.comparator
  rw [h.render_eq, ← h.head_eq]
  exact renderProperty_denied key hcmp.isNegative_eq ⟨hcmp.asks_positive, .inl ⟨s, rfl⟩⟩ hlink

/-- Without columns that link owner and properties a denial becomes no condition. -/
theorem TestsKey.render_of_no_link (h : c.TestsKey key cmp s) (hcmp : cmp.Denies) (o : Occurrence)
    (owner : Option Occurrence) {e : QueryError}
    (hlink : ownerColumns (owner.getD o).table o.table = .error e) :
    c.render o owner = .error ⟨e, []⟩ := by
  obtain rfl := h.comparator
  have hneg : ¬ ¬ c.comparator.isNegative = true := not_not.2 hcmp.isNegative_eq
  rw [h.render_eq, renderProperty, if_neg hneg, hlink]
  rfl

end Criterion

/-! ## Criteria judged by rows -/

/-- Where criteria read: the number of the occurrence, and the owner of the properties in it, by the
path of a criterion and the occurrence that it names. -/
abbrev Places := List Domain → Occurrence → Nat × Option Occurrence

namespace Criterion

/-- The occurrence that a criterion reads. -/
def placeIn (p : Places) (c : Criterion) : Occurrence :=
  ⟨c.leftTable.table, (p c.path c.leftTable).1⟩

/-- The owner of the properties that a criterion reads. -/
def ownerIn (p : Places) (c : Criterion) : Option Occurrence := (p c.path c.leftTable).2

/-- A criterion on properties is judged by the rows that it reads: whether its condition is true of
them. All others have the value that `v` gives them. -/
def judged (db : Database) (rows : Combination) (p : Places) (v : Criterion → Bool)
    (c : Criterion) : Bool :=
  if c.kind = .simple then v c
  else match c.render (c.placeIn p) (c.ownerIn p) with
    | .ok k => k.holds db rows .missing
    | .error _ => false

section Judged

variable {db : Database} {rows : Combination} {p : Places} {v : Criterion → Bool} {c : Criterion}
  {s key : String} {cmp : Comparator}

theorem judged_of_render {k : Condition} (hkind : c.kind ≠ .simple)
    (h : c.render (c.placeIn p) (c.ownerIn p) = .ok k) :
    c.judged db rows p v = k.holds db rows .missing := by
  rw [judged, if_neg hkind, h]

theorem judged_of_error {e : Refused} (hkind : c.kind ≠ .simple)
    (h : c.render (c.placeIn p) (c.ownerIn p) = .error e) : c.judged db rows p v = false := by
  rw [judged, if_neg hkind, h]

/-- The comparison of the value column with a text, which may be by heads. -/
def columnTest (p : Places) (c : Criterion) (cmp : Comparator) (s : String) : Comparison :=
  ⟨⟨some (c.placeIn p), "prop_value"⟩, true, c.kind.head?, cmp, .text s⟩

theorem TestsColumn.render_eq (h : c.TestsColumn cmp s) : c.render (c.placeIn p) (c.ownerIn p) =
    orRefused [] (c.columnTest p cmp s).condition := by
  obtain ⟨kind, path, left, o, cmp, right, o'⟩ := c
  obtain ⟨hkind, hleft, hcmp, hright⟩ := h
  cases hleft
  cases hcmp
  cases hright
  rcases hkind with hkind | hkind <;> cases hkind <;> rfl

/-- A value column that holds a text. -/
theorem judged_column_equals (h : c.TestsColumn .equals s) : c.judged db rows p v = true ↔
    (rows (c.placeIn p) "prop_value").IsText c.kind.head? s := by
  rw [judged_of_render h.ne_simple h.render_eq]
  exact Comparison.holds_equals (c.columnTest p .equals s)

/-- A value column that does not hold a text; it may be null. -/
theorem judged_column_notEquals (h : c.TestsColumn .notEquals s) : c.judged db rows p v = true ↔
    ¬ (rows (c.placeIn p) "prop_value").IsText c.kind.head? s := by
  rw [judged_of_render h.ne_simple h.render_eq]
  exact Comparison.holds_notEquals (c.columnTest p .notEquals s)

/-- A property that is asked for: the row read has the key, and its value fits. -/
theorem judged_of_asks (h : c.TestsKey key cmp s) (hcmp : cmp.Asks) :
    c.judged db rows p v = true ↔ rows (c.placeIn p) "prop_key" = .text key ∧
      (rows (c.placeIn p) "prop_value").Fits db c.kind.head? cmp s := by
  obtain ⟨k, hk, hholds⟩ := h.render_asked hcmp (c.placeIn p) (c.ownerIn p)
  rw [judged_of_render h.ne_simple hk, hholds]

/-- A property that is denied: each row that has the key and fits belongs to another owner, and both
are known. -/
theorem judged_of_denies (h : c.TestsKey key cmp s) (hcmp : cmp.Denies) :
    c.judged db rows p v = true ↔ ∃ link,
      ownerColumns ((c.ownerIn p).getD (c.placeIn p)).table c.leftTable.table = .ok link ∧
      ∀ row ∈ db.rows c.leftTable.table, row "prop_key" = .text key →
        (row "prop_value").Fits db c.kind.head? cmp.positive s →
        rows ((c.ownerIn p).getD (c.placeIn p)) link.1 ≠ .null ∧ row link.2 ≠ .null ∧
          rows ((c.ownerIn p).getD (c.placeIn p)) link.1 ≠ row link.2 := by
  cases hlink : ownerColumns ((c.ownerIn p).getD (c.placeIn p)).table c.leftTable.table with
  | error e =>
    rw [judged_of_error h.ne_simple (h.render_of_no_link hcmp (c.placeIn p) (c.ownerIn p) hlink)]
    constructor
    · intro hfalse
      cases hfalse
    · rintro ⟨link, hlink', -⟩
      cases hlink'
  | ok link =>
    obtain ⟨k, hk, hholds⟩ := h.render_denied hcmp (c.placeIn p) (c.ownerIn p) hlink
    rw [judged_of_render h.ne_simple hk, hholds]
    constructor
    · intro hall
      exact ⟨link, rfl, hall⟩
    · rintro ⟨link', hlink', hall⟩
      cases hlink'
      exact hall

/-- A criterion that should name a property, but has no text for its key, is never true. -/
theorem judged_of_no_key (hkind : c.kind = .property ∨ c.kind = .propertyHead)
    (hleft : ∀ key, c.left ≠ .value (.text key)) : c.judged db rows p v = false := by
  have hne : c.kind ≠ .simple := by
    rcases hkind with hkind | hkind <;> rw [hkind] <;> decide
  have hnames : c.kind.namesKey = true := by
    rcases hkind with hkind | hkind <;> rw [hkind] <;> rfl
  obtain ⟨e, he⟩ : ∃ e, c.render (c.placeIn p) (c.ownerIn p) = .error e := by
    rw [render]
    split
    · exact ⟨_, rfl⟩
    · rw [if_pos hnames]
      split
      · rename_i key hkey
        exact absurd hkey (hleft key)
      · exact ⟨_, rfl⟩
  exact judged_of_error hne he

end Judged

end Criterion

/-- A database of one item with some licenses. -/
def Sql.Database.licensed (values : List String) : Database where
  rows
    | .nodeProps => values.map fun value => .ofProperty 1 "license" (.text value)
    | _ => []
  fits _ _ := false
  precedes _ _ := false

theorem Sql.Database.node_id_licensed {values : List String} :
    ∀ row ∈ (licensed values).rows .nodeProps, row "node_id" ≠ .null := by
  intro row hrow
  obtain ⟨value, -, rfl⟩ := List.mem_map.1 hrow
  exact Cell.noConfusion

end ArtifactQuery
