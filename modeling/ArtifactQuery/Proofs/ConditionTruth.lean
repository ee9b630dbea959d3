import ArtifactQuery.Proofs.Truth
import ArtifactQuery.Row.Cell
import ArtifactQuery.Sql.Rendering

/-!
# Truth of SQL conditions

A condition is true, false or unknown of a combination of rows: comparisons with null are unknown.
A statement returns the combinations of which its condition is true.

* `Record`, `Database`, `Combination`: rows, the tables that they stand in, and a row for every
  occurrence that a statement reads.
* `Truth`: the truth values of SQL with their conjunction and disjunction.
* `Condition.verdict`: the truth value of a condition, however cells are compared.
* `Condition.truth`, `Condition.holds`: the truth value of a condition in a database, and whether it
  is true.
* `holds_both`, `holds_either`, `holds_compare`, `holds_noneOf`: when the conditions that criteria
  become are true.
* `Piece.satisfied`: whether a combination is returned.
* `satisfied_pieces`: pieces hold of it as the elements that they come from do.
-/

namespace ArtifactQuery

/-- The first characters of a cell, whose number is read as a text. -/
def Cell.head (n : Nat) : Cell → Cell
  | null => null
  | integer i => text (String.ofList ((toString i).toList.take n))
  | text s => text (String.ofList (s.toList.take n))

namespace Sql

/-! ## Rows -/

/-- A row of a table: the cell in each column. -/
abbrev Record := String → Cell

/-- The row that an outer join adds where no other fits. -/
def Record.missing : Record := fun _ => .null

/-- The row of an item of which only the number is known. -/
def Record.ofItem (node : Int) : Record
  | "node_id" => .integer node
  | _ => .null

/-- The row of a property of an item. -/
def Record.ofProperty (node : Int) (key : String) (value : Cell) : Record
  | "node_id" => .integer node
  | "prop_key" => .text key
  | "prop_value" => value
  | _ => .null

/-- The tables of a database, and how it compares cells that are not null. -/
structure Database where
  rows : Table → List Record
  /-- Whether a text fits a `like` pattern. -/
  fits : String → String → Bool
  /-- Whether a cell comes before another one. -/
  precedes : Cell → Cell → Bool

/-- A row for each occurrence of a table in a statement. -/
abbrev Combination := Occurrence → Record

/-! ## Truth values -/

/-- A truth value of SQL. -/
inductive Truth
  | yes
  | no
  | unknown
  deriving DecidableEq, Repr

namespace Truth

/-- The truth value of a comparison that is known. -/
def of (b : Bool) : Truth := if b then yes else no

/-- Both are true; one that is false decides. -/
def and : Truth → Truth → Truth
  | no, _ | _, no => no
  | yes, yes => yes
  | _, _ => unknown

/-- One is true; one that is true decides. -/
def or : Truth → Truth → Truth
  | yes, _ | _, yes => yes
  | no, no => no
  | _, _ => unknown

@[simp] theorem of_eq_yes {b : Bool} : of b = yes ↔ b = true := by
  cases b <;> decide

@[simp] theorem and_eq_yes {a b : Truth} : a.and b = yes ↔ a = yes ∧ b = yes := by
  cases a <;> cases b <;> decide

@[simp] theorem or_eq_yes {a b : Truth} : a.or b = yes ↔ a = yes ∨ b = yes := by
  cases a <;> cases b <;> decide

/-- What is unknown for two reasons is true if neither is given. -/
theorem unless_eq_yes {p q : Prop} [Decidable p] [Decidable q] {b : Bool} :
    (if p ∨ q then unknown else of b) = yes ↔ ¬ p ∧ ¬ q ∧ b = true := by
  by_cases hp : p
  · simp [hp]
  by_cases hq : q
  · simp [hq]
  · simp [hp, hq]

end Truth

/-! ## Conditions -/

/-- How a database compares cells that are not null: whether two of them are as a relation says. -/
abbrev Comparing := Relation → Cell → Cell → Bool

/-- The truth value of a comparison. -/
def Relation.verdict (compares : Comparing) (r : Relation) (a b : Cell) : Truth :=
  if a = .null ∨ b = .null then .unknown else .of (compares r a b)

/-- Whether two cells that are not null are as a relation says. Only texts fit patterns. -/
def Relation.relates (db : Database) : Relation → Cell → Cell → Bool
  | eq, a, b => a = b
  | ne, a, b => a ≠ b
  | lt, a, b => db.precedes a b
  | gt, a, b => db.precedes b a
  | ge, a, b => !db.precedes a b
  | le, a, b => !db.precedes b a
  | like, .text s, .text p => db.fits s p
  | notLike, .text s, .text p => !db.fits s p
  | like, _, _ | notLike, _, _ => false

/-- The truth value of a comparison in a database. -/
def Relation.truth (db : Database) (r : Relation) (a b : Cell) : Truth :=
  r.verdict (Relation.relates db) a b

/-- The cell of a parameter. -/
def Param.cell : Param → Cell
  | text s => .text s
  | number n => .integer n

/-- The cell of a column, where `inner` is the row of the table of the enclosing sub-select. -/
def ColumnRef.cell (rows : Combination) (inner : Record) (c : ColumnRef) : Cell :=
  match c.source with
  | some o => rows o c.column
  | none => inner c.column

/-- The cell of a term. -/
def Term.cell (rows : Combination) (inner : Record) : Term → Cell
  | column c => c.cell rows inner
  | columnHead n c => (c.cell rows inner).head n
  | param p => p.cell
  | paramHead n p => p.cell.head n

/-- The truth value of `cell not in (cells)`: the cell differs from each of them. -/
def notAmong (compares : Comparing) (cell : Cell) (cells : List Cell) : Truth :=
  cells.foldr (fun c t => (Relation.ne.verdict compares cell c).and t) .yes

/-- The truth value of a condition, where `tables` are the rows of a database. -/
def Condition.verdict (compares : Comparing) (tables : Table → List Record) (rows : Combination)
    (inner : Record) : Condition → Truth
  | compare l r t => r.verdict compares (l.cell rows inner) (t.cell rows inner)
  | isNull c => .of (c.cell rows inner = .null)
  | isNotNull c => .of (c.cell rows inner ≠ .null)
  | always => .yes
  | never => .no
  | both a b =>
    (a.verdict compares tables rows inner).and (b.verdict compares tables rows inner)
  | either a b =>
    (a.verdict compares tables rows inner).or (b.verdict compares tables rows inner)
  | noneOf c column t a b =>
    notAmong compares (c.cell rows inner) <|
      ((tables t).filter fun row =>
        (a.verdict compares tables rows row).and
          (b.verdict compares tables rows row) = .yes).map (· column)

/-- The truth value of a condition in a database. -/
def Condition.truth (db : Database) (rows : Combination) (inner : Record) (c : Condition) : Truth :=
  c.verdict (Relation.relates db) db.rows rows inner

/-- Whether a condition is true. -/
def Condition.holds (db : Database) (rows : Combination) (inner : Record) (c : Condition) : Bool :=
  c.truth db rows inner = .yes

section Verdicts

variable {compares : Comparing} {tables : Table → List Record} {rows : Combination} {inner : Record}

theorem Relation.verdict_eq_yes {r : Relation} {a b : Cell} :
    r.verdict compares a b = .yes ↔ a ≠ .null ∧ b ≠ .null ∧ compares r a b = true := by
  rw [verdict]
  exact Truth.unless_eq_yes

theorem notAmong_eq_yes {cell : Cell} {cells : List Cell} : notAmong compares cell cells = .yes ↔
    ∀ c ∈ cells, Relation.ne.verdict compares cell c = .yes := by
  induction cells with
  | nil => simp [notAmong]
  | cons c cells ih =>
    have hcons : notAmong compares cell (c :: cells) =
        (Relation.ne.verdict compares cell c).and (notAmong compares cell cells) := rfl
    rw [hcons, Truth.and_eq_yes, ih, List.forall_mem_cons]

/-- Every row on which the conditions of a sub-select are true has another cell. -/
theorem Condition.verdict_noneOf {c : ColumnRef} {column : String} {t : Table} {a b : Condition} :
    (noneOf c column t a b).verdict compares tables rows inner = .yes ↔ ∀ row ∈ tables t,
      a.verdict compares tables rows row = .yes → b.verdict compares tables rows row = .yes →
        Relation.ne.verdict compares (c.cell rows inner) (row column) = .yes := by
  rw [verdict, notAmong_eq_yes, List.forall_mem_map]
  simp only [List.mem_filter, decide_eq_true_iff, Truth.and_eq_yes, and_imp]

end Verdicts

section Holds

variable {db : Database} {rows : Combination} {inner : Record}

theorem relation_truth_eq_yes {r : Relation} {a b : Cell} :
    r.truth db a b = .yes ↔ a ≠ .null ∧ b ≠ .null ∧ r.relates db a b = true :=
  Relation.verdict_eq_yes

namespace Condition

theorem holds_iff {c : Condition} : c.holds db rows inner = true ↔
    c.verdict (Relation.relates db) db.rows rows inner = .yes :=
  decide_eq_true_iff

@[simp] theorem holds_both (a b : Condition) : (both a b).holds db rows inner =
    (a.holds db rows inner && b.holds db rows inner) := by
  rw [Bool.eq_iff_iff, Bool.and_eq_true, holds_iff, holds_iff, holds_iff, verdict,
    Truth.and_eq_yes]

@[simp] theorem holds_either (a b : Condition) : (either a b).holds db rows inner =
    (a.holds db rows inner || b.holds db rows inner) := by
  rw [Bool.eq_iff_iff, Bool.or_eq_true, holds_iff, holds_iff, holds_iff, verdict, Truth.or_eq_yes]

@[simp] theorem holds_isNull (c : ColumnRef) : (isNull c).holds db rows inner =
    decide (c.cell rows inner = .null) := by
  rw [Bool.eq_iff_iff, holds_iff, verdict, Truth.of_eq_yes]

/-- A comparison is true if neither side is null and they are as the relation says. -/
theorem holds_compare {l t : Term} {r : Relation} :
    (compare l r t).holds db rows inner = true ↔ l.cell rows inner ≠ .null ∧
      t.cell rows inner ≠ .null ∧ r.relates db (l.cell rows inner) (t.cell rows inner) = true := by
  rw [holds_iff, verdict, Relation.verdict_eq_yes]

/-- A sub-select is denied if every row on which its conditions are true has another cell, and none
of the cells is null. -/
theorem holds_noneOf {c : ColumnRef} {column : String} {t : Table} {a b : Condition} :
    (noneOf c column t a b).holds db rows inner = true ↔ ∀ row ∈ db.rows t,
      a.holds db rows row = true → b.holds db rows row = true →
      c.cell rows inner ≠ .null ∧ row column ≠ .null ∧ c.cell rows inner ≠ row column := by
  simp only [holds_iff, verdict_noneOf, Relation.verdict_eq_yes, Relation.relates,
    decide_eq_true_iff]

end Condition

end Holds

/-! ## Where clauses -/

namespace Piece

/-- Reads one piece; the innermost open parenthesis comes first. -/
def read (v : Condition → Bool) : List Alternatives → Piece → List Alternatives
  | a :: as, condition c => a.meet (v c) :: as
  | a :: as, or => a.next :: as
  | as, openParen => {} :: as
  | a :: a' :: as, closeParen => a'.meet a.value :: as
  | as, _ => as

/-- Whether a `where` clause is true where `v` says which conditions are. No condition stands under
a negation, so unknown and false ones need not be told apart. -/
def satisfied (v : Condition → Bool) (ps : List Piece) : Bool :=
  (ps.foldl (read v) [{}]).head?.any Alternatives.value

theorem satisfied_condition (v : Condition → Bool) (c : Condition) :
    satisfied v [.condition c] = v c := by
  cases h : v c <;> simp [satisfied, read, h, Alternatives.meet, Alternatives.value]

/-- Whether a piece is the one of an element, and a condition is true where `v` says so of its
criterion. -/
inductive Reads (v : Criterion → Bool) (w : Condition → Bool) : Element → Piece → Prop
  | condition {c : Criterion} {k : Condition} (h : w k = v c) :
      Reads v w (.criterion c) (.condition k)
  | and : Reads v w .and .and
  | or : Reads v w .or .or
  | openParen : Reads v w .openParen .openParen
  | closeParen : Reads v w .closeParen .closeParen

theorem Reads.read_eq {v : Criterion → Bool} {w : Condition → Bool} {e : Element} {p : Piece}
    (h : Reads v w e p) (as : List Alternatives) : read w as p = Element.read v as e := by
  cases h with
  | condition h =>
    cases as with
    | nil => rfl
    | cons a as =>
      show a.meet (w _) :: as = a.meet (v _) :: as
      rw [h]
  | and | or | openParen => cases as <;> rfl
  | closeParen => rcases as with _ | ⟨a, _ | ⟨a', as⟩⟩ <;> rfl

/-- Pieces are satisfied as the elements are that they come from. -/
theorem satisfied_pieces {v : Criterion → Bool} {w : Condition → Bool} {es : List Element}
    {ps : List Piece} (h : List.Forall₂ (Reads v w) es ps) :
    satisfied w ps = Element.satisfied v es := by
  have hread : ∀ as, ps.foldl (read w) as = es.foldl (Element.read v) as := by
    induction h with
    | nil => exact fun as => rfl
    | cons hfirst _ ih =>
      intro as
      rw [List.foldl_cons, List.foldl_cons, hfirst.read_eq, ih]
  rw [satisfied, hread]
  rfl

end Piece

end Sql

end ArtifactQuery
