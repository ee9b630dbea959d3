import ArtifactQuery.Proofs.ConditionForms
import ArtifactQuery.Proofs.DeniedProperties

/-!
# Denials as complements

A criterion that denies becomes a condition that is true where that of the criterion it denies is
not, although comparisons with null are unknown.

* `Collation`: ways to compare cells. Where `Database` lets only texts fit patterns, cells of all
  types may here.
* `Question`: what a comparison that asks says of a cell, and the conditions that ask and deny it of
  a column.
* `exists_question`: a denial and what it denies are about one question, or neither becomes a
  condition.
* `Question.verdict_denied`: of a cell that may be null only where the column says so, one of the
  two conditions is true.
* `Criterion.render_complements`: the same for criteria. A property is denied of an owner if none of
  the owner's rows makes the condition true that asks for it.
-/

namespace ArtifactQuery

/-- What a comparator denies is not a denial. -/
theorem Comparator.isNegative_positive (cmp : Comparator) : cmp.positive.isNegative = false := by
  cases cmp <;> rfl

theorem Comparator.denies_of_isNegative {cmp : Comparator} (h : cmp.isNegative = true) :
    cmp.Denies := by
  cases cmp <;> first | exact .inl rfl | exact .inr rfl | cases h

theorem PropertyOwner.eq_of_table_eq {p p' : PropertyOwner}
    (h : p.properties.table = p'.properties.table) : p = p' := by
  cases p <;> cases p' <;> first | rfl | cases h

namespace Sql

/-! ## Ways to compare -/

/-- Which cells that are not null are equal, come before others, and fit patterns. -/
structure Collation where
  equal : Cell → Cell → Bool
  precedes : Cell → Cell → Bool
  /-- Whether a cell fits a `like` pattern. -/
  fits : Cell → Cell → Bool

/-- Whether two cells that are not null are as a relation says. -/
def Collation.compares (k : Collation) : Comparing
  | .eq, a, b => k.equal a b
  | .ne, a, b => !k.equal a b
  | .gt, a, b => k.precedes b a
  | .ge, a, b => !k.precedes a b
  | .lt, a, b => k.precedes a b
  | .le, a, b => !k.precedes b a
  | .like, a, b => k.fits a b
  | .notLike, a, b => !k.fits a b

namespace Relation

/-- The relation that two cells are in if they are not in this one. -/
def denial : Relation → Relation
  | eq => ne
  | ne => eq
  | gt => le
  | ge => lt
  | lt => ge
  | le => gt
  | like => notLike
  | notLike => like

variable {k : Collation} {r : Relation} {a b : Cell}

theorem compares_denial : k.compares r.denial a b = !k.compares r a b := by
  cases r <;> simp [denial, Collation.compares]

/-- Of two cells that are not null, a relation or its denial is true. -/
theorem verdict_denial (ha : a ≠ .null) (hb : b ≠ .null) :
    r.denial.verdict k.compares a b = .yes ↔ r.verdict k.compares a b ≠ .yes := by
  rw [Ne, verdict_eq_yes, verdict_eq_yes, compares_denial]
  simp [ha, hb]

end Relation

/-! ## Questions -/

section Questions

variable {k : Collation} {tables : Table → List Record} {rows : Combination} {inner : Record}

/-- What a comparison asks of a cell: that it is null, nothing, or that it is as a relation says to
a parameter. -/
inductive Question
  | null
  | nothing
  | test (r : Relation) (p : Param)

namespace Question

/-- The condition that asks the question of the column of a comparison. -/
def asked (c : Comparison) : Question → Condition
  | null => .isNull c.column
  | nothing => .always
  | test r p => .compare c.columnTerm r (c.paramTerm p)

/-- The condition that denies it; null is denied of a column that may be null. -/
def denied (c : Comparison) : Question → Condition
  | null => .isNotNull c.column
  | nothing => .never
  | test r p =>
    if c.nullable then .either (.compare c.columnTerm r.denial (c.paramTerm p)) (.isNull c.column)
    else .compare c.columnTerm r.denial (c.paramTerm p)

/-- The parameters of both conditions. -/
def params : Question → List Param
  | test _ p => [p]
  | _ => []

/-- The answer for a cell, of which only the first characters count if a number is given. -/
def answer (k : Collation) (head : Option Nat) (cell : Cell) : Question → Truth
  | null => .of (cell = .null)
  | nothing => .yes
  | test r p => r.verdict k.compares (cell.upTo head) (p.cell.upTo head)

variable {q : Question} {c : Comparison}

theorem verdict_asked : (q.asked c).verdict k.compares tables rows inner =
    q.answer k c.head (c.column.cell rows inner) := by
  cases q with
  | null => rfl
  | nothing => rfl
  | test r p => rw [asked, Condition.verdict, c.columnTerm_cell, c.paramTerm_cell, answer]

theorem params_asked : (q.asked c).params = q.params := by
  cases q with
  | null => rfl
  | nothing => rfl
  | test r p =>
    rw [asked, Condition.params, c.params_columnTerm, c.params_paramTerm, List.nil_append, params]

theorem params_denied : (q.denied c).params = q.params := by
  cases q with
  | null => rfl
  | nothing => rfl
  | test r p =>
    have htest : (Condition.compare c.columnTerm r.denial (c.paramTerm p)).params = [p] :=
      params_asked (q := test r.denial p)
    rw [denied]
    split
    · rw [Condition.params, htest]
      rfl
    · exact htest

/-- A parameter is never null, nor are its first characters. -/
theorem param_ne_null (p : Param) (head : Option Nat) : p.cell.upTo head ≠ .null := by
  rw [Ne, Cell.upTo_eq_null_iff]
  cases p <;> exact Cell.noConfusion

/-- If the column may be null wherever it is, then the denial is true of the cells that the question
is not answered with yes for. -/
theorem verdict_denied (hnull : c.column.cell rows inner = .null → c.nullable = true) :
    (q.denied c).verdict k.compares tables rows inner = .yes ↔
      q.answer k c.head (c.column.cell rows inner) ≠ .yes := by
  cases q with
  | null => simp [denied, answer, Condition.verdict]
  | nothing => simp [denied, answer, Condition.verdict]
  | test r p =>
    by_cases hcell : c.column.cell rows inner = .null
    · -- both comparisons are unknown, and the null test decides
      have hunknown : answer k c.head (c.column.cell rows inner) (test r p) ≠ .yes := by
        rw [answer, Ne, Relation.verdict_eq_yes]
        rintro ⟨hne, -⟩
        exact hne (Cell.upTo_eq_null_iff.2 hcell)
      have hisNull : (Condition.isNull c.column).verdict k.compares tables rows inner = .yes := by
        simp [Condition.verdict, hcell]
      rw [denied, if_pos (hnull hcell), Condition.verdict, Truth.or_eq_yes]
      exact iff_of_true (.inr hisNull) hunknown
    -- On a cell that is not null the null test adds nothing to the denial.
    · have hdenial : (Condition.compare c.columnTerm r.denial (c.paramTerm p)).verdict
          k.compares tables rows inner = .yes ↔
          answer k c.head (c.column.cell rows inner) (test r p) ≠ .yes := by
        rw [answer, Condition.verdict, c.columnTerm_cell, c.paramTerm_cell]
        exact Relation.verdict_denial (mt Cell.upTo_eq_null_iff.1 hcell) (param_ne_null p c.head)
      have hisNull : (Condition.isNull c.column).verdict k.compares tables rows inner ≠ .yes := by
        simp [Condition.verdict, hcell]
      rw [denied]
      split
      · rw [Condition.verdict, Truth.or_eq_yes, or_iff_left hisNull, hdenial]
      · exact hdenial

end Question

end Questions

namespace Comparison

variable {cmp : Comparator} {v v' : Value} {r : Relation} {p : Param}

/-- Whether comparing a column with `v` poses the question `q`: a comparator denies it, and the one
that is denied asks it. -/
def Poses (cmp : Comparator) (v : Value) (q : Question) : Prop :=
  ∀ c : Comparison, c.value = v →
    (c.comparator = cmp.positive → c.condition = .ok (q.asked c)) ∧
    (c.comparator = cmp → c.condition = .ok (q.denied c))

/-- Whether neither a comparator nor the one that it denies makes a condition with `v`. -/
def PosesNone (cmp : Comparator) (v : Value) : Prop :=
  ∀ c : Comparison, c.value = v → c.comparator = cmp.positive ∨ c.comparator = cmp →
    ∃ e, c.condition = .error e

theorem ordinary_eq_ok {c : Comparison} (hr : relate c.comparator c.value = .ok (r, v'))
    (hp : Param.ofValue v' = .ok p) : c.ordinary = .ok
      (if c.comparator.isNegative = true ∧ c.nullable = true then
        .either (.compare c.columnTerm r (c.paramTerm p)) (.isNull c.column)
      else .compare c.columnTerm r (c.paramTerm p)) := by
  rw [ordinary, hr, ok_bind]
  dsimp only
  rw [hp]
  rfl

theorem poses_test (hneg : cmp.isNegative = true) (hasked : relate cmp.positive v = .ok (r, v'))
    (hdenied : relate cmp v = .ok (r.denial, v')) (hp : Param.ofValue v' = .ok p)
    (hordinary : ∀ c : Comparison, c.value = v → c.condition = c.ordinary) :
    Poses cmp v (.test r p) := by
  intro c hv
  refine ⟨fun hc => ?_, fun hc => ?_⟩
  · rw [← hc, ← hv] at hasked
    rw [hordinary c hv, ordinary_eq_ok hasked hp, hc, cmp.isNegative_positive]
    simp [Question.asked]
  · rw [← hc, ← hv] at hdenied
    rw [hordinary c hv, ordinary_eq_ok hdenied hp, hc, hneg, Question.denied]
    simp

/-- What a value is compared by where it is neither null nor any item type. -/
theorem condition_eq_ordinary {c : Comparison} (hnull : c.value ≠ .null)
    (hany : c.value ≠ .itemType .any) : c.condition = c.ordinary := by
  rw [condition]
  split
  · rename_i hv _
    exact absurd hv hnull
  · rename_i hv _
    exact absurd hv hnull
  · rename_i hv _ _
    exact absurd hv hnull
  · rename_i hv _
    exact absurd hv hany
  · rename_i hv _
    exact absurd hv hany
  · rfl

theorem poses_notEquals (hnull : v ≠ .null) (hany : v ≠ .itemType .any)
    (hp : Param.ofValue v = .ok p) : Poses .notEquals v (.test .eq p) := by
  refine poses_test rfl rfl rfl hp fun c hv => ?_
  rw [← hv] at hnull hany
  exact condition_eq_ordinary hnull hany

theorem poses_notMatching (s : String) :
    Poses .notMatching (.text s) (.test .like (.text (Wildcard.toLike s))) := by
  refine poses_test rfl rfl rfl rfl fun c hv => condition_eq_ordinary ?_ ?_
  · rw [hv]
    exact Value.noConfusion
  · rw [hv]
    exact Value.noConfusion

/-- Equality can be asked of all values. -/
theorem exists_poses_notEquals (v : Value) : ∃ q, Poses .notEquals v q := by
  cases v with
  | null =>
    refine ⟨.null, fun c hv => ⟨fun hc => ?_, fun hc => ?_⟩⟩
    · rw [condition, hv, hc]
      rfl
    · rw [condition, hv, hc]
      rfl
  | text s => exact ⟨_, poses_notEquals Value.noConfusion Value.noConfusion rfl⟩
  | long n => exact ⟨_, poses_notEquals Value.noConfusion Value.noConfusion rfl⟩
  | date n => exact ⟨_, poses_notEquals Value.noConfusion Value.noConfusion rfl⟩
  | itemType t =>
    cases t with
    | folder => exact ⟨_, poses_notEquals Value.noConfusion (by decide) rfl⟩
    | file => exact ⟨_, poses_notEquals Value.noConfusion (by decide) rfl⟩
    | any =>
      refine ⟨.nothing, fun c hv => ⟨fun hc => ?_, fun hc => ?_⟩⟩
      · rw [condition, hv, hc]
        rfl
      · rw [condition, hv, hc]
        rfl

/-- Only texts are patterns. -/
theorem posesNone_notMatching (htext : ∀ s, v ≠ .text s) : PosesNone .notMatching v := by
  rintro ⟨column, nullable, head, cmp, w⟩ hv hc
  cases hv
  rcases hc with hc | hc <;> cases hc <;> cases w with
  | text s => exact absurd rfl (htext s)
  | itemType t => cases t <;> exact ⟨_, rfl⟩
  | _ => exact ⟨_, rfl⟩

/-- A comparator that denies and the one that it denies are about one question, whatever the column,
or neither becomes a condition. -/
theorem exists_question (hneg : cmp.isNegative = true) (v : Value) :
    (∃ q, Poses cmp v q) ∨ PosesNone cmp v := by
  rcases Comparator.denies_of_isNegative hneg with rfl | rfl
  · exact .inl (exists_poses_notEquals v)
  · by_cases htext : ∃ s, v = .text s
    · obtain ⟨s, rfl⟩ := htext
      exact .inl ⟨_, poses_notMatching s⟩
    · exact .inr (posesNone_notMatching fun s hs => htext ⟨s, hs⟩)

end Comparison

/-! ## Outcomes -/

/-- Two outcomes alike: conditions that are as `R` says and have the same parameters, or refusals
after the same parameters were bound. -/
inductive Corresponds (R : Condition → Condition → Prop) :
    Except Refused Condition → Except Refused Condition → Prop
  | rendered {denial asked : Condition} (hparams : denial.params = asked.params)
      (h : R denial asked) : Corresponds R (.ok denial) (.ok asked)
  | refused {e e' : QueryError} {bound : List Param} :
      Corresponds R (.error ⟨e, bound⟩) (.error ⟨e', bound⟩)

end Sql

/-! ## Criteria -/

open Sql

namespace Criterion

/-- The criterion that a denial denies. -/
def asked (c : Criterion) : Criterion := { c with comparator := c.comparator.positive }

/-- Whether a criterion that names a property reads a table of properties, with their owner given.
-/
def Owned (c : Criterion) (o : Occurrence) (owner : Option Occurrence) : Prop :=
  c.kind.namesKey = true → ∃ p : PropertyOwner, o.table = p.properties.table ∧
    ∃ w, owner = some w ∧ w.table = p.domain.table

/-- Whether the conditions of a criterion that denies and of what it denies are complements. -/
structure Complements (c : Criterion) (o : Occurrence) (owner : Option Occurrence)
    (denial asked : Condition) : Prop where
  /-- If a column is null only where it may be, then exactly one of the two is true. -/
  column : c.kind.namesKey = false → ∀ f, c.left = .field f →
    ∀ (k : Collation) (tables : Table → List Record) (rows : Combination) (inner : Record),
      (rows o f.column.column = .null → f.column.nullable = true) →
        (denial.verdict k.compares tables rows inner = .yes ↔
          asked.verdict k.compares tables rows inner ≠ .yes)
  /-- A property is denied of an owner if no row that belongs to it makes the other one true. -/
  property : c.kind.namesKey = true → ∀ (p : PropertyOwner) (w : Occurrence),
    o.table = p.properties.table → owner = some w → w.table = p.domain.table →
    ∀ (k : Collation) (tables : Table → List Record) (rows : Combination) (inner : Record),
      rows w p.column ≠ .null → (∀ row ∈ tables o.table, row p.column ≠ .null) →
        (denial.verdict k.compares tables rows inner = .yes ↔ ∀ row ∈ tables o.table,
          k.equal (rows w p.column) (row p.column) = true →
            asked.verdict k.compares tables (Function.update rows o row) inner ≠ .yes)

variable {c : Criterion} {o : Occurrence} {owner : Option Occurrence}

/-- A column is compared in both criteria by one question. -/
theorem corresponds_renderField {f : Field} (v : Value) (hneg : c.comparator.isNegative = true)
    (hkind : c.kind.namesKey = false) (hleft : c.left = .field f) :
    Corresponds (c.Complements o owner) (c.renderField f v o) (c.asked.renderField f v o) := by
  let head : Option Nat :=
    if c.kind = .propertyColumnHead ∧ f.column.column = "prop_value" then some headLength else none
  let denial : Comparison := ⟨⟨some o, f.column.column⟩, f.column.nullable, head, c.comparator, v⟩
  let asking : Comparison :=
    ⟨⟨some o, f.column.column⟩, f.column.nullable, head, c.comparator.positive, v⟩
  show Corresponds _ (orRefused [] denial.condition) (orRefused [] asking.condition)
  -- Either both comparisons put the same question or both are refused.
  rcases Comparison.exists_question hneg v with ⟨q, hq⟩ | hnone
  · rw [(hq denial rfl).2 rfl, (hq asking rfl).1 rfl]
    refine .rendered (Question.params_denied.trans Question.params_asked.symm) ⟨?_, ?_⟩
    · intro _ f' hleft' k tables rows inner hnull
      cases hleft.symm.trans hleft'
      have hdenied : (q.denied denial).verdict k.compares tables rows inner = .yes ↔
          q.answer k head (rows o f.column.column) ≠ .yes := Question.verdict_denied hnull
      rw [hdenied, Question.verdict_asked]
      rfl
    · intro hnames
      rw [hkind] at hnames
      cases hnames
  · obtain ⟨e, he⟩ := hnone denial rfl (.inr rfl)
    obtain ⟨e', he'⟩ := hnone asking rfl (.inl rfl)
    rw [he, he']
    exact .refused

/-- Two values are bound alike whichever way they are compared. -/
theorem corresponds_renderValues {l : Value} (v : Value) (hneg : c.comparator.isNegative = true)
    (hkind : c.kind.namesKey = false) (hleft : c.left = .value l) :
    Corresponds (c.Complements o owner) (c.renderValues l v) (c.asked.renderValues l v) := by
  have hcomplements : ∀ denial asked, c.Complements o owner denial asked := by
    intro denial asked
    refine ⟨fun _ f hf => ?_, fun hnames => ?_⟩
    · cases hleft.symm.trans hf
    · rw [hkind] at hnames
      cases hnames
  have hsides : ∀ r r' : Relation, Corresponds (c.Complements o owner)
      (do
        let left ← orRefused [] (Param.ofValue l)
        let right ← orRefused [left] (Param.ofValue v)
        return Condition.compare (.param left) r (.param right))
      (do
        let left ← orRefused [] (Param.ofValue l)
        let right ← orRefused [left] (Param.ofValue v)
        return Condition.compare (.param left) r' (.param right)) := by
    intro r r'
    cases Param.ofValue l with
    | error e => exact .refused
    | ok left =>
      cases Param.ofValue v with
      | error e => exact .refused
      | ok right => exact .rendered rfl (hcomplements _ _)
  rcases Comparator.denies_of_isNegative hneg with hcmp | hcmp
  · have hasked : c.asked.comparator = .equals := by
      rw [asked, hcmp]
      rfl
    rw [renderValues, renderValues, hcmp, hasked]
    exact hsides .ne .eq
  · have hasked : c.asked.comparator = .matching := by
      rw [asked, hcmp]
      rfl
    rw [renderValues, renderValues, hcmp, hasked]
    exact .refused

/-- A sub-select is denied of an owner if the question and the key fit no row that belongs to it. -/
theorem verdict_noneOf_iff {p : PropertyOwner} {w : Occurrence} {key : String} {q : Question}
    (denial asking : Comparison) (hdenial : denial.column = innerColumn "prop_value")
    (hasking : asking.column = ⟨some o, "prop_value"⟩) (hhead : denial.head = asking.head)
    {k : Collation} {tables : Table → List Record} {rows : Combination} {inner : Record}
    (hw : rows w p.column ≠ .null) (hrows : ∀ row ∈ tables o.table, row p.column ≠ .null) :
    (Condition.noneOf ⟨some w, p.column⟩ p.column o.table (keyTest (innerColumn "prop_key") key)
      (q.asked denial)).verdict k.compares tables rows inner = .yes ↔
    ∀ row ∈ tables o.table, k.equal (rows w p.column) (row p.column) = true →
      (Condition.both (keyTest ⟨some o, "prop_key"⟩ key) (q.asked asking)).verdict k.compares tables
        (Function.update rows o row) inner ≠ .yes := by
  -- The question is read once with the row in the occurrence and once as the inner row of the
  -- sub-select. Its answer depends on the value in the row alone.
  have hasked : ∀ row : Record,
      (Condition.both (keyTest ⟨some o, "prop_key"⟩ key) (q.asked asking)).verdict k.compares tables
        (Function.update rows o row) inner =
      (Relation.eq.verdict k.compares (row "prop_key") (.text key)).and
        (q.answer k asking.head (row "prop_value")) := by
    intro row
    have hself : Function.update rows o row o = row := Function.update_self o row rows
    rw [Condition.verdict, Question.verdict_asked, hasking]
    show (Relation.eq.verdict k.compares (Function.update rows o row o "prop_key") (.text key)).and
      (q.answer k asking.head (Function.update rows o row o "prop_value")) = _
    rw [hself]
  have hdenied : ∀ row : Record, (q.asked denial).verdict k.compares tables rows row =
      q.answer k asking.head (row "prop_value") := by
    intro row
    rw [Question.verdict_asked, hdenial, hhead]
    rfl
  rw [Condition.verdict_noneOf]
  refine forall₂_congr fun row hrow => ?_
  have hkey : (keyTest (innerColumn "prop_key") key).verdict k.compares tables rows row =
      Relation.eq.verdict k.compares (row "prop_key") (.text key) := rfl
  -- No identity is null, so the sub-select never leaves the answer unknown.
  have hne : Relation.ne.verdict k.compares (rows w p.column) (row p.column) = .yes ↔
      k.equal (rows w p.column) (row p.column) ≠ true := by
    rw [Relation.verdict_eq_yes, Collation.compares, Bool.not_eq_true', Bool.eq_false_iff]
    exact ⟨fun h => h.2.2, fun h => ⟨hw, hrows row hrow, h⟩⟩
  rw [hkey, hdenied, hasked, Ne, Truth.and_eq_yes]
  constructor
  · intro h hequal hboth
    exact hne.1 (h hboth.1 hboth.2) hequal
  · intro h htest hvalue
    exact hne.2 fun hequal => h hequal ⟨htest, hvalue⟩

/-- A denied property is looked up in all rows of its table by the question that is asked of the row
of an occurrence. -/
theorem corresponds_renderProperty {key : String} {p : PropertyOwner} {w : Occurrence} (v : Value)
    (hneg : c.comparator.isNegative = true) (hkind : c.kind.namesKey = true)
    (ho : o.table = p.properties.table) (hw : w.table = p.domain.table) :
    Corresponds (c.Complements o (some w)) (c.renderProperty key v o w)
      (c.asked.renderProperty key v o w) := by
  let head : Option Nat := if c.kind = .propertyHead then some headLength else none
  let denial : Comparison :=
    ⟨innerColumn "prop_value", false, head, c.comparator.positive, v⟩
  let asking : Comparison :=
    ⟨⟨some o, "prop_value"⟩, true, head, c.comparator.positive, v⟩
  have hcolumns : ownerColumns w.table o.table = .ok (p.column, p.column) := by
    rw [ho, hw]
    exact p.ownerColumns_eq
  have hdenial : c.renderProperty key v o w =
      (orRefused [.text key] denial.condition).map (.noneOf ⟨some w, p.column⟩ p.column o.table
        (keyTest (innerColumn "prop_key") key)) := by
    rw [renderProperty, if_neg (not_not.2 hneg), hcolumns]
    rfl
  have hasked : c.asked.renderProperty key v o w = (orRefused [.text key] asking.condition).map
      (.both (keyTest ⟨some o, "prop_key"⟩ key)) := by
    have hpos : ¬ c.asked.comparator.isNegative = true := by
      rw [asked, c.comparator.isNegative_positive]
      exact Bool.false_ne_true
    rw [renderProperty, if_pos hpos]
    rfl
  rw [hdenial, hasked]
  rcases Comparison.exists_question hneg v with ⟨q, hq⟩ | hnone
  · rw [(hq denial rfl).1 rfl, (hq asking rfl).1 rfl]
    refine .rendered ?_ ⟨?_, ?_⟩
    · show _ ++ (q.asked denial).params = _ ++ (q.asked asking).params
      rw [Question.params_asked, Question.params_asked]
      rfl
    · intro hsimple
      rw [hkind] at hsimple
      cases hsimple
    · intro _ p' w' ho' hw' hdomain k tables rows inner hkey hrows
      cases hw'
      obtain rfl := PropertyOwner.eq_of_table_eq (ho.symm.trans ho')
      exact verdict_noneOf_iff denial asking rfl rfl rfl hkey hrows
  · obtain ⟨e, he⟩ := hnone denial rfl (.inl rfl)
    obtain ⟨e', he'⟩ := hnone asking rfl (.inl rfl)
    rw [he, he']
    exact .refused

/-- A criterion that denies renders as the complement of the one that it denies: both become
conditions with the same parameters, or neither does. -/
theorem render_complements (hneg : c.comparator.isNegative = true) (howned : c.Owned o owner) :
    Corresponds (c.Complements o owner) (c.render o owner) (c.asked.render o owner) := by
  have hright : c.asked.right = c.right := rfl
  have hleft : c.asked.left = c.left := rfl
  have hnames : c.asked.kind = c.kind := rfl
  rw [render, render, hright, hleft, hnames]
  -- Both sides decide between a property, a column and a bound value in the same way, since asking
  -- changes only the comparator.
  cases hr : c.right with
  | field f => exact .refused
  | value v =>
    dsimp only
    split
    · rename_i hkind
      obtain ⟨p, ho, w, rfl, hw⟩ := howned hkind
      cases hl : c.left with
      | field f => exact .refused
      | value l =>
        cases l with
        | text key => exact corresponds_renderProperty v hneg hkind ho hw
        | long n | date n | itemType t | null => exact .refused
    · rename_i hkind
      have hkind' : c.kind.namesKey = false := Bool.eq_false_iff.2 hkind
      cases hl : c.left with
      | field f => exact corresponds_renderField v hneg hkind' hl
      | value l => exact corresponds_renderValues v hneg hkind' hl

end Criterion

/-- Cells compared as they are. -/
def Sql.Collation.plain : Collation where
  equal a b := a = b
  precedes _ _ := false
  fits _ _ := false

/-- The denial of a license, by the first characters of the values. -/
def Criterion.withoutLicense (license : String) : Criterion where
  kind := .propertyHead
  path := [.items, .properties]
  left := .value (.text "license")
  leftTable := ⟨.nodeProps, firstDynamicId⟩
  comparator := .notEquals
  right := .value (.text license)
  rightTable := ⟨.nodeProps, firstDynamicId⟩

/-- An item of which a license is denied has two others, and not this one beside another. -/
theorem Criterion.render_complements_license :
    (withoutLicense "GPL").comparator.isNegative = true ∧
    (withoutLicense "GPL").Owned ⟨.nodeProps, firstDynamicId⟩ (some (.plain .nodes)) ∧
    ∃ denial, (withoutLicense "GPL").render ⟨.nodeProps, firstDynamicId⟩ (some (.plain .nodes)) =
        .ok denial ∧
      denial.verdict Collation.plain.compares (Database.licensed ["MIT", "BSD"]).rows
        (fun _ => .ofItem 1) .missing = .yes ∧
      denial.verdict Collation.plain.compares (Database.licensed ["MIT", "GPL"]).rows
        (fun _ => .ofItem 1) .missing ≠ .yes := by
  have hneg : (withoutLicense "GPL").comparator.isNegative = true := rfl
  have howned : (withoutLicense "GPL").Owned ⟨.nodeProps, firstDynamicId⟩ (some (.plain .nodes)) :=
    fun _ => ⟨.items, rfl, _, rfl, rfl⟩
  have hrender := render_complements hneg howned
  refine ⟨hneg, howned, _, rfl, ?_⟩
  cases hrender with
  | rendered _ h =>
    have hlicensed := fun values => h.property rfl .items (.plain .nodes) rfl rfl rfl .plain
      (Database.licensed values).rows (fun _ => .ofItem 1) .missing Cell.noConfusion
      Database.node_id_licensed
    constructor
    · rw [hlicensed]
      decide
    · rw [Ne, hlicensed]
      decide

end ArtifactQuery
