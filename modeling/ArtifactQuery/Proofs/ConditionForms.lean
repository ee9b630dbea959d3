import ArtifactQuery.Proofs.Aliases

/-!
# Forms of conditions

Criteria become conditions of few forms, whatever they compare and whichever occurrences they read.

* `Comparison.Becomes`: the conditions that a comparison of a column may become.
* `Criterion.Becomes`: those that a criterion may become on an occurrence.
* `Comparison.becomes_condition`, `Criterion.becomes_render`: nothing else comes of them.
* `Piece.ComesOf`, `comesOf_ofQuery`: the pieces of a selection are the elements of its query, with
  conditions in place of the criteria.
-/

namespace ArtifactQuery

open Sql

namespace Sql.Comparison

/-- The conditions of a comparison: a null test, a constant, or a test with a parameter, which a
denial also lets null pass. -/
inductive Becomes (c : Comparison) : Condition → Prop
  | isNull (hv : c.value = .null) (hc : c.comparator = .equals) : Becomes c (.isNull c.column)
  | isNotNull (hv : c.value = .null) (hc : c.comparator = .notEquals) :
      Becomes c (.isNotNull c.column)
  | always (hv : c.value = .itemType .any) (hc : c.comparator = .equals) : Becomes c .always
  | never (hv : c.value = .itemType .any) (hc : c.comparator = .notEquals) : Becomes c .never
  | test {r : Relation} {v : Value} {p : Param} (hr : relate c.comparator c.value = .ok (r, v))
      (hp : Param.ofValue v = .ok p) : Becomes c (.compare c.columnTerm r (c.paramTerm p))
  | testOrNull {r : Relation} {v : Value} {p : Param}
      (hr : relate c.comparator c.value = .ok (r, v)) (hp : Param.ofValue v = .ok p)
      (hneg : c.comparator.isNegative) (hnull : c.nullable) :
      Becomes c (.either (.compare c.columnTerm r (c.paramTerm p)) (.isNull c.column))

theorem params_columnTerm (c : Comparison) : c.columnTerm.params = [] := by
  rw [columnTerm]
  split <;> rfl

theorem params_paramTerm (c : Comparison) (p : Param) : (c.paramTerm p).params = [p] := by
  rw [paramTerm]
  split <;> rfl

theorem becomes_ordinary {c : Comparison} {k : Condition} (h : c.ordinary = .ok k) :
    c.Becomes k := by
  obtain ⟨⟨r, v⟩, hr, h⟩ := bind_eq_ok.1 h
  obtain ⟨p, hp, h⟩ := bind_eq_ok.1 h
  dsimp only at h
  split at h
  · rename_i hdenies
    cases h
    exact .testOrNull hr hp hdenies.1 hdenies.2
  · cases h
    exact .test hr hp

theorem becomes_condition {c : Comparison} {k : Condition} (h : c.condition = .ok k) :
    c.Becomes k := by
  rw [condition] at h
  split at h
  · rename_i hv hc
    cases h
    exact .isNull hv hc
  · rename_i hv hc
    cases h
    exact .isNotNull hv hc
  · cases h
  · rename_i hv hc
    cases h
    exact .always hv hc
  · rename_i hv hc
    cases h
    exact .never hv hc
  · exact becomes_ordinary h

end Sql.Comparison

namespace Criterion

/-- The test of a property's key. -/
def keyTest (column : ColumnRef) (key : String) : Condition :=
  .compare (.column column) .eq (.param (.text key))

/-- The conditions of a criterion on the occurrence `o`: two values, a column, a property with its
key and its value, and a property that none of the owner's may be. -/
inductive Becomes (c : Criterion) (o : Occurrence) : Condition → Prop
  | values {l v : Value} {r : Relation} {left right : Param} (hkind : ¬ c.kind.namesKey)
      (hl : c.left = .value l) (hv : c.right = .value v) (hleft : Param.ofValue l = .ok left)
      (hright : Param.ofValue v = .ok right) :
      Becomes c o (.compare (.param left) r (.param right))
  | field {f : Field} {v : Value} {head : Option Nat} {k : Condition} (hkind : ¬ c.kind.namesKey)
      (hl : c.left = .field f) (hv : c.right = .value v)
      (hk : Comparison.Becomes
        ⟨⟨some o, f.column.column⟩, f.column.nullable, head, c.comparator, v⟩ k) : Becomes c o k
  | hasProperty {key : String} {v : Value} {head : Option Nat} {k : Condition}
      (hkind : c.kind.namesKey) (hl : c.left = .value (.text key)) (hv : c.right = .value v)
      (hk : Comparison.Becomes ⟨⟨some o, "prop_value"⟩, true, head, c.comparator, v⟩ k) :
      Becomes c o (.both (keyTest ⟨some o, "prop_key"⟩ key) k)
  | lacksProperty {key : String} {v : Value} {head : Option Nat} {k : Condition}
      {owner : Occurrence} {columns : String × String} (hkind : c.kind.namesKey)
      (hl : c.left = .value (.text key)) (hv : c.right = .value v)
      (hcolumns : ownerColumns owner.table o.table = .ok columns)
      (hk : Comparison.Becomes
        ⟨innerColumn "prop_value", false, head, c.comparator.positive, v⟩ k) :
      Becomes c o (.noneOf ⟨some owner, columns.1⟩ columns.2 o.table
        (keyTest (innerColumn "prop_key") key) k)

variable {c : Criterion} {o : Occurrence} {k : Condition}

theorem becomes_renderProperty {key : String} {v : Value} {owner : Occurrence}
    (hkind : c.kind.namesKey) (hl : c.left = .value (.text key)) (hv : c.right = .value v)
    (h : c.renderProperty key v o owner = .ok k) : c.Becomes o k := by
  rw [renderProperty] at h
  split at h
  · obtain ⟨value, hvalue, h⟩ := bind_eq_ok.1 h
    cases h
    exact .hasProperty hkind hl hv (Comparison.becomes_condition (orRefused_eq_ok hvalue))
  · obtain ⟨columns, hcolumns, h⟩ := bind_eq_ok.1 h
    obtain ⟨value, hvalue, h⟩ := bind_eq_ok.1 h
    cases h
    exact .lacksProperty hkind hl hv (orRefused_eq_ok hcolumns)
      (Comparison.becomes_condition (orRefused_eq_ok hvalue))

theorem becomes_renderValues {l v : Value} (hkind : ¬ c.kind.namesKey) (hl : c.left = .value l)
    (hv : c.right = .value v) (h : c.renderValues l v = .ok k) : c.Becomes o k := by
  have hsides : ∀ r : Relation, (do
      let left ← orRefused [] (Param.ofValue l)
      let right ← orRefused [left] (Param.ofValue v)
      return Condition.compare (.param left) r (.param right)) = Except.ok k → c.Becomes o k := by
    intro r hr
    obtain ⟨left, hleft, hr⟩ := bind_eq_ok.1 hr
    obtain ⟨right, hright, hr⟩ := bind_eq_ok.1 hr
    cases hr
    exact .values hkind hl hv (orRefused_eq_ok hleft) (orRefused_eq_ok hright)
  rw [renderValues] at h
  split at h
  · exact hsides .eq h
  · exact hsides .ne h
  · cases h

/-- Whatever a criterion becomes has one of the forms. -/
theorem becomes_render {owner : Option Occurrence} (h : c.render o owner = .ok k) :
    c.Becomes o k := by
  rw [render] at h
  split at h
  · cases h
  rename_i v hv
  split at h
  · rename_i hkind
    split at h
    · rename_i key hl
      exact becomes_renderProperty hkind hl hv h
    · cases h
  · rename_i hkind
    split at h
    · rename_i f hl
      exact .field hkind hl hv (Comparison.becomes_condition (orRefused_eq_ok h))
    · rename_i l hl
      exact becomes_renderValues hkind hl hv h

end Criterion

/-! ## Pieces -/

namespace Sql

/-- Whether a piece is that of an element: the condition that a criterion becomes, or the same
connective or parenthesis. -/
inductive Piece.ComesOf : Element → Piece → Prop
  | condition {c : Criterion} {o : Occurrence} {owner : Option Occurrence} {k : Condition}
      (h : c.render o owner = .ok k) : ComesOf (.criterion c) (.condition k)
  | and : ComesOf .and .and
  | or : ComesOf .or .or
  | openParen : ComesOf .openParen .openParen
  | closeParen : ComesOf .closeParen .closeParen

namespace Selection

theorem comesOf_pieceOf {p p' : JoinPlan} {e : Element} {piece : Piece}
    (h : pieceOf p e = .ok (piece, p')) : Piece.ComesOf e piece := by
  cases e with
  | criterion c =>
    rw [pieceOf] at h
    obtain ⟨⟨r, p₁⟩, -, h⟩ := bind_eq_ok.1 h
    dsimp only at h
    split at h
    · rename_i k hk
      cases h
      exact .condition hk
    · cases h
  | and | or | openParen | closeParen =>
    cases h
    constructor

theorem comesOf_piecesOf {es : List Element} {p' : JoinPlan} :
    ∀ {p : JoinPlan} {pieces : List Piece}, piecesOf p es = .ok (pieces, p') →
      List.Forall₂ Piece.ComesOf es pieces := by
  induction es with
  | nil =>
    intro p pieces h
    cases h
    exact .nil
  | cons e es ih =>
    intro p pieces h
    rw [piecesOf] at h
    obtain ⟨⟨piece, p₁⟩, hpiece, h⟩ := bind_eq_ok.1 h
    obtain ⟨⟨rest, p₂⟩, hrest, h⟩ := bind_eq_ok.1 h
    cases h
    exact .cons (comesOf_pieceOf hpiece) (ih hrest)

theorem comesOf_ofQuery {q : Query} {s : Selection} (h : ofQuery q = .ok s) :
    List.Forall₂ Piece.ComesOf q.elements s.condition := by
  obtain ⟨p, -, hpieces⟩ := ofQuery_eq_ok h
  exact comesOf_piecesOf hpieces

end Selection

end Sql

end ArtifactQuery
