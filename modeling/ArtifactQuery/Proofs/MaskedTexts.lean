import ArtifactQuery.Proofs.Outcome
import ArtifactQuery.Sql.Statement
import Mathlib.Logic.Basic

/-!
# Texts and statements

The texts of a query, those compared with and the keys of properties, reach a statement through its
parameters alone. Masking puts the empty text in place of each of them, and planning and rendering
commute with it, one step after the other.

* `Query.masked`, `Sql.Statement.masked`: a query and a statement without the contents of texts.
* `Sql.bind_eq_masked`: renderings in sequence commute with masking if each of them does.
* `Criterion.render_masked`, `Sql.Selection.ofQuery_masked`, `Query.toStatement_masked`: what masked
  input becomes is what the input becomes, masked.
* `sameButTexts_compiles`: queries that differ in texts only become statements that differ in texts
  bound to question marks only.
-/

namespace ArtifactQuery

/-! ## Masks -/

/-- The value with no text left in it. -/
def Value.masked : Value → Value
  | .text _ => .text ""
  | v => v

/-- The operand with no text left in its value. -/
def Operand.masked : Operand → Operand
  | .field f => .field f
  | .value v => .value v.masked

/-- The criterion with no texts left on its sides. -/
def Criterion.masked (c : Criterion) : Criterion :=
  { c with left := c.left.masked, right := c.right.masked }

/-- The element with no texts left in its criterion. -/
def Element.masked : Element → Element
  | .criterion c => .criterion c.masked
  | e => e

/-- The query with no texts left in its criteria. -/
def Query.masked (q : Query) : Query := { q with elements := q.elements.map Element.masked }

namespace Sql

/-- The parameter with no text left in it. -/
def Param.masked : Param → Param
  | .text _ => .text ""
  | .number n => .number n

/-- The term with its parameter masked. -/
def Term.masked : Term → Term
  | .param p => .param p.masked
  | .paramHead n p => .paramHead n p.masked
  | t => t

/-- The condition with its parameters masked. -/
def Condition.masked : Condition → Condition
  | .compare l r t => .compare l.masked r t.masked
  | .both a b => .both a.masked b.masked
  | .either a b => .either a.masked b.masked
  | .noneOf c column t a b => .noneOf c column t a.masked b.masked
  | k => k

/-- The piece with its parameters masked. -/
def Piece.masked : Piece → Piece
  | .condition k => .condition k.masked
  | p => p

/-- The selection with the parameters of its condition masked. -/
def Selection.masked (s : Selection) : Selection :=
  { s with condition := s.condition.map Piece.masked }

/-- The statement with its parameters masked. -/
def Statement.masked (st : Statement) : Statement :=
  { st with params := st.params.map Param.masked }

/-- The refusal with the parameters before it masked. -/
def Refused.masked (r : Refused) : Refused := { r with bound := r.bound.map Param.masked }

/-- What comes of a rendering, its result put through `m` and its refusal masked. -/
def maskedOutcome {α α' : Type} (m : α → α') : Except Refused α → Except Refused α'
  | .ok a => .ok (m a)
  | .error r => .error r.masked

theorem bind_eq_masked {α α' β β' : Type} {m : α → α'} {m' : β → β'} {x : Except Refused α}
    {x' : Except Refused α'} {f : α → Except Refused β} {f' : α' → Except Refused β'}
    (hx : x' = maskedOutcome m x) (hf : ∀ a, f' (m a) = maskedOutcome m' (f a)) :
    (x' >>= f') = maskedOutcome m' (x >>= f) := by
  rw [hx]
  cases x with
  | error r => rfl
  | ok a => exact hf a

theorem orRefused_masked {α α' : Type} {m : α → α'} {x : Except QueryError α}
    {x' : Except QueryError α'} (bound : List Param) (hx : x' = x.map m) :
    orRefused (bound.map Param.masked) x' = maskedOutcome m (orRefused bound x) := by
  rw [hx]
  cases x with
  | error e => rfl
  | ok a => rfl

/-! ## Masked conditions -/

theorem Param.masked_eq_number {p : Param} {n : Int} : p.masked = .number n ↔ p = .number n := by
  cases p with
  | text s => simp [masked]
  | number m => simp [masked]

theorem Param.masked_eq_text {p : Param} : p.masked = .text "" ↔ ∃ s, p = .text s := by
  cases p with
  | text s => simp [masked]
  | number m => simp [masked]

theorem Term.written_masked (t : Term) : t.masked.written = t.written := by
  cases t with
  | column c | columnHead n c | param p | paramHead n p => rfl

theorem Term.params_masked (t : Term) : t.masked.params = t.params.map Param.masked := by
  cases t with
  | column c | columnHead n c | param p | paramHead n p => rfl

/-- Nothing of a parameter stands in the text of a condition. -/
theorem Condition.written_masked (k : Condition) : k.masked.written = k.written := by
  induction k with
  | compare l r t => simp only [masked, written, Term.written_masked]
  | isNull c | isNotNull c | always | never => rfl
  | both a b iha ihb | either a b iha ihb | noneOf c column t a b iha ihb =>
    simp only [masked, written, iha, ihb]

theorem Condition.params_masked (k : Condition) : k.masked.params = k.params.map Param.masked := by
  induction k with
  | compare l r t => simp only [masked, params, Term.params_masked, List.map_append]
  | isNull c | isNotNull c | always | never => rfl
  | both a b iha ihb | either a b iha ihb | noneOf c column t a b iha ihb =>
    simp only [masked, params, iha, ihb, List.map_append]

theorem Piece.written_masked (p : Piece) : p.masked.written = p.written := by
  cases p with
  | condition k => exact k.written_masked
  | and | or | openParen | closeParen => rfl

theorem Piece.params_masked (p : Piece) : p.masked.params = p.params.map Param.masked := by
  cases p with
  | condition k => exact k.params_masked
  | and | or | openParen | closeParen => rfl

/-! ## Masked comparisons -/

theorem Param.ofValue_masked (v : Value) :
    Param.ofValue v.masked = (Param.ofValue v).map Param.masked := by
  cases v with
  | text s | long n | date n | null => rfl
  | itemType t => cases t <;> rfl

/-- The comparator alone decides on the relation; the value of a pattern is a text again. -/
theorem relate_masked (c : Comparator) (v : Value) :
    relate c v.masked = (relate c v).map fun r => (r.1, r.2.masked) := by
  have hlike : Wildcard.toLike "" = "" := by simp [Wildcard.toLike]
  cases c with
  | matching | notMatching =>
    cases v with
    | text s => simp [relate, Value.masked, hlike]
    | long n | date n | itemType t | null => rfl
  | equals | notEquals | greater | greaterEquals | less | lessEquals | last | before => rfl

namespace Comparison

/-- The comparison with its value masked. -/
def masked (c : Comparison) : Comparison := { c with value := c.value.masked }

theorem columnTerm_masked (c : Comparison) : c.columnTerm.masked = c.columnTerm := by
  rw [columnTerm]
  split <;> rfl

theorem paramTerm_masked (c : Comparison) (p : Param) :
    (c.paramTerm p).masked = c.paramTerm p.masked := by
  rw [paramTerm, paramTerm]
  split <;> rfl

theorem ordinary_masked (c : Comparison) : c.masked.ordinary = c.ordinary.map Condition.masked := by
  refine bind_eq_map (relate_masked c.comparator c.value) fun r => ?_
  refine bind_eq_map (Param.ofValue_masked r.2) fun p => ?_
  have htest : (Condition.compare c.columnTerm r.1 (c.paramTerm p)).masked =
      .compare c.columnTerm r.1 (c.paramTerm p.masked) := by
    rw [Condition.masked, columnTerm_masked, paramTerm_masked]
  show Except.ok (if c.comparator.isNegative ∧ c.nullable then _ else _) =
    Except.ok (Condition.masked (if c.comparator.isNegative ∧ c.nullable then _ else _))
  split
  · rw [Condition.masked, htest]
    rfl
  · rw [htest]
    rfl

theorem condition_masked (c : Comparison) :
    c.masked.condition = c.condition.map Condition.masked := by
  obtain ⟨column, nullable, head, cmp, v⟩ := c
  cases v with
  | text s | long n | date n => exact ordinary_masked _
  | null => cases cmp <;> rfl
  | itemType t =>
    cases t with
    | folder | file => exact ordinary_masked _
    | any =>
      cases cmp with
      | equals | notEquals => rfl
      | greater | greaterEquals | less | lessEquals | matching | notMatching | last | before =>
        exact ordinary_masked _

end Comparison

end Sql

/-! ## Masked criteria -/

namespace Criterion

open Sql

variable (c : Criterion) (o : Occurrence)

theorem masked_kind : c.masked.kind = c.kind := rfl

theorem masked_comparator : c.masked.comparator = c.comparator := rfl

theorem masked_left : c.masked.left = c.left.masked := rfl

theorem masked_right : c.masked.right = c.right.masked := rfl

theorem renderProperty_masked (key : String) (v : Value) (owner : Occurrence) :
    c.masked.renderProperty "" v.masked o owner =
      maskedOutcome Condition.masked (c.renderProperty key v o owner) := by
  rw [renderProperty, renderProperty, masked_kind, masked_comparator]
  by_cases hneg : ¬ c.comparator.isNegative
  · rw [if_pos hneg, if_pos hneg]
    refine bind_eq_masked ?_ fun value => rfl
    exact orRefused_masked [.text key] (Comparison.condition_masked ⟨_, _, _, _, v⟩)
  · rw [if_neg hneg, if_neg hneg]
    refine bind_eq_masked (m := id) ?_ fun columns => ?_
    · exact orRefused_masked [] (by cases ownerColumns owner.table o.table <;> rfl)
    · refine bind_eq_masked ?_ fun value => rfl
      exact orRefused_masked [.text key] (Comparison.condition_masked ⟨_, _, _, _, v⟩)

theorem renderField_masked (f : Field) (v : Value) :
    c.masked.renderField f v.masked o =
      maskedOutcome Condition.masked (c.renderField f v o) :=
  orRefused_masked [] (Comparison.condition_masked ⟨_, _, _, _, v⟩)

theorem renderValues_masked (l v : Value) :
    c.masked.renderValues l.masked v.masked =
      maskedOutcome Condition.masked (c.renderValues l v) := by
  have hsides : ∀ r : Relation,
      (do let left ← orRefused [] (Param.ofValue l.masked)
          let right ← orRefused [left] (Param.ofValue v.masked)
          return Condition.compare (.param left) r (.param right)) =
        maskedOutcome Condition.masked (do
          let left ← orRefused [] (Param.ofValue l)
          let right ← orRefused [left] (Param.ofValue v)
          return Condition.compare (.param left) r (.param right)) := fun r => by
    refine bind_eq_masked (orRefused_masked [] (Param.ofValue_masked l)) fun left => ?_
    refine bind_eq_masked ?_ fun right => rfl
    exact orRefused_masked [left] (Param.ofValue_masked v)
  rw [renderValues, renderValues, masked_comparator]
  cases c.comparator with
  | equals => exact hsides .eq
  | notEquals => exact hsides .ne
  | greater | greaterEquals | less | lessEquals | matching | notMatching | last | before => rfl

/-- What a masked criterion becomes is what the criterion becomes, masked. -/
theorem render_masked (owner : Option Occurrence) :
    c.masked.render o owner = maskedOutcome Condition.masked (c.render o owner) := by
  rw [render, render, masked_right, masked_left, masked_kind]
  cases c.right with
  | field f => rfl
  | value v =>
    by_cases hkey : c.kind.namesKey
    · simp only [Operand.masked, if_pos hkey]
      cases c.left with
      | field f => rfl
      | value l =>
        cases l with
        | text key => exact renderProperty_masked c o key v _
        | long n | date n | itemType t | null => rfl
    · simp only [Operand.masked, if_neg hkey]
      cases c.left with
      | field f => exact renderField_masked c o f v
      | value l => exact renderValues_masked c l v

end Criterion

/-! ## Masked queries -/

namespace Sql

theorem comparedTable?_masked (c : Criterion) : comparedTable? c.masked = comparedTable? c := by
  have hleft : c.masked.left = c.left.masked := rfl
  rw [comparedTable?, comparedTable?, hleft]
  cases c.left with
  | field f | value v => rfl

/-- Joins are planned without a look at texts. -/
theorem JoinPlan.forCriterion_masked (p : JoinPlan) (c : Criterion) :
    p.forCriterion c.masked = p.forCriterion c := by
  rw [forCriterion, forCriterion, comparedTable?_masked]
  rfl

namespace Selection

theorem pieceOf_masked (p : JoinPlan) (e : Element) :
    pieceOf p e.masked = (pieceOf p e).map fun r => (r.1.masked, r.2) := by
  cases e with
  | criterion c =>
    rw [Element.masked, pieceOf, pieceOf, JoinPlan.forCriterion_masked]
    refine bind_map_of_forall _ fun r => ?_
    dsimp only
    rw [Criterion.render_masked]
    cases c.render r.1.occurrence r.1.owner with
    | ok k => rfl
    | error refused => rfl
  | and | or | openParen | closeParen => rfl

theorem piecesOf_masked (es : List Element) (p : JoinPlan) :
    piecesOf p (es.map Element.masked) =
      (piecesOf p es).map fun r => (r.1.map Piece.masked, r.2) := by
  induction es generalizing p with
  | nil => rfl
  | cons e es ih =>
    rw [List.map_cons, piecesOf, piecesOf]
    refine bind_eq_map (pieceOf_masked p e) fun r => ?_
    exact bind_eq_map (ih r.2) fun rest => rfl

/-- The selection of a masked query is that of the query, masked. -/
theorem ofQuery_masked (q : Query) : ofQuery q.masked = (ofQuery q).map masked := by
  unfold ofQuery
  refine bind_map_of_forall _ fun r => ?_
  dsimp only
  split
  · rfl
  refine bind_eq_map (piecesOf_masked q.elements r.2) fun pieces => ?_
  have hsort : q.masked.sort = q.sort := rfl
  rw [hsort]
  cases q.sort with
  | none => rfl
  | some sorting => exact bind_map_of_forall _ fun order => rfl

theorem conditionText_masked (s : Selection) : s.masked.conditionText = s.conditionText := by
  have hwritten : Piece.written ∘ Piece.masked = Piece.written := funext Piece.written_masked
  rw [conditionText, masked, List.map_map, hwritten]
  rfl

theorem params_masked (s : Selection) : s.masked.params = s.params.map Param.masked := by
  rw [params, params, List.map_flatMap, masked, List.flatMap_map]
  simp only [Piece.params_masked]

theorem parts_masked (s : Selection) (offset limit : Int) :
    s.masked.parts offset limit = s.parts offset limit := by
  rw [parts, parts, conditionText_masked]
  rfl

end Selection

end Sql

open Sql

/-- The statement of a masked query is that of the query, masked. -/
theorem Query.toStatement_masked (q : Query) (d : Dialect) :
    q.masked.toStatement d = (q.toStatement d).map Statement.masked := by
  refine bind_eq_map (Selection.ofQuery_masked q) fun s => ?_
  rw [Selection.parts_masked, Selection.params_masked]
  exact bind_map_of_forall _ fun sql => rfl

/-! ## Queries that differ in texts -/

namespace Sql

theorem getElem?_eq_number_iff (ps : List Param) (i : Nat) (n : Int) :
    (ps.map Param.masked)[i]? = some (.number n) ↔ ps[i]? = some (.number n) := by
  rw [List.getElem?_map, Option.map_eq_some_iff]
  simp only [Param.masked_eq_number, exists_eq_right]

theorem getElem?_eq_text_iff (ps : List Param) (i : Nat) :
    (ps.map Param.masked)[i]? = some (.text "") ↔ ∃ s, ps[i]? = some (.text s) := by
  rw [List.getElem?_map, Option.map_eq_some_iff]
  constructor
  · rintro ⟨p, hp, hmasked⟩
    obtain ⟨s, rfl⟩ := Param.masked_eq_text.1 hmasked
    exact ⟨s, hp⟩
  · rintro ⟨s, hs⟩
    exact ⟨.text s, hs, rfl⟩

end Sql

/-- Of two queries that differ in the contents of texts only, compared with or keys of properties,
one becomes a statement in a dialect exactly if the other does. Both statements then have the same
text, columns, domain and window, and as many parameters, with the same numbers at the same places
and texts at the same places. -/
theorem sameButTexts_compiles {q q' : Query} (h : q.masked = q'.masked) (d : Dialect) :
    ((∃ st, q.toStatement d = .ok st) ↔ ∃ st', q'.toStatement d = .ok st') ∧
      ∀ st st', q.toStatement d = .ok st → q'.toStatement d = .ok st' →
        st'.sql = st.sql ∧ st'.columns = st.columns ∧ st'.domain = st.domain ∧
          st'.offset = st.offset ∧ st'.limit = st.limit ∧
          st'.params.length = st.params.length ∧
          ∀ i : Nat,
            (∀ n, st'.params[i]? = some (.number n) ↔ st.params[i]? = some (.number n)) ∧
              ((∃ s', st'.params[i]? = some (.text s')) ↔ ∃ s, st.params[i]? = some (.text s)) := by
  -- Compiling and masking can be exchanged, so whatever masking keeps is the same in both
  -- statements.
  have hsame :
      (q'.toStatement d).map Statement.masked = (q.toStatement d).map Statement.masked := by
    rw [← Query.toStatement_masked, ← Query.toStatement_masked, h]
  constructor
  · rw [← exists_map_eq_ok (f := Statement.masked), ← hsame, exists_map_eq_ok]
  · intro st st' hst hst'
    rw [hst, hst'] at hsame
    have hmasked : st'.masked = st.masked := Except.ok.inj hsame
    simp only [Statement.masked, Sql.Statement.mk.injEq] at hmasked
    obtain ⟨hsql, hparams, hcolumns, hdomain, -, hoffset, hlimit⟩ := hmasked
    refine ⟨hsql, hcolumns, hdomain, hoffset, hlimit, ?_, fun i => ⟨fun n => ?_, ?_⟩⟩
    · simpa using congrArg List.length hparams
    · rw [← getElem?_eq_number_iff, hparams, getElem?_eq_number_iff]
    · rw [← getElem?_eq_text_iff, hparams, getElem?_eq_text_iff]

/-- Files of a depth from two on that are without a property. -/
def Query.filesWithout (key value : String) : Query where
  domain := .items
  resultFields := [.main .itemName .items]
  elements :=
    [.criterion (.property [.items, .properties] key ⟨.nodeProps, firstDynamicId⟩ .notEquals
      (.text value)),
     .and,
     .criterion (.simple [.items] .itemDepth (.plain .nodes) .greaterEquals (.long 2))]

theorem sameButTexts_compiles_filesWithout :
    (Query.filesWithout "license" "MIT").masked =
        (Query.filesWithout "x" "' or '1' = '1").masked ∧
      ∃ st st', (Query.filesWithout "license" "MIT").toStatement .derby = .ok st ∧
        (Query.filesWithout "x" "' or '1' = '1").toStatement .derby = .ok st' ∧
        st.params = [.text "license", .text "MIT", .number 2] ∧
        st'.sql = st.sql ∧ st'.params.length = st.params.length := by
  have hmasked : (Query.filesWithout "license" "MIT").masked =
      (Query.filesWithout "x" "' or '1' = '1").masked := rfl
  refine ⟨hmasked, ?_⟩
  obtain ⟨st, hst, hparams⟩ : ∃ st, (Query.filesWithout "license" "MIT").toStatement .derby =
      .ok st ∧ st.params = [.text "license", .text "MIT", .number 2] := ⟨_, rfl, rfl⟩
  have hboth := sameButTexts_compiles hmasked .derby
  obtain ⟨st', hst'⟩ := hboth.1.1 ⟨st, hst⟩
  obtain ⟨hsql, -, -, -, -, hlength, -⟩ := hboth.2 st st' hst hst'
  exact ⟨st, st', hst, hst', hparams, hsql, hlength⟩

end ArtifactQuery
