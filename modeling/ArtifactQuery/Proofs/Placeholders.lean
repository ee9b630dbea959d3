import ArtifactQuery.Proofs.Acceptance
import ArtifactQuery.Proofs.Framing

/-!
# Question marks and parameters

A statement has a list of parameters and a text with a question mark for each. What ties a parameter
to its place is the order alone: the database binds the first parameter to the first question mark
from the left, and so on.

* `Criterion.ownParams`: the parameters that a criterion stands for.
* `Criterion.Becomes.params_eq`: these are the parameters of its condition.
* `fillMarks`: a text with texts in place of its question marks, from the left.
* `Condition.writtenWith`: a condition with its parameters written in their own places.
* `Condition.fills`, `Selection.fills`: filling the question marks of a text from the left puts each
  parameter in its own place.
* `placeholders_toStatement`: the parameters and the question marks of a statement.
-/

namespace ArtifactQuery

open Sql

/-! ## Parameters of criteria -/

/-- The parameters of a value under a comparator: none for null and for any item type, the `like`
pattern of a text that is matched, and otherwise the value itself. -/
def Value.bound (cmp : Comparator) : Value → List Param
  | text s => [.text (if cmp.takesPattern then Wildcard.toLike s else s)]
  | long n | date n => [.number n]
  | itemType t => t.code?.toList.map .number
  | null => []

/-- The parameters of a criterion: the key of a property in front of those of its value, the two
values of a comparison between values, and those of the value that a column is compared with. -/
def Criterion.ownParams (c : Criterion) : List Param :=
  match c.left, c.right with
  | _, .field _ => []
  | .field _, .value v => v.bound c.comparator
  | .value l, .value v =>
    l.bound .equals ++ v.bound (if c.kind.namesKey then c.comparator else .equals)

theorem Value.bound_ofValue {v : Value} {p : Param} (h : Param.ofValue v = .ok p) :
    v.bound .equals = [p] := by
  cases v with
  | text s | long n | date n =>
    cases h
    rfl
  | itemType t =>
    cases t with
    | folder | file =>
      cases h
      rfl
    | any => cases h
  | null => cases h

/-- Only a pattern is bound as another text. -/
theorem Value.bound_of_not_pattern {cmp : Comparator} (h : cmp.takesPattern = false) (v : Value) :
    v.bound cmp = v.bound .equals := by
  cases v with
  | text s =>
    rw [bound, h]
    rfl
  | long n | date n | itemType t | null => rfl

theorem Value.bound_relate {cmp : Comparator} {v w : Value} {r : Relation} {p : Param}
    (hr : relate cmp v = .ok (r, w)) (hp : Param.ofValue w = .ok p) : v.bound cmp = [p] := by
  cases cmp with
  | matching | notMatching =>
    cases v with
    | text s =>
      cases hr
      cases hp
      rfl
    | long n | date n | itemType t | null => cases hr
  | equals | notEquals | greater | greaterEquals | less | lessEquals =>
    cases hr
    exact (Value.bound_of_not_pattern rfl v).trans (Value.bound_ofValue hp)
  | last | before => cases hr

/-- A denial binds what the comparison denied does. -/
theorem Value.bound_positive (cmp : Comparator) (v : Value) :
    v.bound cmp.positive = v.bound cmp := by
  cases v with
  | text s => cases cmp <;> rfl
  | long n | date n | itemType t | null => rfl

theorem Sql.Comparison.Becomes.params_eq {c : Comparison} {k : Condition} (h : c.Becomes k) :
    k.params = c.value.bound c.comparator := by
  cases h with
  | isNull hv _ | isNotNull hv _ | always hv _ | never hv _ =>
    rw [hv]
    rfl
  | test hr hp =>
    rw [Value.bound_relate hr hp, Condition.params, params_columnTerm, params_paramTerm,
      List.nil_append]
  | testOrNull hr hp _ _ =>
    rw [Value.bound_relate hr hp, Condition.params, Condition.params, params_columnTerm,
      params_paramTerm]
    rfl

/-- A condition has the parameters of its criterion. -/
theorem Criterion.Becomes.params_eq {c : Criterion} {o : Occurrence} {k : Condition}
    (h : c.Becomes o k) : k.params = c.ownParams := by
  cases h with
  | values hkind hl hv hleft hright =>
    rw [ownParams, hl, hv]
    simp only [if_neg hkind, Value.bound_ofValue hleft, Value.bound_ofValue hright]
    rfl
  | field hkind hl hv hk =>
    rw [ownParams, hl, hv, hk.params_eq]
  | hasProperty hkind hl hv hk =>
    rw [ownParams, hl, hv, Condition.params, hk.params_eq]
    simp only [if_pos hkind]
    rfl
  | lacksProperty hkind hl hv _ hk =>
    rw [ownParams, hl, hv, Condition.params, hk.params_eq]
    simp only [if_pos hkind, Value.bound_positive]
    rfl

/-! ## Question marks -/

/-- Characters with texts in place of the question marks among them, from the left. -/
def fillChars : List String → List Char → List Char
  | _, [] => []
  | [], cs => cs
  | t :: ts, c :: cs => if c = '?' then t.toList ++ fillChars ts cs else c :: fillChars (t :: ts) cs

/-- A text with other texts in place of its question marks, from the left. -/
def fillMarks (ts : List String) (s : String) : String := String.ofList (fillChars ts s.toList)

theorem fillChars_nil (cs : List Char) : fillChars [] cs = cs := by
  cases cs <;> rfl

theorem fillChars_cons_of_ne {c : Char} (hc : c ≠ '?') (ts : List String) (cs : List Char) :
    fillChars ts (c :: cs) = c :: fillChars ts cs := by
  cases ts with
  | nil => rw [fillChars_nil, fillChars_nil]
  | cons t ts => rw [fillChars, if_neg hc]

theorem fillChars_cons_mark (t : String) (ts : List String) (cs : List Char) :
    fillChars (t :: ts) ('?' :: cs) = t.toList ++ fillChars ts cs := by
  rw [fillChars, if_pos rfl]

/-- Two texts behind each other are filled as each of them is. -/
theorem fillChars_append {ts : List String} {cs : List Char} (h : cs.count '?' = ts.length)
    (ts' : List String) (cs' : List Char) :
    fillChars (ts ++ ts') (cs ++ cs') = fillChars ts cs ++ fillChars ts' cs' := by
  induction cs generalizing ts with
  | nil =>
    have hnil : ts = [] := List.length_eq_zero_iff.1 h.symm
    rw [hnil]
    rfl
  | cons c cs ih =>
    by_cases hc : c = '?'
    · subst hc
      rw [List.count_cons_self] at h
      obtain ⟨t, ts, rfl⟩ := List.exists_cons_of_length_eq_add_one h.symm
      rw [List.cons_append, List.cons_append, fillChars_cons_mark, fillChars_cons_mark,
        ih (Nat.add_right_cancel h), List.append_assoc]
    · rw [List.count_cons_of_ne hc] at h
      rw [List.cons_append, fillChars_cons_of_ne hc, fillChars_cons_of_ne hc, ih h]
      rfl

/-- Whether a text has as many question marks as there are other texts, and is `filled` with these
in their places. -/
structure Fills (ts : List String) (s filled : String) : Prop where
  count : s.toList.count '?' = ts.length
  eq : fillMarks ts s = filled

namespace Fills

variable {ts ts' : List String} {s s' t t' : String}

theorem append (h : Fills ts s t) (h' : Fills ts' s' t') :
    Fills (ts ++ ts') (s ++ s') (t ++ t') where
  count := by
    rw [String.toList_append, List.count_append, h.count, h'.count, List.length_append]
  eq := by
    rw [fillMarks, String.toList_append, fillChars_append h.count, String.ofList_append]
    exact congrArg₂ (· ++ ·) h.eq h'.eq

theorem of_unmarked (h : Unmarked s) : Fills [] s s where
  count := List.count_eq_zero.2 h
  eq := by rw [fillMarks, fillChars_nil, String.ofList_toList]

theorem append_unmarked (h : Fills ts s t) {u : String} (hu : Unmarked u) :
    Fills ts (s ++ u) (t ++ u) := by
  have happend := h.append (of_unmarked hu)
  rwa [List.append_nil] at happend

theorem prepend_unmarked (h : Fills ts s t) {u : String} (hu : Unmarked u) :
    Fills ts (u ++ s) (u ++ t) :=
  (of_unmarked hu).append h

theorem mark (t : String) : Fills [t] "?" t where
  count := rfl
  eq := by
    show String.ofList (fillChars [t] ['?']) = t
    rw [fillChars, if_pos rfl, fillChars, List.append_nil, String.ofList_toList]

end Fills

/-! ## Parameters in their places -/

namespace Sql

/-- The text of a term with its parameter written in its place. -/
def Term.writtenWith (f : Param → String) : Term → String
  | .param p => f p
  | .paramHead n p => "substr(" ++ f p ++ ", 1, " ++ toString n ++ ")"
  | t => t.written

/-- The text of a condition with its parameters written in their places. -/
def Condition.writtenWith (f : Param → String) : Condition → String
  | compare l r t => l.writtenWith f ++ " " ++ r.sign ++ " " ++ t.writtenWith f
  | both a b => "(" ++ a.writtenWith f ++ " and " ++ b.writtenWith f ++ ")"
  | either a b => "(" ++ a.writtenWith f ++ " or " ++ b.writtenWith f ++ ")"
  | noneOf c column t a b =>
    c.written ++ " not in (select " ++ column ++ " from " ++ t.name ++ " where " ++
      a.writtenWith f ++ " and " ++ b.writtenWith f ++ ")"
  | k => k.written

/-- The text of a piece with its parameters written in their places. -/
def Piece.writtenWith (f : Param → String) : Piece → String
  | condition k => k.writtenWith f
  | p => p.written

/-- The `where` clause of a selection with its parameters written in their places. -/
def Selection.whereTextWith (f : Param → String) (s : Selection) : String :=
  if s.condition = [] then ""
  else " where " ++ " ".intercalate (s.condition.map (Piece.writtenWith f))

theorem Term.written_head_param : "substr(?, 1, " = "substr(" ++ "?" ++ ", 1, " := by decide

theorem Term.writtenWith_mark (t : Term) : t.writtenWith (fun _ => "?") = t.written := by
  cases t with
  | column c | columnHead n c | param p => rfl
  | paramHead n p => rw [writtenWith, written, written_head_param]

/-- The text of a condition has question marks in the places of its parameters. -/
theorem Condition.writtenWith_mark (k : Condition) : k.writtenWith (fun _ => "?") = k.written := by
  induction k with
  | compare l r t => rw [writtenWith, written, l.writtenWith_mark, t.writtenWith_mark]
  | isNull c | isNotNull c | always | never => rfl
  | both a b iha ihb | either a b iha ihb | noneOf c column t a b iha ihb =>
    rw [writtenWith, written, iha, ihb]

theorem Selection.whereTextWith_mark (s : Selection) :
    s.whereTextWith (fun _ => "?") = s.whereText := by
  have hpieces : Piece.writtenWith (fun _ => "?") = Piece.written := by
    funext p
    cases p with
    | condition k => exact k.writtenWith_mark
    | and | or | openParen | closeParen => rfl
  rw [whereTextWith, whereText, hpieces]
  rfl

theorem ColumnRef.unmarked_written {c : ColumnRef} (h : IsName c.column) : Unmarked c.written :=
  unmarked_of_isPlain (isPlain_written h)

theorem Relation.unmarked_sign (r : Relation) : Unmarked r.sign := by
  cases r <;> decide

theorem Term.fills {t : Term} (h : ∀ c ∈ t.columns, IsName c.column) (f : Param → String) :
    Fills (t.params.map f) t.written (t.writtenWith f) := by
  cases t with
  | column c => exact .of_unmarked (ColumnRef.unmarked_written (h c List.mem_cons_self))
  | columnHead n c =>
    have hc := ColumnRef.unmarked_written (h c List.mem_cons_self)
    have hwords : Unmarked "substr(" ∧ Unmarked "::text, 1, " ∧ Unmarked ")" := by decide
    refine .of_unmarked ?_
    show Unmarked ("substr(" ++ c.written ++ "::text, 1, " ++ toString n ++ ")")
    simp only [unmarked_append, hc, hwords, unmarked_toString_nat, and_self]
  | param p => exact .mark (f p)
  | paramHead n p =>
    have hmark : Fills [f p] "substr(?, 1, " ("substr(" ++ f p ++ ", 1, ") := by
      rw [written_head_param]
      exact ((Fills.mark (f p)).prepend_unmarked (by decide)).append_unmarked (by decide)
    exact (hmark.append_unmarked (unmarked_toString_nat n)).append_unmarked (by decide)

namespace Condition

/-- Filling the question marks of a condition puts each parameter in its own place. -/
theorem fills {k : Condition} (h : k.NamesPlainly) (f : Param → String) :
    Fills (k.params.map f) k.written (k.writtenWith f) := by
  -- Conditions are filled from the left to the right, which is the order of their parameters.
  induction k with
  | compare l r t =>
    have hl := Term.fills (fun c hc => h c (List.mem_append_left _ hc)) f
    have ht := Term.fills (fun c hc => h c (List.mem_append_right _ hc)) f
    have hblank : Unmarked " " := by decide
    rw [params, List.map_append]
    exact (((hl.append_unmarked hblank).append_unmarked r.unmarked_sign).append_unmarked
      hblank).append ht
  | isNull c =>
    exact (Fills.of_unmarked (ColumnRef.unmarked_written h)).append_unmarked (by decide)
  | isNotNull c =>
    exact (Fills.of_unmarked (ColumnRef.unmarked_written h)).append_unmarked (by decide)
  | always => exact .of_unmarked (by decide)
  | never => exact .of_unmarked (by decide)
  | both a b iha ihb =>
    rw [params, List.map_append]
    exact ((((iha h.1).prepend_unmarked (by decide)).append_unmarked (by decide)).append
      (ihb h.2)).append_unmarked (by decide)
  | either a b iha ihb =>
    rw [params, List.map_append]
    exact ((((iha h.1).prepend_unmarked (by decide)).append_unmarked (by decide)).append
      (ihb h.2)).append_unmarked (by decide)
  | noneOf c column t a b iha ihb =>
    obtain ⟨hc, hcolumn, ha, hb⟩ := h
    have hfront : Unmarked (c.written ++ " not in (select " ++ column ++ " from " ++ t.name ++
        " where ") := by
      have hwords : Unmarked " not in (select " ∧ Unmarked " from " ∧ Unmarked " where " := by
        decide
      simp only [unmarked_append, ColumnRef.unmarked_written hc, hcolumn.unmarked, t.unmarked_name,
        hwords, and_self]
    rw [params, List.map_append]
    exact ((((iha ha).prepend_unmarked hfront).append_unmarked (by decide)).append
      (ihb hb)).append_unmarked (by decide)

end Condition

theorem Piece.fills {p : Piece} (h : ∀ k, p = .condition k → k.NamesPlainly)
    (f : Param → String) : Fills (p.params.map f) p.written (p.writtenWith f) := by
  cases p with
  | condition k => exact Condition.fills (h k rfl) f
  | and | or | openParen | closeParen => exact .of_unmarked (by decide)

theorem fills_intercalate {ps : List Piece}
    (h : ∀ k, .condition k ∈ ps → k.NamesPlainly) (f : Param → String) :
    Fills ((ps.flatMap Piece.params).map f) (" ".intercalate (ps.map Piece.written))
      (" ".intercalate (ps.map (Piece.writtenWith f))) := by
  induction ps with
  | nil => exact .of_unmarked (by simp [Unmarked])
  | cons p ps ih =>
    have hp := Piece.fills (fun k hk => h k (hk ▸ List.mem_cons_self)) f
    have hps := ih fun k hk => h k (List.mem_cons_of_mem _ hk)
    rw [List.flatMap_cons, List.map_append]
    cases ps with
    | nil =>
      rw [List.flatMap_nil, List.map_nil, List.append_nil, List.map_singleton, List.map_singleton,
        String.intercalate_singleton, String.intercalate_singleton]
      exact hp
    | cons p' ps =>
      simp only [List.map_cons, String.intercalate_cons_cons] at hps ⊢
      exact (hp.append_unmarked (by decide)).append hps

/-- Filling the question marks of a `where` clause puts each parameter in its own place. -/
theorem Selection.Named.fills {s : Selection} (hs : s.Named) (f : Param → String) :
    Fills (s.params.map f) s.whereText (s.whereTextWith f) := by
  have hpieces := fills_intercalate hs.conditions f
  rw [whereText, whereTextWith, params]
  split
  · rename_i hnil
    rw [hnil]
    exact .of_unmarked (by decide)
  · exact hpieces.prepend_unmarked (by decide)

/-! ## Statements -/

/-- Whether a piece is that of an element, where a criterion has become a condition with its
parameters, and with as many question marks in its text, which are their places from left to
right. -/
inductive Piece.Binds : Element → Piece → Prop
  | condition {c : Criterion} {o : Occurrence} {owner : Option Occurrence} {k : Condition}
      (hrender : c.render o owner = .ok k) (hparams : k.params = c.ownParams)
      (hcount : k.written.toList.count '?' = c.ownParams.length)
      (hplaces : ∀ f, fillMarks (c.ownParams.map f) k.written = k.writtenWith f) :
      Binds (.criterion c) (.condition k)
  | and : Binds .and .and
  | or : Binds .or .or
  | openParen : Binds .openParen .openParen
  | closeParen : Binds .closeParen .closeParen

theorem Piece.ComesOf.binds {e : Element} {p : Piece} (h : Piece.ComesOf e p) :
    Piece.Binds e p := by
  cases h with
  | condition hk =>
    have hform := Criterion.becomes_render hk
    have hparams := hform.params_eq
    have hfills := Condition.fills hform.namesPlainly
    rw [hparams] at hfills
    refine .condition hk hparams ?_ fun f => (hfills f).eq
    rw [(hfills Param.shown).count, List.length_map]
  | and => exact .and
  | or => exact .or
  | openParen => exact .openParen
  | closeParen => exact .closeParen

/-- The parameters of pieces are those of the criteria that they come from. -/
theorem params_of_binds {es : List Element} {ps : List Piece}
    (h : List.Forall₂ Piece.Binds es ps) :
    ps.flatMap Piece.params = (Element.criteria es).flatMap Criterion.ownParams := by
  induction h with
  | nil => rfl
  | @cons e p es ps hfirst _ ih =>
    rw [List.flatMap_cons, ih]
    cases hfirst with
    | condition _ hparams _ _ =>
      rw [Element.criteria_cons_criterion, List.flatMap_cons, Piece.params, hparams]
    | and | or | openParen | closeParen =>
      rw [Element.criteria_cons_of_none rfl]
      rfl

end Sql

/-- A statement has the parameters of its query's criteria, in their order, and as many question
marks. Each condition in it has the parameters of its criterion and as many question marks. Filling
the question marks of the statement with its parameters, from the left and however they are written,
puts each parameter in the place that it has in its condition. -/
theorem placeholders_toStatement {q : Query} {d : Dialect} {st : Sql.Statement}
    (h : q.toStatement d = .ok st) :
    st.params = q.criteria.flatMap Criterion.ownParams ∧
      st.sql.toList.count '?' = st.params.length ∧
      ∃ sel, Selection.ofQuery q = .ok sel ∧ List.Forall₂ Piece.Binds q.elements sel.condition ∧
        sel.whereTextWith (fun _ => "?") = sel.whereText ∧
        ∃ front back, Unmarked front ∧ Unmarked back ∧ st.sql = front ++ sel.whereText ++ back ∧
          ∀ f, fillMarks (st.params.map f) st.sql = front ++ sel.whereTextWith f ++ back := by
  obtain ⟨sel, hsel, hnamed, hparams, front, back, hfront, hback, hsql⟩ :=
    Selection.framed_of_toStatement h
  have hbinds : List.Forall₂ Piece.Binds q.elements sel.condition :=
    (Selection.comesOf_ofQuery hsel).imp fun e p hep => hep.binds
  have hfills : ∀ f, Fills (st.params.map f) st.sql (front ++ sel.whereTextWith f ++ back) := by
    intro f
    rw [hparams, hsql]
    exact ((hnamed.fills f).prepend_unmarked hfront).append_unmarked hback
  refine ⟨?_, ?_, sel, hsel, hbinds, sel.whereTextWith_mark, front, back,
    hfront, hback, hsql, fun f => (hfills f).eq⟩
  · rw [hparams]
    exact params_of_binds hbinds
  · rw [(hfills Param.shown).count, List.length_map]

/-- Five items of any type without a property that fits a pattern, under a condition that never
holds. -/
def Query.hardlyAny : Query where
  domain := .items
  resultFields := [.main .itemName .items]
  elements :=
    [.criterion (.property [.items, .properties] "license" ⟨.nodeProps, firstDynamicId⟩ .notMatching
      (.text "GPL*")),
     .and,
     .criterion (.simple [.items] .itemType (.plain .nodes) .equals (.itemType .any)),
     .or,
     .criterion (.never [.items] (.plain .nodes))]
  limit := 5

theorem placeholders_hardlyAny :
    ∃ st, Query.hardlyAny.toStatement .sqlserver = .ok st ∧
      st.params = [.text "license", .text "GPL%", .number 1, .number 0] ∧
      st.sql.toList.count '?' = 4 := by
  have hlike : Wildcard.toLike "GPL*" = "GPL%" := by
    rw [← String.toList_inj, Wildcard.toLike, String.toList_map]
    decide
  obtain ⟨st, hst⟩ : ∃ st, Query.hardlyAny.toStatement .sqlserver = .ok st := ⟨_, rfl⟩
  obtain ⟨hparams, hcount, -⟩ := placeholders_toStatement hst
  have hown : Query.hardlyAny.criteria.flatMap Criterion.ownParams =
      [.text "license", .text (Wildcard.toLike "GPL*"), .number 1, .number 0] := rfl
  rw [hown, hlike] at hparams
  rw [hparams] at hcount
  exact ⟨st, hst, hparams, hcount⟩

end ArtifactQuery
