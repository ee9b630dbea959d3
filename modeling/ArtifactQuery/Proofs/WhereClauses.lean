import ArtifactQuery.Proofs.ConditionWords
import ArtifactQuery.Proofs.Framing

/-!
# The tree of a `where` clause

The pieces of a `where` clause are put behind each other as texts, so a condition with a connective
in it could give its operands away to a connective beside it. None does.

* `Coheres`: texts whose words belong to one operand.
* `Condition.formula`: the tree of a condition.
* `Condition.standsAlone`: the text of a condition is an operand, whatever stands around it.
* `Selection.words_conditionText`, `takes_words`: the words of a clause are those of its pieces, and
  are taken together as the pieces are.
* `formula_toStatement`: the condition of a statement is read as the tree of its query's elements.
-/

namespace ArtifactQuery

open Formula

/-! ## Names -/

theorem not_endsWord_of_isPlain {c : Char} (h : isPlain c) : ! endsWord parens c := by
  obtain ⟨hblank, hopen, hclose, -⟩ := isPlain_iff.1 h
  simp [endsWord, parens, hblank, hopen, hclose]

theorem words_of_plain {s : String} (hne : s.toList ≠ []) (h : s.toList.all isPlain) :
    words s = [s.toList] := by
  refine cutWords_eq_singleton hne (List.all_eq_true.2 fun c hc => ?_)
  exact not_endsWord_of_isPlain (List.all_eq_true.1 h c hc)

theorem ne_paren_of_plain {w : Word} (h : w.all isPlain) : w ≠ ['('] ∧ w ≠ [')'] := by
  constructor
  · rintro rfl
    exact absurd h (by decide)
  · rintro rfl
    exact absurd h (by decide)

/-- The characters of names may stand in the parentheses of an operand. -/
theorem nests_of_plain {s : String} (h : s.toList.all isPlain) : Nests (words s) := by
  refine nests_of_unparenthesized fun w hw => ?_
  by_cases hnil : s.toList = []
  · rw [words, cutText, hnil] at hw
    cases hw
  · rw [words_of_plain hnil h, List.mem_singleton] at hw
    exact hw ▸ ne_paren_of_plain h

theorem isOrdinary_of_plain {w : Word} (h : w.all isPlain)
    (hword : w.map Char.toLower ∉ connectives) : IsOrdinary w := by
  obtain ⟨hopen, hclose⟩ := ne_paren_of_plain h
  rw [connectives, List.mem_pair, not_or] at hword
  refine ⟨hopen, ?_⟩
  rw [connective?, if_neg hclose, if_neg hword.1, if_neg hword.2]

/-- A word with a character that is in no connective is none. -/
theorem not_mem_connectives {w : Word} {c : Char} (hc : c ∈ w)
    (hletter : ∀ k ∈ connectives, c.toLower ∉ k) : w.map Char.toLower ∉ connectives :=
  fun hmem => hletter _ hmem (List.mem_map_of_mem hc)

/-! ## Texts of one operand -/

/-- Whether the words of a text may start an operand, go on with one, and stand in the parentheses
of one. -/
structure Coheres (s : String) : Prop where
  begins : Begins (words s)
  passes : Passes (words s)
  nests : Nests (words s)

namespace Coheres

variable {s t : String}

theorem of_ordinary (hne : words s ≠ []) (h : ∀ w ∈ words s, IsOrdinary w) : Coheres s :=
  ⟨begins_of_ordinary hne h, passes_of_ordinary h, nests_of_ordinary h⟩

theorem of_append {ws : List Word} (h : Coheres s) (hpasses : Passes ws) (hnests : Nests ws)
    (ht : words t = words s ++ ws) : Coheres t := by
  constructor <;> rw [ht]
  · exact h.begins.append hpasses
  · exact h.passes.append hpasses
  · exact h.nests.append hnests

/-- Ordinary words behind such a text go on with it. -/
theorem append (h : Coheres s) (ht : BreaksBefore parens t) (hws : ∀ w ∈ words t, IsOrdinary w) :
    Coheres (s ++ t) :=
  h.of_append (passes_of_ordinary hws) (nests_of_ordinary hws) (ht.words_append s)

/-- Words in parentheses behind such a text belong to it. -/
theorem parens {inner : List Word} (h : Coheres s) (hinner : Nests inner)
    (ht : words t = words s ++ (['('] :: inner ++ [[')']])) : Coheres t :=
  h.of_append hinner.passes hinner.parens ht

end Coheres

namespace Sql

section Columns

variable {c : ColumnRef}

theorem ColumnRef.isOrdinary_written (h : IsName c.column) : IsOrdinary c.written.toList := by
  refine isOrdinary_of_plain (isPlain_written h) ?_
  rw [written]
  split
  · exact not_mem_connectives (c := '.') (by simp) (by decide)
  · exact h.not_mem_connectives

theorem ColumnRef.coheres_written (h : IsName c.column) : Coheres c.written := by
  have hwords := words_of_plain (written_ne_nil h) (isPlain_written h)
  refine .of_ordinary ?_ ?_
  · rw [hwords]
    exact List.cons_ne_nil _ _
  · rw [hwords]
    exact List.forall_mem_singleton.2 (isOrdinary_written h)

end Columns

/-- The head of a value is a call, whose arguments belong to it. -/
theorem coheres_substr {value : String} (hvalue : Nests (words value)) (n : Nat) :
    Coheres ("substr(" ++ value ++ " 1, " ++ toString n ++ ")") := by
  have hsubstr : Coheres "substr" := .of_ordinary (by decide) (by decide)
  have hone : Nests (words " 1, ") := nests_of_unparenthesized (by decide)
  have hopen : BreaksAfter parens "substr(" := by decide
  have hclose : BreaksBefore parens ")" := by decide
  have hcall : words "substr(" = words "substr" ++ [['(']] := by decide
  have hend : words ")" = [[')']] := by decide
  refine hsubstr.parens ((hvalue.append hone).append (nests_of_plain (isPlain_toString_nat n))) ?_
  rw [hclose.words_append, words_around (by decide) (by decide), hopen.words_append, hcall, hend]
  simp only [List.append_assoc, List.cons_append, List.nil_append]

theorem Term.coheres_written {t : Term} (h : ∀ c ∈ t.columns, IsName c.column) :
    Coheres t.written := by
  cases t with
  | column c => exact ColumnRef.coheres_written (h c List.mem_cons_self)
  | columnHead n c =>
    have hcolumn := ColumnRef.isPlain_written (h c List.mem_cons_self)
    have hplain : (c.written ++ "::text,").toList.all isPlain := by
      rw [String.toList_append, List.all_append, hcolumn]
      decide
    have hcall := coheres_substr (nests_of_plain hplain) n
    have htext : "::text, 1, " = "::text," ++ " 1, " := by decide
    rw [written, htext]
    simp only [String.append_assoc] at hcall ⊢
    exact hcall
  | param p =>
    have hmark : Coheres "?" := .of_ordinary (by decide) (by decide)
    exact hmark
  | paramHead n p =>
    have hmark : Nests (words "?,") := nests_of_unparenthesized (by decide)
    have hcall := coheres_substr hmark n
    have htext : "substr(?, 1, " = "substr(" ++ "?," ++ " 1, " := by decide
    rw [written, htext]
    exact hcall

theorem Relation.isOrdinary_sign (r : Relation) : ∀ w ∈ words r.sign, IsOrdinary w := by
  cases r <;> decide

/-! ## Conditions -/

namespace Condition

/-- The tree of a condition: conjunctions and disjunctions have parentheses of their own, and
anything else is one operand. -/
def formula : Condition → Formula Atom
  | both a b => .both a.formula b.formula
  | either a b => .either a.formula b.formula
  | k => .leaf (words k.written)

/-- The marks of a condition. -/
def marks : Condition → List (Mark Atom)
  | both a b => .openParen :: (a.marks ++ .and :: b.marks) ++ [.closeParen]
  | either a b => .openParen :: (a.marks ++ .or :: b.marks) ++ [.closeParen]
  | k => [.leaf (words k.written)]

theorem spells_marks (k : Condition) : Formula.Spells .operand k.marks k.formula := by
  induction k with
  | both a b iha ihb => exact .paren (.only (.and (.one iha) ihb))
  | either a b iha ihb => exact .paren (.or (.only (.one iha)) (.one ihb))
  | compare l r t => exact .leaf _
  | isNull c | isNotNull c | always | never => exact .leaf _
  | noneOf c column t a b _ _ => exact .leaf _

/-- Whether the words of a condition are taken as its marks wherever they stand, and as words of an
operand in whose parentheses they stand. -/
structure StandsAlone (k : Condition) : Prop where
  nests : Nests (words k.written)
  takes : Takes (words k.written) k.marks

theorem StandsAlone.of_coheres {k : Condition} (h : Coheres k.written)
    (hk : k.marks = [.leaf (words k.written)]) : k.StandsAlone := by
  refine ⟨h.nests, ?_⟩
  rw [hk]
  exact h.begins.takes

theorem coheres_compare {l t : Term} (r : Relation) (hl : ∀ c ∈ l.columns, IsName c.column)
    (ht : ∀ c ∈ t.columns, IsName c.column) : Coheres (compare l r t).written := by
  have hsign := r.isOrdinary_sign
  have hright := Term.coheres_written ht
  refine (Term.coheres_written hl).of_append ((passes_of_ordinary hsign).append hright.passes)
    ((nests_of_ordinary hsign).append hright.nests) ?_
  rw [written, words_around_blank, words_around_blank, List.append_assoc]

/-- A sub-select is in parentheses behind its column, so it belongs to the same operand. -/
theorem coheres_noneOf {c : ColumnRef} {column : String} {t : Table} {a b : Condition}
    (hc : IsName c.column) (hcolumn : IsName column) (ha : a.StandsAlone) (hb : b.StandsAlone) :
    Coheres (noneOf c column t a b).written := by
  have hnotIn := (ColumnRef.coheres_written hc).append (t := " not in") (by decide) (by decide)
  have hwords : Nests (words "select") ∧ Nests (words " from ") ∧ Nests (words " where ") ∧
      Nests (words " and ") := by
    refine ⟨?_, ?_, ?_, ?_⟩ <;> exact nests_of_unparenthesized (by decide)
  have hsource : Nests (words "select" ++ words column ++ words " from " ++ words t.name) :=
    ((hwords.1.append (nests_of_plain hcolumn.isPlain)).append hwords.2.1).append
      (nests_of_plain t.isPlain_name)
  have hinner := (((hsource.append hwords.2.2.1).append ha.nests).append hwords.2.2.2).append
    hb.nests
  have hselect : words " not in (select " = words " not in" ++ ['('] :: words "select" := by decide
  have hend : words ")" = [[')']] := by decide
  have hclose : BreaksBefore parens ")" := by decide
  have hfront : BreaksBefore parens " not in" := by decide
  refine hnotIn.parens hinner ?_
  rw [written, hclose.words_append, words_around (by decide) (by decide),
    words_around (by decide) (by decide), words_around (by decide) (by decide),
    words_around (by decide) (by decide), hfront.words_append, hselect, hend]
  simp only [List.append_assoc, List.cons_append]

/-- Two conditions with a connective between them, all in parentheses. -/
theorem standsAlone_combined {a b k : Condition} (ha : a.StandsAlone) (hb : b.StandsAlone)
    {w : Word} {m : Mark Atom} {text : String} (hbefore : BreaksBefore parens text)
    (hafter : BreaksAfter parens text) (htext : words text = [w]) (hparen : w ≠ ['('] ∧ w ≠ [')'])
    (hw : connective? w = some m)
    (hwritten : k.written = "(" ++ a.written ++ text ++ b.written ++ ")")
    (hmarks : k.marks = .openParen :: (a.marks ++ m :: b.marks) ++ [.closeParen]) :
    k.StandsAlone := by
  have hopen : BreaksAfter parens "(" := by decide
  have hclose : BreaksBefore parens ")" := by decide
  have hparens : words "(" = [['(']] ∧ words ")" = [[')']] := by decide
  have hwords : words k.written =
      ['('] :: (words a.written ++ w :: words b.written) ++ [[')']] := by
    rw [hwritten, hclose.words_append, words_around hbefore hafter, hopen.words_append, htext,
      hparens.1, hparens.2]
    simp only [List.append_assoc, List.cons_append, List.nil_append]
  have hword : Nests [w] := nests_of_unparenthesized (List.forall_mem_singleton.2 hparen)
  constructor
  · rw [hwords]
    exact (ha.nests.append (hword.append hb.nests)).parens
  · rw [hwords, hmarks]
    exact (ha.takes.connect hb.takes hw).parens

/-- Conditions stand by themselves in any text, whatever they compare. -/
theorem standsAlone {k : Condition} (h : k.NamesPlainly) : k.StandsAlone := by
  induction k with
  | compare l r t =>
    refine .of_coheres (coheres_compare r (fun c hc => ?_) fun c hc => ?_) rfl
    · exact h c (List.mem_append_left _ hc)
    · exact h c (List.mem_append_right _ hc)
  | isNull c =>
    exact .of_coheres ((ColumnRef.coheres_written h).append (by decide) (by decide)) rfl
  | isNotNull c =>
    exact .of_coheres ((ColumnRef.coheres_written h).append (by decide) (by decide)) rfl
  | always => exact .of_coheres (.of_ordinary (by decide) (by decide)) rfl
  | never => exact .of_coheres (.of_ordinary (by decide) (by decide)) rfl
  | both a b iha ihb =>
    have hand : words " and " = ["and".toList] := by decide
    exact standsAlone_combined (iha h.1) (ihb h.2) (by decide) (by decide) hand (by decide)
      (by decide) rfl rfl
  | either a b iha ihb =>
    have hor : words " or " = ["or".toList] := by decide
    exact standsAlone_combined (iha h.1) (ihb h.2) (by decide) (by decide) hor (by decide)
      (by decide) rfl rfl
  | noneOf c column t a b iha ihb =>
    obtain ⟨hc, hcolumn, ha, hb⟩ := h
    exact .of_coheres (coheres_noneOf hc hcolumn (iha ha) (ihb hb)) rfl

/-- The text of a condition is read as its tree. -/
theorem reads {k : Condition} (h : k.NamesPlainly) : Reads .operand k.written k.formula :=
  (standsAlone h).takes.reads k.spells_marks

end Condition

/-! ## Clauses -/

/-- The mark of a piece. -/
def Piece.mark : Piece → Mark Condition
  | condition k => .leaf k
  | and => .and
  | or => .or
  | openParen => .openParen
  | closeParen => .closeParen

/-- The words of the piece with a mark. -/
def markWords : Mark Condition → List Word
  | .leaf k => words k.written
  | .and => ["and".toList]
  | .or => ["or".toList]
  | .openParen => [['(']]
  | .closeParen => [[')']]

theorem Piece.words_written (p : Piece) : words p.written = markWords p.mark := by
  cases p with
  | condition k => rfl
  | and | or | openParen | closeParen => decide

/-- The words of a clause are those of its pieces. -/
theorem Selection.words_conditionText (s : Selection) :
    words s.conditionText = (s.condition.map Piece.mark).flatMap markWords := by
  rw [conditionText, words_intercalate, List.flatMap_map, List.flatMap_map]
  exact congrArg (s.condition.flatMap ·) (funext Piece.words_written)

/-- The words of a clause are taken together as its pieces are. -/
theorem takes_words {r : Rank} {ms : List (Mark Condition)} {f : Formula Condition}
    (h : Formula.Spells r ms f) (hf : ∀ k ∈ f.leaves, k.NamesPlainly) :
    Takes (ms.flatMap markWords) (ms.flatMap (Mark.bind Condition.marks)) := by
  induction h with
  | leaf k =>
    rw [List.flatMap_singleton, List.flatMap_singleton]
    exact (Condition.standsAlone (hf k List.mem_cons_self)).takes
  | paren _ ih =>
    simp only [List.cons_append, List.flatMap_cons, List.flatMap_append, List.flatMap_nil,
      List.append_nil]
    exact (ih hf).parens
  | one _ ih => exact ih hf
  | and _ _ ih ih' =>
    simp only [List.flatMap_append, List.flatMap_cons]
    exact (ih fun k hk => hf k (List.mem_append_left _ hk)).connect
      (ih' fun k hk => hf k (List.mem_append_right _ hk)) (by decide)
  | only _ ih => exact ih hf
  | or _ _ ih ih' =>
    simp only [List.flatMap_append, List.flatMap_cons]
    exact (ih fun k hk => hf k (List.mem_append_left _ hk)).connect
      (ih' fun k hk => hf k (List.mem_append_right _ hk)) (by decide)

/-- A clause is read as the tree of its pieces, with the tree of each condition in its place. -/
theorem Selection.reads_conditionText {s : Selection} (hs : s.Named) {f : Formula Condition}
    (hf : Formula.Spells .disjunction (s.condition.map Piece.mark) f) :
    Reads .disjunction s.conditionText (f.bind Condition.formula) := by
  have hnames : ∀ k ∈ f.leaves, k.NamesPlainly := by
    intro k hk
    rw [hf.leaves_eq, List.filterMap_map] at hk
    obtain ⟨p, hp, hleaf⟩ := List.mem_filterMap.1 hk
    cases p with
    | condition k' =>
      cases hleaf
      exact hs.conditions k hp
    | and | or | openParen | closeParen => cases hleaf
  have htakes := takes_words hf hnames
  rw [← words_conditionText] at htakes
  exact htakes.reads (hf.bind fun k _ => k.spells_marks)

/-- An element and the piece that comes of it have the same mark but for the operands. -/
theorem Piece.ComesOf.exists_mark {e : Element} {p : Piece} (h : Piece.ComesOf e p) :
    ∃ m : Mark (Criterion × Condition), m.map Prod.fst = e.mark ∧ m.map Prod.snd = p.mark ∧
      ∀ l ∈ m.leaf?, ∃ o owner, l.1.render o owner = .ok l.2 := by
  cases h with
  | @condition c o owner k hk =>
    refine ⟨.leaf (c, k), rfl, rfl, fun l hl => ?_⟩
    cases hl
    exact ⟨o, owner, hk⟩
  | and => exact ⟨.and, rfl, rfl, fun l hl => by cases hl⟩
  | or => exact ⟨.or, rfl, rfl, fun l hl => by cases hl⟩
  | openParen => exact ⟨.openParen, rfl, rfl, fun l hl => by cases hl⟩
  | closeParen => exact ⟨.closeParen, rfl, rfl, fun l hl => by cases hl⟩

theorem exists_marks {es : List Element} {ps : List Piece}
    (h : List.Forall₂ Piece.ComesOf es ps) :
    ∃ ms : List (Mark (Criterion × Condition)), ms.map (Mark.map Prod.fst) = es.map Element.mark ∧
      ms.map (Mark.map Prod.snd) = ps.map Piece.mark ∧
      ∀ l ∈ ms.filterMap Mark.leaf?, ∃ o owner, l.1.render o owner = .ok l.2 := by
  induction h with
  | nil => exact ⟨[], rfl, rfl, fun l hl => by cases hl⟩
  | @cons e p es ps hfirst _ ih =>
    obtain ⟨m, hfst, hsnd, hm⟩ := hfirst.exists_mark
    obtain ⟨ms, hcriteria, hconditions, hms⟩ := ih
    refine ⟨m :: ms, ?_, ?_, fun l hl => ?_⟩
    · rw [List.map_cons, List.map_cons, hfst, hcriteria]
    · rw [List.map_cons, List.map_cons, hsnd, hconditions]
    · obtain ⟨m', hm', hleaf⟩ := List.mem_filterMap.1 hl
      rcases List.mem_cons.1 hm' with rfl | hm'
      · exact hm l hleaf
      · exact hms l (List.mem_filterMap.2 ⟨m', hm', hleaf⟩)

end Sql

open Sql

/-- The condition of a statement, read as a text, is the tree of its query's elements, with the tree
of each criterion's own condition in place of the criterion. Each condition is an operand by itself,
so no connective in it is taken together with one beside it. -/
theorem formula_toStatement {q : Query} {d : Dialect} {st : Sql.Statement}
    (h : q.toStatement d = .ok st) (hwell : q.checkElements = .ok ()) :
    ∃ sel, Selection.ofQuery q = .ok sel ∧ Framed sel.whereText st.sql ∧
      (q.elements = [] ∧ sel.whereText = "" ∨
        ∃ tree : Formula (Criterion × Condition),
          (∀ f, Formula.Spells .disjunction (q.elements.map Element.mark) f ↔
            f = tree.map Prod.fst) ∧
          (∀ f, Formula.Spells .disjunction (sel.condition.map Piece.mark) f ↔
            f = tree.map Prod.snd) ∧
          (∀ l ∈ tree.leaves, (∃ o owner, l.1.render o owner = .ok l.2) ∧
            Reads .operand l.2.written l.2.formula) ∧
          sel.whereText = " where " ++ sel.conditionText ∧
          ∀ g, Reads .disjunction sel.conditionText g ↔
            g = (tree.map Prod.snd).bind Condition.formula) := by
  obtain ⟨sel, hsel, hnamed, -, hframed⟩ := Selection.framed_of_toStatement h
  have hpieces := Selection.comesOf_ofQuery hsel
  refine ⟨sel, hsel, hframed, ?_⟩
  rcases (Query.checkElements_eq_ok_iff q).1 hwell with hnil | hrun
  · rw [hnil] at hpieces
    refine .inl ⟨hnil, ?_⟩
    rw [Selection.whereText, List.forall₂_nil_left_iff.1 hpieces, if_pos rfl]
  right
  -- Elements and pieces have the same connectives and parentheses around different operands. So
  -- they spell the two projections of one tree of pairs.
  obtain ⟨ms, hcriteria, hconditions, hrendered⟩ := exists_marks hpieces
  obtain ⟨f, hf⟩ := Formula.exists_spells_of_run hrun
  rw [← hcriteria] at hf
  obtain ⟨tree, htree, rfl⟩ := hf.of_map
  have hsnd := htree.map Prod.snd
  rw [hconditions] at hsnd
  rw [hcriteria] at hf
  have hreads := Selection.reads_conditionText hnamed hsnd
  refine ⟨tree, fun f => ⟨fun hf' => hf'.unique hf, fun heq => heq ▸ hf⟩,
    fun f => ⟨fun hf' => hf'.unique hsnd, fun heq => heq ▸ hsnd⟩, fun l hl => ?_, ?_,
    fun g => ⟨fun hg => hg.unique hreads, fun heq => heq ▸ hreads⟩⟩
  · rw [htree.leaves_eq] at hl
    obtain ⟨o, owner, hrender⟩ := hrendered l hl
    exact ⟨⟨o, owner, hrender⟩, Condition.reads (Criterion.becomes_render hrender).namesPlainly⟩
  · have hne : sel.condition ≠ [] := by
      intro hnil
      rw [hnil] at hpieces
      rw [List.forall₂_nil_right_iff.1 hpieces] at hrun
      cases hrun
    rw [Selection.whereText, if_neg hne]

/-- Items of others than the administrator, or under a license and not in quarantine. -/
def Query.foreignOrLicensed : Query where
  domain := .items
  resultFields := [.main .itemName .items]
  elements := [
    .criterion (.simple [.items] .itemCreatedBy (.plain .nodes) .notEquals (.text "admin")),
    .or,
    .criterion (.property [.items, .properties] "license" ⟨.nodeProps, firstDynamicId⟩ .equals
      (.text "MIT")),
    .and,
    .criterion (.property [.items, .properties] "quarantined" ⟨.nodeProps, firstDynamicId + 1⟩
      .notEquals (.text "true"))]

theorem formula_foreignOrLicensed :
    ∃ st sel, Query.foreignOrLicensed.toStatement .oracle = .ok st ∧
      Query.foreignOrLicensed.checkElements = .ok () ∧
      Selection.ofQuery .foreignOrLicensed = .ok sel ∧
      Reads .disjunction sel.conditionText
        (.either
          (.either (.leaf (words "n.created_by != ?")) (.leaf (words "n.created_by is null")))
          (.both
            (.both (.leaf (words "np100.prop_key = ?")) (.leaf (words "np100.prop_value = ?")))
            (.leaf (words ("n.node_id not in (select node_id from node_props where " ++
              "prop_key = ? and prop_value = ?)"))))) := by
  obtain ⟨st, hst⟩ : ∃ st, Query.foreignOrLicensed.toStatement .oracle = .ok st := ⟨_, rfl⟩
  obtain ⟨sel, hsel, -, hnil | ⟨tree, -, hconditions, -, -, hreads⟩⟩ :=
    formula_toStatement hst rfl
  · cases hnil.1
  refine ⟨st, sel, hst, rfl, hsel, (hreads _).2 ?_⟩
  cases hsel
  have htree := (hconditions _).1
    (.or (.only (.one (.leaf _))) (.and (.one (.leaf _)) (.leaf _)))
  rw [← htree]
  rfl

end ArtifactQuery
