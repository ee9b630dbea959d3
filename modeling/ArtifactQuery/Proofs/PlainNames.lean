import ArtifactQuery.Proofs.ConditionForms

/-!
# Names in statements

The names of a statement are the schema's own, with numbers behind some of them: tables, columns and
aliases. None of them holds a blank, a parenthesis or a question mark, so none is taken for anything
else in the text.

* `isPlain`, `isNamePart`: the characters of words, and those of single names.
* `IsName`: a single name that is no keyword.
* `Table.Owns.isName`, `Occurrence.isNamePart_name`: columns and occurrences have such names.
* `Unmarked`: texts without question marks.
* `Criterion.Becomes.namesPlainly`: the condition of a criterion, whatever it reads, names columns
  of the schema.
* `Selection.Named`, `named_ofQuery`: the names of a selection, whichever query it is made for.
-/

namespace ArtifactQuery

/-! ## Names -/

/-- Whether a character may stand in a word: blanks, parentheses and question marks do not. -/
def isPlain (c : Char) : Bool := !isBlank c && c ∉ ['(', ')', '?']

/-- Whether a character may stand in a single name: dots, commas and colons do not either. -/
def isNamePart (c : Char) : Bool := isPlain c && c ∉ ['.', ',', ':']

/-- The connectives of a condition, in small letters. -/
def connectives : List (List Char) := ["and".toList, "or".toList]

/-- The words that stand between conditions or behind them, in small letters. -/
def keywords : List (List Char) :=
  connectives ++
    ["order".toList, "offset".toList, "limit".toList, "inner_query".toList, "aa".toList]

/-- Whether a text is a single name that is no keyword. -/
def IsName (s : String) : Prop :=
  s.toList ≠ [] ∧ s.toList.all isNamePart ∧ s.toList.map Char.toLower ∉ keywords

instance (s : String) : Decidable (IsName s) := inferInstanceAs (Decidable (_ ∧ _ ∧ _))

theorem isPlain_iff {c : Char} :
    isPlain c = true ↔ isBlank c = false ∧ c ≠ '(' ∧ c ≠ ')' ∧ c ≠ '?' := by
  simp [isPlain]

theorem all_isPlain_of_isNamePart {cs : List Char} (h : cs.all isNamePart) : cs.all isPlain :=
  List.all_eq_true.2 fun c hc => (Bool.and_eq_true_iff.1 (List.all_eq_true.1 h c hc)).1

theorem IsName.isPlain {s : String} (h : IsName s) : s.toList.all isPlain :=
  all_isPlain_of_isNamePart h.2.1

theorem IsName.not_mem_connectives {s : String} (h : IsName s) :
    s.toList.map Char.toLower ∉ connectives :=
  fun hmem => h.2.2 (List.mem_append_left _ hmem)

theorem isNamePart_of_isDigit {c : Char} (h : c.isDigit) : isNamePart c := by
  have hmarks : ['(', ')', '?', '.', ',', ':'].all (! Char.isDigit ·) := by decide
  have hnot : c ∉ ['(', ')', '?', '.', ',', ':'] := fun hmem => by
    have hmark := List.all_eq_true.1 hmarks c hmem
    rw [h] at hmark
    cases hmark
  have hblank := isBlank_of_isDigit h
  simp only [List.mem_cons, List.not_mem_nil, or_false, not_or] at hnot
  simp [isNamePart, ArtifactQuery.isPlain, hblank, hnot]

theorem Table.isNamePart_name (t : Table) : t.name.toList.all isNamePart := by
  cases t <;> decide +kernel

theorem Table.isPlain_name (t : Table) : t.name.toList.all isPlain :=
  all_isPlain_of_isNamePart t.isNamePart_name

theorem Table.isNamePart_aliasStem (t : Table) : t.aliasStem.toList.all isNamePart := by
  cases t <;> decide +kernel

theorem Field.isName_column (f : Field) : IsName f.column.column := by
  cases f <;> decide +kernel

theorem Field.isNamePart_label (f : Field) :
    f.column.label.toList ≠ [] ∧ f.column.label.toList.all isNamePart := by
  cases f <;> decide +kernel

/-- Columns of the schema have names. -/
theorem Table.Owns.isName {t : Table} {column : String} (h : t.Owns column) : IsName column := by
  have hlinks : ∀ l ∈ Link.all, IsName l.firstColumn ∧ IsName l.secondColumn := by decide +kernel
  rcases h with ⟨f, -, rfl⟩ | ⟨l, hl, ⟨-, rfl⟩ | ⟨-, rfl⟩⟩
  · exact f.isName_column
  · exact (hlinks l hl).1
  · exact (hlinks l hl).2

theorem Occurrence.isNamePart_name (o : Occurrence) : o.name.toList.all isNamePart := by
  have hdigits : o.digits.all isNamePart := by
    rw [digits]
    split
    · rfl
    · exact List.all_eq_true.2 fun c hc =>
        isNamePart_of_isDigit (Nat.isDigit_of_mem_toDigits (by decide) (by decide) hc)
  rw [toList_name, List.all_append, o.table.isNamePart_aliasStem, hdigits]
  rfl

theorem Occurrence.isPlain_name (o : Occurrence) : o.name.toList.all isPlain :=
  all_isPlain_of_isNamePart o.isNamePart_name

/-! ## Texts without question marks -/

/-- Whether a text has no place of a parameter. -/
def Unmarked (s : String) : Prop := '?' ∉ s.toList

instance (s : String) : Decidable (Unmarked s) := inferInstanceAs (Decidable (¬ _))

@[simp] theorem unmarked_append {s t : String} : Unmarked (s ++ t) ↔ Unmarked s ∧ Unmarked t := by
  simp [Unmarked]

theorem unmarked_of_isPlain {s : String} (h : s.toList.all isPlain) : Unmarked s := by
  intro hmem
  exact (isPlain_iff.1 (List.all_eq_true.1 h _ hmem)).2.2.2 rfl

theorem Table.unmarked_name (t : Table) : Unmarked t.name := unmarked_of_isPlain t.isPlain_name

theorem Occurrence.unmarked_name (o : Occurrence) : Unmarked o.name :=
  unmarked_of_isPlain o.isPlain_name

theorem IsName.unmarked {s : String} (h : IsName s) : Unmarked s := unmarked_of_isPlain h.isPlain

theorem isNamePart_toString_nat (n : Nat) : (toString n).toList.all isNamePart := by
  refine List.all_eq_true.2 fun c hc => ?_
  rw [Nat.toString_eq_repr, Nat.repr_eq_ofList_toDigits, String.toList_ofList] at hc
  exact isNamePart_of_isDigit (Nat.isDigit_of_mem_toDigits (by decide) (by decide) hc)

theorem isPlain_toString_nat (n : Nat) : (toString n).toList.all isPlain :=
  all_isPlain_of_isNamePart (isNamePart_toString_nat n)

theorem unmarked_toString_nat (n : Nat) : Unmarked (toString n) :=
  unmarked_of_isPlain (isPlain_toString_nat n)

theorem unmarked_toString_int (n : Int) : Unmarked (toString n) := by
  cases n with
  | ofNat n => exact unmarked_toString_nat n
  | negSucc n => exact unmarked_append.2 ⟨by decide, unmarked_toString_nat (n + 1)⟩

theorem unmarked_intercalate {sep : String} {ss : List String} (hsep : Unmarked sep)
    (h : ∀ s ∈ ss, Unmarked s) : Unmarked (sep.intercalate ss) := by
  induction ss with
  | nil => simp [Unmarked]
  | cons s ss ih =>
    obtain ⟨hs, hss⟩ := List.forall_mem_cons.1 h
    cases ss with
    | nil => rwa [String.intercalate_singleton]
    | cons s' ss =>
      rw [String.intercalate_cons_cons]
      exact unmarked_append.2 ⟨unmarked_append.2 ⟨hs, hsep⟩, ih hss⟩

theorem unmarked_trim {s : String} (h : Unmarked s) : Unmarked (trim s) := by
  intro hmem
  rw [trim, String.toList_ofList] at hmem
  exact h (mem_trimChars hmem)

theorem tightStart_of_isPlain {s : String} (hne : s.toList ≠ []) (h : s.toList.all isPlain) :
    TightStart s := by
  obtain ⟨c, cs, hcs⟩ := List.exists_cons_of_ne_nil hne
  rw [TightStart, hcs, List.head?_cons, Option.any_some, Bool.not_eq_true']
  exact (isPlain_iff.1 (List.all_eq_true.1 h c (hcs ▸ List.mem_cons_self))).1

theorem tightEnd_of_isPlain {s : String} (hne : s.toList ≠ []) (h : s.toList.all isPlain) :
    TightEnd s := by
  rw [TightEnd, List.getLast?_eq_some_getLast hne, Option.any_some, Bool.not_eq_true']
  exact (isPlain_iff.1 (List.all_eq_true.1 h _ (List.getLast_mem hne))).1

/-! ## Names in conditions -/

namespace Sql

theorem isPlain_written_column {o : Occurrence} {column : String} (h : IsName column) :
    (o.name ++ "." ++ column).toList.all isPlain := by
  rw [String.toList_append, String.toList_append, List.all_append, List.all_append,
    o.isPlain_name, h.isPlain]
  decide

/-- The text of a column is one word, with its occurrence in front or without it. -/
theorem ColumnRef.isPlain_written {c : ColumnRef} (h : IsName c.column) :
    c.written.toList.all isPlain := by
  rw [written]
  split
  · exact isPlain_written_column h
  · exact h.isPlain

theorem ColumnRef.written_ne_nil {c : ColumnRef} (h : IsName c.column) :
    c.written.toList ≠ [] := by
  rw [written]
  split
  · simp
  · exact h.1

/-- Whether the columns of a condition have names. -/
def Condition.NamesPlainly : Condition → Prop
  | compare l _ t => ∀ c ∈ l.columns ++ t.columns, IsName c.column
  | isNull c | isNotNull c => IsName c.column
  | always | never => True
  | both a b | either a b => a.NamesPlainly ∧ b.NamesPlainly
  | noneOf c column _ a b =>
    IsName c.column ∧ IsName column ∧ a.NamesPlainly ∧ b.NamesPlainly

theorem Comparison.Becomes.namesPlainly {c : Comparison} {k : Condition} (h : c.Becomes k)
    (hc : IsName c.column.column) : k.NamesPlainly := by
  have hcolumn : c.columnTerm.columns = [c.column] := by
    rw [columnTerm]
    split <;> rfl
  have hparam : ∀ p, (c.paramTerm p).columns = [] := fun p => by
    rw [paramTerm]
    split <;> rfl
  have htest : ∀ r p, (Condition.compare c.columnTerm r (c.paramTerm p)).NamesPlainly := by
    intro r p ref href
    rw [hcolumn, hparam, List.append_nil, List.mem_singleton] at href
    rwa [href]
  cases h with
  | isNull _ _ => exact hc
  | isNotNull _ _ => exact hc
  | always _ _ => exact trivial
  | never _ _ => exact trivial
  | test _ _ => exact htest _ _
  | testOrNull _ _ _ _ => exact ⟨htest _ _, hc⟩

end Sql

open Sql in
/-- The condition of a criterion names columns of the schema. -/
theorem Criterion.Becomes.namesPlainly {c : Criterion} {o : Occurrence} {k : Condition}
    (h : c.Becomes o k) : k.NamesPlainly := by
  have hkey : ∀ t key, (keyTest ⟨t, "prop_key"⟩ key).NamesPlainly := by
    intro t key ref href
    rw [List.mem_singleton.1 href]
    exact Field.propertyKey.isName_column
  have hvalue : IsName "prop_value" := Field.propertyValue.isName_column
  cases h with
  | values _ _ _ _ _ =>
    intro ref href
    cases href
  | field _ _ _ hk => exact hk.namesPlainly (Field.isName_column _)
  | hasProperty _ _ _ hk => exact ⟨hkey _ _, hk.namesPlainly hvalue⟩
  | lacksProperty _ _ _ hcolumns hk =>
    obtain ⟨hown, hown'⟩ := owns_of_ownerColumns hcolumns
    exact ⟨hown.isName, hown'.isName, hkey _ _, hk.namesPlainly hvalue⟩

/-! ## Names in joins and items -/

namespace Sql

namespace JoinPlan

variable {p p' : JoinPlan}

/-- Whether the columns on which a plan joins have names. -/
def NamesPlainly (p : JoinPlan) : Prop := ∀ j ∈ p.joins, IsName j.column ∧ IsName j.ontoColumn

theorem namesPlainly_join {a b : Occurrence} (hp : p.NamesPlainly) (h : p.join a b = .ok p') :
    p'.NamesPlainly := by
  rcases join_eq_ok h with ⟨-, rfl⟩ | ⟨-, c, hc, rfl⟩
  · exact hp
  · obtain ⟨hown, hown'⟩ := Table.owns_of_link? hc
    intro j hj
    rcases List.mem_append.1 hj with hj | hj
    · exact hp j hj
    · rw [List.mem_singleton.1 hj]
      exact ⟨hown'.isName, hown.isName⟩

theorem namesPlainly_ownFrom {id : Nat} {ts : List Table} {z : Occurrence} :
    ∀ {p : JoinPlan} {a : Occurrence}, p.NamesPlainly → p.ownFrom id a ts = .ok (z, p') →
      p'.NamesPlainly := by
  induction ts with
  | nil =>
    intro p a hp h
    cases h
    exact hp
  | cons t ts ih =>
    intro p a hp h
    rw [ownFrom] at h
    obtain ⟨p₁, hjoin, h⟩ := bind_eq_ok.1 h
    exact ih (namesPlainly_join hp hjoin) h

theorem namesPlainly_sharedFrom {ts : List Table} {z : Occurrence} :
    ∀ {p : JoinPlan} {a : Occurrence} {done : List Table}, p.NamesPlainly →
      p.sharedFrom a done ts = .ok (z, p') → p'.NamesPlainly := by
  induction ts with
  | nil =>
    intro p a done hp h
    cases h
    exact hp
  | cons t ts ih =>
    intro p a done hp h
    rw [sharedFrom] at h
    dsimp only at h
    split at h
    · exact ih hp h
    · obtain ⟨⟨o, p₁⟩, hnew, h⟩ := bind_eq_ok.1 h
      obtain ⟨p₂, hjoin, h⟩ := bind_eq_ok.1 h
      obtain ⟨-, -, n, rfl⟩ := newShared_eq_ok hnew
      have hp₁ : NamesPlainly { p with numbered := n } := hp
      have hp₂ : p₂.NamesPlainly := namesPlainly_join hp₁ hjoin
      have hp₃ : NamesPlainly { p₂ with chains := p₂.chains ++ [(done ++ [t], o)] } := hp₂
      exact ih hp₃ h

theorem namesPlainly_forCriterion {c : Criterion} {r : Reading} (hp : p.NamesPlainly)
    (h : p.forCriterion c = .ok (r, p')) : p'.NamesPlainly := by
  rw [forCriterion] at h
  split at h
  · cases h
    exact hp
  dsimp only at h
  split at h
  · cases h
    exact hp
  rw [alongChain] at h
  split at h
  · obtain ⟨⟨z, p₁⟩, hshared, h⟩ := map_eq_ok.1 h
    cases h
    exact namesPlainly_sharedFrom hp hshared
  split at h
  · obtain ⟨⟨z, p₁⟩, hown, h⟩ := map_eq_ok.1 h
    cases h
    exact namesPlainly_ownFrom hp hown
  · obtain ⟨⟨z, p₁⟩, hown, h⟩ := map_eq_ok.1 h
    cases h
    exact namesPlainly_ownFrom hp hown

end JoinPlan

/-- The name of a column is a single name, like the label that it starts with. -/
theorem freshName_append (used : List String) (label : String) :
    ∃ digits : String, digits.toList.all isNamePart ∧ freshName used label = label ++ digits := by
  rw [freshName]
  cases hfound : List.find? _ _ with
  | none => exact ⟨"", rfl, String.append_empty.symm⟩
  | some name =>
    -- The label itself, or the label with a number behind it.
    rcases List.mem_cons.1 (List.mem_of_find?_eq_some hfound) with rfl | hname
    · exact ⟨"", rfl, String.append_empty.symm⟩
    · obtain ⟨n, -, rfl⟩ := List.mem_map.1 hname
      exact ⟨toString (n + 2), isNamePart_toString_nat (n + 2), rfl⟩

/-- Whether an item reads the column that its field is stored in, and is named after it. -/
structure SelectItem.Listed (i : SelectItem) : Prop where
  reads : i.reads = i.column.field.field.column.column
  name : ∃ used, i.column.name = freshName used i.column.field.field.column.label

theorem SelectItem.Listed.isNamePart_name {i : SelectItem} (h : i.Listed) :
    i.column.name.toList ≠ [] ∧ i.column.name.toList.all isNamePart := by
  obtain ⟨used, hname⟩ := h.name
  obtain ⟨digits, hdigits, htext⟩ := freshName_append used i.column.field.field.column.label
  obtain ⟨hne, hlabel⟩ := i.column.field.field.isNamePart_label
  rw [hname, htext, String.toList_append, List.all_append, hlabel, hdigits]
  exact ⟨List.append_ne_nil_of_left_ne_nil hne _, rfl⟩

theorem SelectItem.Listed.unmarked_name {i : SelectItem} (h : i.Listed) :
    Unmarked i.column.name :=
  unmarked_of_isPlain (all_isPlain_of_isNamePart h.isNamePart_name.2)

namespace Selection

/-- Whether the items of a selection read their fields, the columns that it names elsewhere have
names, and its order names items. -/
structure Named (s : Selection) : Prop where
  items : ∀ i ∈ s.items, i.Listed
  joins : s.joins.NamesPlainly
  conditions : ∀ k, .condition k ∈ s.condition → k.NamesPlainly
  order : ∀ t ∈ s.order, ∃ i ∈ s.items, t.1 = i.column.name

theorem named_addItems {fs : List ResultField} {p' : JoinPlan} {items' : List SelectItem} :
    ∀ {p : JoinPlan} {items : List SelectItem}, p.NamesPlainly →
      (∀ i ∈ items, i.Listed) → addItems p items fs = .ok (items', p') →
      p'.NamesPlainly ∧ ∀ i ∈ items', i.Listed := by
  induction fs with
  | nil =>
    intro p items hp hitems h
    cases h
    exact ⟨hp, hitems⟩
  | cons f fs ih =>
    intro p items hp hitems h
    rw [addItems] at h
    obtain ⟨⟨o, p₁⟩, hfield, h⟩ := bind_eq_ok.1 h
    refine ih (JoinPlan.namesPlainly_sharedFrom hp hfield) (fun i hi => ?_) h
    rcases List.mem_append.1 hi with hi | hi
    · exact hitems i hi
    · rw [List.mem_singleton.1 hi]
      exact ⟨rfl, _, rfl⟩

theorem named_pieceOf {p p' : JoinPlan} {e : Element} {piece : Piece} (hp : p.NamesPlainly)
    (h : pieceOf p e = .ok (piece, p')) :
    p'.NamesPlainly ∧ ∀ k, piece = .condition k → k.NamesPlainly := by
  cases e with
  | criterion c =>
    rw [pieceOf] at h
    obtain ⟨⟨r, p₁⟩, hread, h⟩ := bind_eq_ok.1 h
    have hp₁ := JoinPlan.namesPlainly_forCriterion hp hread
    dsimp only at h
    split at h
    · rename_i k hk
      cases h
      refine ⟨hp₁, fun k' hk' => ?_⟩
      cases hk'
      exact (Criterion.becomes_render hk).namesPlainly
    · cases h
  | and | or | openParen | closeParen =>
    cases h
    exact ⟨hp, fun k hk => by cases hk⟩

theorem named_piecesOf {es : List Element} {p' : JoinPlan} :
    ∀ {p : JoinPlan} {pieces : List Piece}, p.NamesPlainly →
      piecesOf p es = .ok (pieces, p') →
      p'.NamesPlainly ∧ ∀ k, .condition k ∈ pieces → k.NamesPlainly := by
  induction es with
  | nil =>
    intro p pieces hp h
    cases h
    exact ⟨hp, fun k hk => by cases hk⟩
  | cons e es ih =>
    intro p pieces hp h
    rw [piecesOf] at h
    obtain ⟨⟨piece, p₁⟩, hpiece, h⟩ := bind_eq_ok.1 h
    obtain ⟨⟨rest, p₂⟩, hrest, h⟩ := bind_eq_ok.1 h
    cases h
    obtain ⟨hp₁, hnames⟩ := named_pieceOf hp hpiece
    obtain ⟨hp₂, hnames'⟩ := ih hp₁ hrest
    refine ⟨hp₂, fun k hk => ?_⟩
    rcases List.mem_cons.1 hk with hk | hk
    · exact hnames k hk.symm
    · exact hnames' k hk

/-- Rows are ordered by columns of the result. -/
theorem name_mem_of_orderOf {items : List SelectItem} {s : Sorting}
    {order : List (String × Direction)} (h : orderOf items s = .ok order) :
    ∀ t ∈ order, ∃ i ∈ items, t.1 = i.column.name := by
  intro t ht
  obtain ⟨f, -, hf⟩ := (mapM_eq_ok h).1 t ht
  obtain ⟨name, hname, rfl⟩ := map_eq_ok.1 hf
  rw [columnNameOf] at hname
  split at hname
  · rename_i i hi
    cases hname
    exact ⟨i, List.mem_of_find?_eq_some hi, rfl⟩
  · cases hname

theorem name_mem_of_ofQuery {q : Query} {s : Selection} (h : ofQuery q = .ok s) :
    ∀ t ∈ s.order, ∃ i ∈ s.items, t.1 = i.column.name := by
  obtain ⟨-, -, -, -, horder⟩ := parts_of_ofQuery h
  unfold Ordering at horder
  split at horder
  · exact name_mem_of_orderOf horder
  · rw [horder]
    intro t ht
    cases ht

/-- The names of a selection, whichever query it is made for. -/
theorem named_ofQuery {q : Query} {s : Selection} (h : ofQuery q = .ok s) : s.Named := by
  obtain ⟨p, hitems, hpieces⟩ := ofQuery_eq_ok h
  have hstart : (JoinPlan.start q.domain.table).NamesPlainly := fun j hj => by cases hj
  obtain ⟨hp, hnames⟩ := named_addItems hstart (fun i hi => by cases hi) hitems
  obtain ⟨hjoins, hconditions⟩ := named_piecesOf hp hpieces
  exact ⟨hnames, hjoins, hconditions, name_mem_of_ofQuery h⟩

end Selection

end Sql

end ArtifactQuery
