import ArtifactQuery.Proofs.Spelling
import ArtifactQuery.Proofs.StatementWords
import ArtifactQuery.Sql.Select

/-!
# Terms of an order

An order is a text that lists columns, each behind its table's name or not and with a direction or
none. Where rows are numbered by an outer statement, the columns are looked up there.

* `OrderTerm`, `OrderTerm.Plain`: a term, and those that can be read back.
* `OrderTerm.Plain.words_key`, `OrderTerm.Plain.outerTerm_written`: the words of a term, and the
  term of the outer statement.
* `Orders`, `Spells`: the texts that list terms.
* `Spells.orderWords`, `Spells.outerTerms_eq`: their words, and the terms of the outer statement.
-/

namespace ArtifactQuery.Sql

/-! ## Terms -/

/-- A term of an order: a column and perhaps a direction, with the blanks in front of it. -/
structure OrderTerm where
  table : Option String := none
  column : String
  gap : String := ""
  direction : String := ""
  deriving DecidableEq, Repr

theorem plain_of_toLower {c : Char} (h : c.toLower ∈ "ascde".toList) :
    c ≠ '.' ∧ endsWord sqlMarks c = false := by
  by_cases hupper : c.val ≥ 'A'.val ∧ c.val ≤ 'Z'.val
  · have hrange : c.toNat ∈ List.range' 65 26 := by
      have hfirst : 65 ≤ c.toNat := hupper.1
      have hlast : c.toNat ≤ 90 := hupper.2
      rw [List.mem_range'_1]
      omega
    have hall : ∀ n ∈ List.range' 65 26, Char.ofNat n ≠ '.' ∧
        endsWord sqlMarks (Char.ofNat n) = false := by decide +kernel
    have hplain := hall _ hrange
    rwa [Char.ofNat_toNat] at hplain
  · have hall : "ascde".toList.all (fun c => c ≠ '.' ∧ endsWord sqlMarks c = false) := by decide
    have hsame : c.toLower = c := dif_neg hupper
    rw [hsame] at h
    exact of_decide_eq_true (List.all_eq_true.1 hall c h)

/-- A direction is a word without dots. -/
theorem isPlainName_of_direction? {s : String} (h : (direction? s).isSome) : IsPlainName s := by
  obtain ⟨letters, hne, hletters, hs⟩ : ∃ letters : List Char, letters ≠ [] ∧
      letters.all (· ∈ "ascde".toList) ∧ s.toList.map Char.toLower = letters := by
    rw [direction?] at h
    split at h
    case isTrue hasc => exact ⟨_, by decide, by decide, hasc⟩
    split at h
    case isTrue hdesc => exact ⟨_, by decide, by decide, hdesc⟩
    case isFalse => cases h
  have hmem {c : Char} (hc : c ∈ letters) : c ∈ "ascde".toList :=
    of_decide_eq_true (List.all_eq_true.1 hletters c hc)
  refine ⟨fun hnil => hne ?_, fun c hc => plain_of_toLower (hmem ?_)⟩
  · rw [← hs, hnil, List.map_nil]
  · exact hs ▸ List.mem_map_of_mem hc

/-- No direction and no blanks, or blanks and a direction. -/
def IsDirection (gap direction : String) : Prop :=
  (gap = "" ∧ direction = "") ∨
    (gap ≠ "" ∧ gap.toList.all isBlank ∧ (direction? direction).isSome)

instance (gap direction : String) : Decidable (IsDirection gap direction) :=
  inferInstanceAs (Decidable (_ ∨ _))

namespace OrderTerm

/-- The term's name. -/
def name (t : OrderTerm) : String := (⟨t.table, t.column⟩ : ColumnName).written

/-- The term's text. -/
def written (t : OrderTerm) : String := t.name ++ (t.gap ++ t.direction)

/-- The term with its column looked up in the table `name`. -/
def within (name : String) (t : OrderTerm) : OrderTerm := { t with table := some name }

/-- What the term sorts by. -/
def key (t : OrderTerm) : SortKey where
  source := ⟨t.table, t.column⟩
  descending := (direction? t.direction).getD false

/-- A column's name, behind a table's name or not, and a direction or none. -/
structure Plain (t : OrderTerm) : Prop where
  table : ∀ name ∈ t.table, IsPlainName name
  column : IsPlainName t.column
  direction : IsDirection t.gap t.direction

instance (t : OrderTerm) : Decidable t.Plain :=
  decidable_of_iff
    ((∀ name ∈ t.table, IsPlainName name) ∧ IsPlainName t.column ∧ IsDirection t.gap t.direction)
    ⟨fun ⟨htable, hcolumn, hdirection⟩ => ⟨htable, hcolumn, hdirection⟩,
      fun h => ⟨h.table, h.column, h.direction⟩⟩

namespace Plain

variable {t : OrderTerm} (ht : t.Plain)
include ht

theorem within {name : String} (hname : IsPlainName name) : (t.within name).Plain where
  table _ h := Option.some.inj h ▸ hname
  column := ht.column
  direction := ht.direction

theorem not_mem_direction {c : Char} (hblank : isBlank c = false)
    (hc : c = '.' ∨ endsWord sqlMarks c) : c ∉ t.gap.toList ++ t.direction.toList := by
  intro hmem
  rcases ht.direction with ⟨hgap, hdirection⟩ | ⟨-, hgap, hdirection⟩
  · rw [hgap, hdirection] at hmem
    cases hmem
  rcases List.mem_append.1 hmem with hmem | hmem
  · rw [List.all_eq_true.1 hgap c hmem] at hblank
    cases hblank
  · obtain ⟨hdot, hends⟩ := (isPlainName_of_direction? hdirection).2 c hmem
    rcases hc with hc | hc
    · exact hdot hc
    · rw [hends] at hc
      cases hc

theorem endsWord_name {c : Char} (hc : c ∈ t.name.toList) : endsWord sqlMarks c = false :=
  ColumnName.Plain.endsWord_written ⟨ht.table, ht.column⟩ hc

theorem not_mem_name {c : Char} (hc : endsWord sqlMarks c) : c ∉ t.name.toList := by
  intro hmem
  rw [ht.endsWord_name hmem] at hc
  cases hc

theorem name_ne_nil : t.name.toList ≠ [] :=
  ColumnName.Plain.written_ne_nil ⟨ht.table, ht.column⟩

theorem comma_not_mem : ',' ∉ t.written.toList := by
  rw [written, String.toList_append, String.toList_append, List.mem_append, not_or]
  exact ⟨ht.not_mem_name (by decide), ht.not_mem_direction (by decide) (.inr (by decide))⟩

theorem written_ne_nil : t.written.toList ≠ [] := by
  rw [written, String.toList_append]
  exact List.append_ne_nil_of_left_ne_nil ht.name_ne_nil _

theorem isBlank_name {c : Char} (hc : c ∈ t.name.toList) : (! isBlank c) = true := by
  have hends := ht.endsWord_name hc
  rw [endsWord, Bool.or_eq_false_iff] at hends
  rw [hends.1]
  rfl

theorem tightStart_written : TightStart t.written := by
  obtain ⟨c, cs, hcs⟩ := List.exists_cons_of_ne_nil ht.name_ne_nil
  have hname : TightStart t.name := by
    rw [TightStart, hcs]
    exact ht.isBlank_name (hcs ▸ List.mem_cons_self)
  exact hname.append _

theorem tightEnd_written : TightEnd t.written := by
  rcases ht.direction with ⟨hgap, hdirection⟩ | ⟨-, -, hdirection⟩
  · rw [written, hgap, hdirection, String.append_empty, String.append_empty, TightEnd,
      List.getLast?_eq_some_getLast ht.name_ne_nil]
    exact ht.isBlank_name (List.getLast_mem _)
  · obtain ⟨hne, hplain⟩ := isPlainName_of_direction? hdirection
    have hends := (hplain _ (List.getLast_mem hne)).2
    have htight : TightEnd t.direction := by
      rw [endsWord, Bool.or_eq_false_iff] at hends
      rw [TightEnd, List.getLast?_eq_some_getLast hne, Option.any_some, hends.1]
      rfl
    exact (htight.append _).append _

/-- A term has no blanks at its ends. -/
theorem trimChars_written : trimChars t.written.toList = t.written.toList :=
  trimChars_toList_eq_self ht.tightStart_written ht.tightEnd_written

/-- The words of a term are those of its key. -/
theorem words_key : t.key.Words (tokens t.written) := by
  have hplain : t.key.source.Plain := ⟨ht.table, ht.column⟩
  have hname : tokens t.name = [t.name] := hplain.tokens_written
  have hparen : t.name ≠ "(" := by
    intro heq
    exact ht.not_mem_name (c := '(') (by decide) (heq ▸ by decide)
  have hsource : ColumnName.ofToken t.name = ⟨t.table, t.column⟩ := hplain.ofToken_written
  rw [key, ← hsource]
  rcases ht.direction with ⟨hgap, hdirection⟩ | ⟨hgap, hblanks, hdirection⟩
  · have hwritten : t.written = t.name := by
      rw [written, hgap, hdirection, String.append_empty, String.append_empty]
    rw [hwritten, hname, hdirection]
    exact .bare hparen
  · obtain ⟨descending, hdescending⟩ := Option.isSome_iff_exists.1 hdirection
    obtain ⟨hne, hplain⟩ := isPlainName_of_direction? hdirection
    -- The blanks end the word of the name, begin the one of the direction and are none themselves.
    have hends : ∀ c ∈ t.gap.toList, endsWord sqlMarks c = true := fun c hc => by
      rw [endsWord, List.all_eq_true.1 hblanks c hc]
      rfl
    have hgap : t.gap.toList ≠ [] := fun hnil => hgap (String.toList_eq_nil_iff.1 hnil)
    have hbefore : BreaksBefore sqlMarks t.gap := by
      obtain ⟨c, cs, hcs⟩ := List.exists_cons_of_ne_nil hgap
      rw [BreaksBefore, hcs]
      exact hends c (hcs ▸ List.mem_cons_self)
    have hafter : BreaksAfter sqlMarks t.gap := by
      rw [BreaksAfter, List.getLast?_eq_some_getLast hgap]
      exact hends _ (List.getLast_mem _)
    have hnone : tokens t.gap = [] := by
      rw [tokens, cutText, cutWords_of_blanks hblanks]
      rfl
    have hword : tokens t.direction = [t.direction] :=
      tokens_eq_singleton hne (List.all_eq_true.2 fun c hc => by
        rw [(hplain c hc).2]
        rfl)
    rw [written, (hbefore.append _).tokens_append, hafter.tokens_append, hname, hnone, hword,
      hdescending]
    exact .directed hparen hdescending

/-- The text behind a term's first dot, looked up in the numbered rows. -/
theorem outerTerm_written : outerTerm t.written.toList = (t.within "aa").written := by
  have hresult : (t.within "aa").written =
      "aa." ++ String.ofList (t.column.toList ++ (t.gap.toList ++ t.direction.toList)) := by
    rw [String.ofList_append, String.ofList_append, String.ofList_toList, String.ofList_toList,
      String.ofList_toList, ← String.append_assoc]
    rfl
  -- The only dot stands behind the table, so cutting at the first one takes off the table alone.
  have hbehind : '.' ∉ t.column.toList ++ (t.gap.toList ++ t.direction.toList) := by
    rw [List.mem_append, not_or]
    exact ⟨fun hmem => (ht.column.2 _ hmem).1 rfl, ht.not_mem_direction (by decide) (.inl rfl)⟩
  rw [hresult, outerTerm, written, name, ColumnName.written]
  cases htable : t.table with
  | none =>
    rw [Option.elim_none, String.empty_append, String.toList_append, String.toList_append,
      if_neg hbehind]
  | some table =>
    have htable : table.toList.all (· ≠ '.') := by
      rw [List.all_eq_true]
      intro c hc
      exact decide_eq_true ((ht.table table htable).2 c hc).1
    have htext : (table ++ "." ++ t.column ++ (t.gap ++ t.direction)).toList =
        table.toList ++ '.' :: (t.column.toList ++ (t.gap.toList ++ t.direction.toList)) := by
      simp
    rw [Option.elim_some, htext, if_pos (List.mem_append_right _ List.mem_cons_self),
      (takeWhile_dropWhile_append htable (by simp)).2]
    rfl

end Plain

end OrderTerm

/-! ## Orders -/

/-- Whether an order lists the terms, with or without blanks around them. -/
def Spells (order : String) (terms : List OrderTerm) : Prop :=
  (cutAt ',' order.toList).map trimChars = terms.map (·.written.toList) ∧ ∀ t ∈ terms, t.Plain

/-- Whether the text of an order is blank and there are no terms, or it lists the terms. -/
def Orders (order : Option String) (terms : List OrderTerm) : Prop :=
  match nonBlank? order with
  | none => terms = []
  | some text => Spells text terms

namespace Spells

variable {order : String} {terms : List OrderTerm}

theorem outerTerms_eq (h : Spells order terms) :
    outerTerms order = terms.map fun t => (t.within "aa").written := by
  have hsegments : ((cutAt ',' order.toList).map trimChars).filter (· ≠ []) =
      terms.map (·.written.toList) := by
    rw [h.1, List.filter_eq_self]
    intro w hw
    obtain ⟨t, ht, rfl⟩ := List.mem_map.1 hw
    exact decide_eq_true (h.2 t ht).written_ne_nil
  rw [outerTerms, hsegments, List.map_map]
  exact List.map_congr_left fun t ht => (h.2 t ht).outerTerm_written

theorem ne_nil (h : Spells order terms) : terms ≠ [] := by
  rintro rfl
  exact cutAt_ne_nil (List.map_eq_nil_iff.1 h.1)

/-- The words of an order. -/
theorem orderWords (h : Spells order terms) :
    OrderWords (terms.map OrderTerm.key) ("order" :: "by" :: tokens order) := by
  have hterms : (terms.map (·.written.toList)).map (tokens ∘ String.ofList) =
      terms.map fun t => tokens t.written := by
    rw [List.map_map]
    refine List.map_congr_left fun t _ => ?_
    rw [Function.comp_apply, Function.comp_apply, String.ofList_toList]
  rw [tokens_eq_intercalate, h.1, hterms]
  refine .sorted (List.map_eq_nil_iff.not.2 h.ne_nil) ?_
  rw [List.forall₂_map_left_iff, List.forall₂_map_right_iff, List.forall₂_same]
  exact fun t ht => (h.2 t ht).words_key

end Spells

/-- Terms with commas between them are listed by the text that they make up. -/
theorem spells_intercalate {terms : List OrderTerm} (hne : terms ≠ [])
    (hplain : ∀ t ∈ terms, t.Plain) :
    Spells (", ".intercalate (terms.map OrderTerm.written)) terms := by
  refine ⟨?_, hplain⟩
  induction terms with
  | nil => exact absurd rfl hne
  | cons t ts ih =>
    obtain ⟨ht, hts⟩ := List.forall_mem_cons.1 hplain
    cases ts with
    | nil =>
      rw [List.map_cons, List.map_nil, String.intercalate_singleton,
        cutAt_of_not_mem ht.comma_not_mem, List.map_cons, List.map_cons, ht.trimChars_written]
      rfl
    | cons u us =>
      have hmore := ih (List.cons_ne_nil _ _) hts
      have htext : (", ".intercalate (t.written :: u.written :: us.map OrderTerm.written)).toList =
          t.written.toList ++ ',' ::
            ' ' :: (", ".intercalate ((u :: us).map OrderTerm.written)).toList := by
        rw [String.intercalate_cons_cons, String.toList_append, String.toList_append]
        simp
      rw [List.map_cons, List.map_cons, htext, cutAt_append ht.comma_not_mem, List.map_cons,
        map_trimChars_cutAt_cons (by decide) (by decide), hmore, ht.trimChars_written]
      rfl

/-- A text without blanks at its ends stays as it is. -/
theorem nonBlank?_tight {s : String} (hs : TightStart s) (he : TightEnd s) :
    nonBlank? (some s) = some s := by
  rw [nonBlank?, Option.map_some, trim_eq_self hs he]
  exact Option.filter_some_pos (decide_eq_true hs.ne_empty)

/-- The text of terms with commas between them is blank where there are none, and lists them. -/
theorem orders_intercalate {terms : List OrderTerm} (hplain : ∀ t ∈ terms, t.Plain) :
    Orders (some (", ".intercalate (terms.map OrderTerm.written))) terms := by
  cases terms with
  | nil => rfl
  | cons t ts =>
    have hstarts : TightStart (", ".intercalate ((t :: ts).map OrderTerm.written)) :=
      tightStart_intercalate (hplain t List.mem_cons_self).tightStart_written _
    have hends : TightEnd (", ".intercalate ((t :: ts).map OrderTerm.written)) := by
      refine tightEnd_intercalate (List.cons_ne_nil _ _) fun w hw => ?_
      obtain ⟨u, hu, rfl⟩ := List.mem_map.1 hw
      exact (hplain u hu).tightEnd_written
    rw [Orders, nonBlank?_tight hstarts hends]
    exact spells_intercalate (List.cons_ne_nil _ _) hplain

end ArtifactQuery.Sql
