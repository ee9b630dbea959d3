import ArtifactQuery.Proofs.Policies
import ArtifactQuery.Proofs.PropertyTests

/-!
# Property values by their heads

Where a query compares heads of property values, it finds what it found before, except that a denied
text which fills the head is denied of every value that starts like it.

* `Criterion.HeadTest`: the criteria concerned.
* `judged_onHead`: a criterion on heads agrees with the one on whole values where no head is shared.
* `judged_onHead_and_onWholeValue`: the head and the whole value together decide about every text.
* `byHeads_exact`: the query on heads and the query on whole values.
-/

namespace ArtifactQuery

open Sql

/-- The head decides about a text that does not fill it. -/
theorem Cell.eq_of_isText {cell : Cell} {n : Nat} {s : String} (hs : s.length < n)
    (hcell : ∀ i, cell ≠ integer i) (h : cell.IsText (some n) s) : cell = text s := by
  have hhead : cell.head n = (text s).head n := h
  cases cell with
  | null => simp [Cell.head] at hhead
  | integer i => exact absurd rfl (hcell i)
  | text t =>
    have htake : t.toList.take n = s.toList.take n := String.ofList_injective (text.inj hhead)
    have hwhole : s.toList.take n = s.toList :=
      List.take_of_length_le (by rw [String.length_toList]; omega)
    have hlength : (t.toList.take n).length = s.length := by
      rw [htake, hwhole, String.length_toList]
    rw [List.length_take] at hlength
    have hwhole' : t.toList.take n = t.toList := List.take_of_length_le (by omega)
    rw [hwhole, hwhole'] at htake
    rw [String.toList_inj.1 htake]

/-! ## Criteria on heads -/

namespace Criterion

/-- What a criterion with a kind that compares heads is: a value column, or a property. -/
theorem headKind?_cases {c : Criterion} {k : CriterionKind} (h : c.headKind? = some k) :
    (c.kind = .propertyColumn ∧ k = .propertyColumnHead ∧ c.left = .field .propertyValue) ∨
      (c.kind = .property ∧ k = .propertyHead) := by
  rw [headKind?] at h
  cases hkind : c.kind with
  | propertyColumn =>
    rw [hkind] at h
    dsimp only at h
    split at h
    · rename_i hfield
      cases h
      refine .inl ⟨rfl, rfl, ?_⟩
      cases hleft : c.left with
      | field f =>
        rw [field?, hleft] at hfield
        cases hfield
        rfl
      | value l =>
        rw [field?, hleft] at hfield
        cases hfield
    · cases h
  | property =>
    rw [hkind] at h
    cases h
    exact .inr ⟨rfl, rfl⟩
  | simple | propertyColumnHead | propertyHead =>
    rw [hkind] at h
    cases h

/-- Whether a criterion compares the value of an item property with the text `s`, for equality or
its denial, and `k` is the kind that compares heads instead. -/
structure HeadTest (c : Criterion) (k : CriterionKind) (s : String) : Prop where
  kind : c.headKind? = some k
  comparator : c.comparator = .equals ∨ c.comparator = .notEquals
  table : c.leftTable.table = .nodeProps
  right : c.right = .value (.text s)

/-- The criterion that compares heads. -/
def onHead (c : Criterion) : Criterion := { c with kind := c.headKind?.getD c.kind }

/-- Whether a criterion denies that an item property has a text that fills the head. -/
def deniesLong (c : Criterion) : Bool :=
  match c.headKind?, c.value? with
  | some _, some (.text s) =>
    c.comparator = .notEquals ∧ c.leftTable.table = .nodeProps ∧ headLength ≤ s.length
  | _, _ => false

section Tests

variable {c : Criterion} {k : CriterionKind} {s : String}

theorem HeadTest.value? (h : c.HeadTest k s) : c.value? = some (.text s) := by
  rw [Criterion.value?, h.right]
  rfl

theorem HeadTest.eligible (h : c.HeadTest k s) :
    c.comparator.isEquality ∧ c.leftTable.table = .nodeProps := by
  refine ⟨?_, h.table⟩
  rcases h.comparator with hcmp | hcmp <;> rw [hcmp] <;> rfl

theorem HeadTest.onHead_eq (h : c.HeadTest k s) : c.onHead = { c with kind := k } := by
  rw [onHead, h.kind]
  rfl

theorem HeadTest.deniesLong_iff (h : c.HeadTest k s) :
    c.deniesLong = true ↔ c.comparator = .notEquals ∧ headLength ≤ s.length := by
  rw [deniesLong, h.kind, h.value?]
  dsimp only
  rw [decide_eq_true_iff]
  exact ⟨fun ⟨hcmp, _, hlong⟩ => ⟨hcmp, hlong⟩, fun ⟨hcmp, hlong⟩ => ⟨hcmp, h.table, hlong⟩⟩

/-- Equality with a text that fills the head looks at the head and at the whole value. -/
theorem HeadTest.byHead_of_long (h : c.HeadTest k s) (hcmp : c.comparator = .equals)
    (hlong : headLength ≤ s.length) : c.byHead =
      [.openParen, .criterion { c with kind := k }, .and, .criterion c.onWholeValue,
        .closeParen] := by
  rw [byHead, h.kind, h.value?]
  dsimp only
  rw [if_neg (not_not.2 h.eligible), if_pos ⟨hcmp, hlong⟩]

/-- Everything else looks at the head only. -/
theorem HeadTest.byHead_of_not (h : c.HeadTest k s)
    (hnot : ¬ (c.comparator = .equals ∧ headLength ≤ s.length)) :
    c.byHead = [.criterion { c with kind := k }] := by
  rw [byHead, h.kind, h.value?]
  dsimp only
  rw [if_neg (not_not.2 h.eligible), if_neg hnot]

/-- A criterion of another sort stays as it is. -/
theorem byHead_of_no_headTest (h : ∀ k s, ¬ c.HeadTest k s) :
    c.byHead = [.criterion c] ∧ c.deniesLong = false := by
  rw [byHead, deniesLong]
  cases hk : c.headKind? with
  | none => exact ⟨rfl, rfl⟩
  | some k =>
    cases hv : c.value? with
    | none => exact ⟨rfl, rfl⟩
    | some l =>
      cases l with
      | text s =>
        have hright : c.right = .value (.text s) := by
          rw [Criterion.value?] at hv
          cases hr : c.right with
          | field f =>
            rw [hr] at hv
            cases hv
          | value l =>
            rw [hr] at hv
            cases hv
            rfl
        have hnot : ¬ (c.comparator.isEquality ∧ c.leftTable.table = .nodeProps) := by
          rintro ⟨hcmp, ht⟩
          refine h k s ⟨hk, ?_, ht, hright⟩
          revert hcmp
          cases c.comparator <;> decide
        refine ⟨if_pos hnot, decide_eq_false ?_⟩
        rintro ⟨hcmp, ht, -⟩
        exact hnot ⟨by rw [hcmp]; rfl, ht⟩
      | long n | date n | itemType t | null => exact ⟨rfl, rfl⟩

end Tests

end Criterion

/-- Whether a cell is the value of an item property that a statement may read: of a stored row, or
of the row at an occurrence. -/
def Sql.PropertyValue (db : Database) (rows : Combination) (cell : Cell) : Prop :=
  (∃ row ∈ db.rows .nodeProps, cell = row "prop_value") ∨
    ∃ n, cell = rows ⟨.nodeProps, n⟩ "prop_value"

namespace Criterion

section Heads

variable {db : Database} {rows : Combination} {p : Places} {v : Criterion → Bool} {c : Criterion}
  {k : CriterionKind} {s : String}

/-- What a criterion on item properties reads. -/
theorem propertyValue_placeIn (ht : c.leftTable.table = .nodeProps) (p : Places) :
    PropertyValue db rows (rows (c.placeIn p) "prop_value") := by
  rw [placeIn, ht]
  exact .inr ⟨_, rfl⟩

/-- A column criterion and the one on heads compare the same column. -/
theorem testsColumn_withKind {cmp : Comparator} (hkind : c.kind = .propertyColumn)
    (hleft : c.left = .field .propertyValue) (hcmp : c.comparator = cmp)
    (hs : c.right = .value (.text s)) : c.TestsColumn cmp s ∧
      ({ c with kind := .propertyColumnHead } : Criterion).TestsColumn cmp s :=
  ⟨⟨.inl hkind, hleft, hcmp, hs⟩, ⟨.inr rfl, hleft, hcmp, hs⟩⟩

/-- A property criterion and the one on heads look up the same property. -/
theorem testsKey_withKind {key : String} {cmp : Comparator} (hkind : c.kind = .property)
    (hleft : c.left = .value (.text key)) (hcmp : c.comparator = cmp)
    (hs : c.right = .value (.text s)) : c.TestsKey key cmp s ∧
      ({ c with kind := .propertyHead } : Criterion).TestsKey key cmp s :=
  ⟨⟨.inl hkind, hleft, hcmp, hs⟩, ⟨.inr rfl, hleft, hcmp, hs⟩⟩

/-- Where no value that is read shares its head with the text, heads decide. -/
theorem judged_onHead (h : c.HeadTest k s) (hmet : ∀ cell, PropertyValue db rows cell →
      (cell.IsText (some headLength) s ↔ cell = .text s)) :
    ({ c with kind := k } : Criterion).judged db rows p v = c.judged db rows p v := by
  have hread := hmet (rows (c.placeIn p) "prop_value") (propertyValue_placeIn h.table p)
  -- The value column compares one cell. A property compares the cell beside its key, and its denial
  -- the cells of all rows of the owner.
  rcases headKind?_cases h.kind with ⟨hkind, rfl, hleft⟩ | ⟨hkind, rfl⟩
  · rw [Bool.eq_iff_iff]
    rcases h.comparator with hcmp | hcmp
    · obtain ⟨hwhole, hhead⟩ := testsColumn_withKind hkind hleft hcmp h.right
      rw [judged_column_equals hwhole, judged_column_equals hhead, hkind]
      exact hread
    · obtain ⟨hwhole, hhead⟩ := testsColumn_withKind hkind hleft hcmp h.right
      rw [judged_column_notEquals hwhole, judged_column_notEquals hhead, hkind]
      exact not_congr hread
  by_cases hkey : ∃ key, c.left = .value (.text key)
  · obtain ⟨key, hleft⟩ := hkey
    rw [Bool.eq_iff_iff]
    rcases h.comparator with hcmp | hcmp
    · obtain ⟨hwhole, hhead⟩ := testsKey_withKind hkind hleft hcmp h.right
      rw [judged_of_asks hwhole (.inl rfl), judged_of_asks hhead (.inl rfl), hkind]
      exact and_congr_right fun _ => hread
    · obtain ⟨hwhole, hhead⟩ := testsKey_withKind hkind hleft hcmp h.right
      rw [judged_of_denies hwhole (.inl rfl), judged_of_denies hhead (.inl rfl), hkind]
      have hrow : ∀ row ∈ db.rows c.leftTable.table,
          ((row "prop_value").IsText (some headLength) s ↔ row "prop_value" = .text s) := by
        intro row hrow
        rw [h.table] at hrow
        exact hmet _ (.inl ⟨row, hrow, rfl⟩)
      refine exists_congr fun link => and_congr_right fun _ => ?_
      refine forall₂_congr fun row hmem => imp_congr_right fun _ => ?_
      exact imp_congr_left (hrow row hmem)
  · have hno : ∀ key, c.left ≠ .value (.text key) := fun key h => hkey ⟨key, h⟩
    have hhead : ({ c with kind := .propertyHead } : Criterion).judged db rows p v = false :=
      judged_of_no_key (.inr rfl) hno
    rw [hhead, judged_of_no_key (.inl hkind) hno]

/-- The head and the whole value together decide about every text. -/
theorem judged_onHead_and_onWholeValue (h : c.HeadTest k s) (hcmp : c.comparator = .equals) :
    (({ c with kind := k } : Criterion).judged db rows p v &&
      c.onWholeValue.judged db rows p v) = c.judged db rows p v := by
  have hself : ∀ cell : Cell, cell = .text s → cell.IsText (some headLength) s := by
    rintro cell rfl
    rfl
  rcases headKind?_cases h.kind with ⟨hkind, rfl, hleft⟩ | ⟨hkind, rfl⟩
  · obtain ⟨hwhole, hhead⟩ := testsColumn_withKind hkind hleft hcmp h.right
    -- On the value column the whole value is compared by the criterion itself.
    have hsame : c.onWholeValue = c := by
      rw [onWholeValue, if_neg (by rw [hkind]; decide)]
    rw [hsame, Bool.eq_iff_iff, Bool.and_eq_true, judged_column_equals hwhole,
      judged_column_equals hhead, hkind]
    exact and_iff_right_of_imp (hself _)
  by_cases hkey : ∃ key, c.left = .value (.text key)
  · obtain ⟨key, hleft⟩ := hkey
    obtain ⟨hwhole, hhead⟩ := testsKey_withKind hkind hleft hcmp h.right
    have hsame : c.onWholeValue =
        { c with kind := .propertyColumn, left := .field .propertyValue } := by
      rw [onWholeValue, if_pos hkind]
    have hvalue : ({ c with kind := .propertyColumn, left := .field .propertyValue } :
        Criterion).TestsColumn .equals s := ⟨.inl rfl, rfl, hcmp, h.right⟩
    rw [hsame, Bool.eq_iff_iff, Bool.and_eq_true, judged_of_asks hwhole (.inl rfl),
      judged_of_asks hhead (.inl rfl), judged_column_equals hvalue, hkind]
    constructor
    · rintro ⟨⟨hkey, -⟩, hvalue⟩
      exact ⟨hkey, hvalue⟩
    · rintro ⟨hkey, hvalue⟩
      exact ⟨⟨hkey, hself _ hvalue⟩, hvalue⟩
  · have hno : ∀ key, c.left ≠ .value (.text key) := fun key h => hkey ⟨key, h⟩
    have hhead : ({ c with kind := .propertyHead } : Criterion).judged db rows p v = false :=
      judged_of_no_key (.inr rfl) hno
    rw [hhead, judged_of_no_key (.inl hkind) hno, Bool.false_and]

/-- The criterion with the value that its replacement has: a denied text that fills the head is
denied of heads. -/
def judgedByHead (db : Database) (rows : Combination) (p : Places) (v : Criterion → Bool)
    (c : Criterion) : Bool :=
  if c.deniesLong then c.onHead.judged db rows p v else c.judged db rows p v

theorem means_byHead (htext : ∀ cell, PropertyValue db rows cell → ∀ i, cell ≠ .integer i)
    (c : Criterion) :
    Element.Means (judged db rows p v) .operand c.byHead (c.judgedByHead db rows p v) := by
  by_cases htest : ∃ k s, c.HeadTest k s
  · obtain ⟨k, s, h⟩ := htest
    rw [judgedByHead]
    -- A long text is asked for twice, by its head and as a whole. A short one is its own head, and
    -- a long one that is denied is left to heads alone.
    by_cases hlong : c.comparator = .equals ∧ headLength ≤ s.length
    · have hnot : ¬ c.deniesLong = true := by
        rw [h.deniesLong_iff, hlong.1]
        rintro ⟨hcmp, -⟩
        cases hcmp
      rw [if_neg hnot, h.byHead_of_long hlong.1 hlong.2,
        ← judged_onHead_and_onWholeValue h hlong.1]
      exact .paren (.only (.and (.one (.criterion _)) (.criterion _)))
    rw [h.byHead_of_not hlong]
    by_cases hdenies : c.deniesLong = true
    · rw [if_pos hdenies, h.onHead_eq]
      exact .criterion _
    · have hshort : s.length < headLength := by
        rw [h.deniesLong_iff] at hdenies
        rcases h.comparator with hcmp | hcmp
        · exact Nat.not_le.1 fun hle => hlong ⟨hcmp, hle⟩
        · exact Nat.not_le.1 fun hle => hdenies ⟨hcmp, hle⟩
      have hmet : ∀ cell, PropertyValue db rows cell →
          (cell.IsText (some headLength) s ↔ cell = .text s) := by
        intro cell hcell
        refine ⟨Cell.eq_of_isText hshort (htext cell hcell), ?_⟩
        rintro rfl
        rfl
      rw [if_neg hdenies, ← judged_onHead h hmet]
      exact .criterion _
  · obtain ⟨hsame, hdenies⟩ := byHead_of_no_headTest fun k s h => htest ⟨k, s, h⟩
    rw [hsame, judgedByHead, hdenies]
    exact .criterion c

/-- A denied text that no value starts like, other than itself, may be denied of heads. -/
theorem judgedByHead_eq (hmet : c.deniesLong = true → ∀ s, c.value? = some (.text s) → ∀ cell,
      PropertyValue db rows cell → cell.IsText (some headLength) s → cell = .text s) :
    c.judgedByHead db rows p v = c.judged db rows p v := by
  rw [judgedByHead]
  by_cases hdenies : c.deniesLong = true
  · by_cases htest : ∃ k s, c.HeadTest k s
    · obtain ⟨k, s, h⟩ := htest
      rw [if_pos hdenies, h.onHead_eq]
      refine judged_onHead h fun cell hcell => ⟨hmet hdenies s h.value? cell hcell, ?_⟩
      rintro rfl
      rfl
    · obtain ⟨-, hnot⟩ := byHead_of_no_headTest fun k s h => htest ⟨k, s, h⟩
      rw [hnot] at hdenies
      cases hdenies
  · rw [if_neg hdenies]

end Heads

end Criterion

/-! ## The query -/

open Criterion in
/-- A query on heads of property values is accepted as the query was, and holds of the rows of which
the query holds when denied texts that fill the head are denied of heads. So both hold of the same
rows where no value that is read shares its head with such a text, and above all where no such text
is denied. -/
theorem byHeads_exact {q : Query} (hq : q.checkElements = .ok ()) {db : Database}
    {rows : Combination} (htext : ∀ cell, PropertyValue db rows cell → ∀ i, cell ≠ .integer i)
    (p : Places) (v : Criterion → Bool) :
    q.byHeads.checkElements = .ok () ∧
    Element.satisfied (judged db rows p v) q.byHeads.elements =
      Element.satisfied (judgedByHead db rows p v) q.elements ∧
    ((∀ c ∈ q.criteria, c.deniesLong = true → ∀ s, c.value? = some (.text s) → ∀ cell,
        PropertyValue db rows cell → cell.IsText (some headLength) s → cell = .text s) →
      Element.satisfied (judged db rows p v) q.byHeads.elements =
        Element.satisfied (judged db rows p v) q.elements) := by
  rw [Query.byHeads_eq]
  refine ⟨Query.check_replaced byHead_standsFor hq, ?_, fun hmet => ?_⟩
  · exact Query.satisfied_replaced hq fun c _ => means_byHead htext c
  · refine Query.satisfied_replaced hq fun c hc => ?_
    rw [← judgedByHead_eq (hmet c hc)]
    exact means_byHead htext c

/-- Items without a license. -/
def Query.notLicensed (value : String) : Query where
  domain := .items
  elements := [.criterion
    (.property [.items, .properties] "license" ⟨.nodeProps, 100⟩ .notEquals (.text value))]

/-- The item and its license. -/
def Sql.Combination.licensed (value : String) : Combination
  | ⟨.nodeProps, _⟩ => .ofProperty 1 "license" (.text value)
  | _ => .ofItem 1

/-- The truth of criteria on the item and its license. -/
def Criterion.judgedLicensed (value : String) : Criterion → Bool :=
  judged (.licensed [value]) (.licensed value) (fun _ o => (o.id, some (.plain .nodes)))
    fun _ => false

theorem propertyValue_licensed {value : String} {cell : Cell}
    (h : PropertyValue (.licensed [value]) (.licensed value) cell) : cell = .text value := by
  rcases h with ⟨row, hrow, rfl⟩ | ⟨n, rfl⟩
  · have hrow : row = .ofProperty 1 "license" (.text value) := List.mem_singleton.1 hrow
    rw [hrow]
    rfl
  · rfl

theorem byHeads_exact_licensed :
    (Query.notLicensed "GPL").checkElements = .ok () ∧
    (∀ cell, PropertyValue (.licensed ["GPL-2.0"]) (.licensed "GPL-2.0") cell →
      ∀ i, cell ≠ .integer i) ∧
    Element.satisfied (Criterion.judgedLicensed "GPL-2.0")
        (Query.notLicensed "GPL").byHeads.elements =
      Element.satisfied (Criterion.judgedLicensed "GPL-2.0")
        (Query.notLicensed "GPL").elements := by
  have hq : (Query.notLicensed "GPL").checkElements = .ok () := rfl
  have htext : ∀ cell, PropertyValue (.licensed ["GPL-2.0"]) (.licensed "GPL-2.0") cell →
      ∀ i, cell ≠ .integer i := by
    intro cell hcell i
    rw [propertyValue_licensed hcell]
    exact Cell.noConfusion
  obtain ⟨-, -, hsame⟩ := byHeads_exact hq htext (fun _ o => (o.id, some (.plain .nodes)))
    fun _ => false
  refine ⟨hq, htext, hsame fun c hc hdenies => ?_⟩
  have hshort : (Query.notLicensed "GPL").criteria.any Criterion.deniesLong = false := by decide
  rw [List.any_eq_false] at hshort
  exact absurd hdenies (hshort c hc)

/-- A text that fills the head, and one more character. -/
def longText (last : Char) : String := String.ofList (List.replicate 255 'a' ++ [last])

/-- The license starts as the denied text does, but is another one. -/
theorem not_byHeads_longText :
    Element.satisfied (Criterion.judgedLicensed (longText 'c'))
        (Query.notLicensed (longText 'b')).elements = true ∧
      Element.satisfied (Criterion.judgedLicensed (longText 'c'))
        (Query.notLicensed (longText 'b')).byHeads.elements = false := by
  constructor
  · have hdiffers : ¬ (Cell.text (longText 'c')).IsText none (longText 'b') := by
      intro h
      have hlist := String.ofList_injective (Cell.text.inj h)
      exact absurd (List.append_cancel_left hlist) (by decide)
    refine (Element.Means.criterion _).satisfied_eq.trans ?_
    refine (Criterion.judged_of_denies ⟨.inl rfl, rfl, rfl, rfl⟩ (.inl rfl)).2
      ⟨("node_id", "node_id"), rfl, fun row hrow _ hvalue => ?_⟩
    rw [List.mem_singleton.1 hrow] at hvalue
    exact absurd hvalue hdiffers
  · have hhead : (Cell.text (longText 'c')).IsText (some headLength) (longText 'b') := by
      have htake : ∀ last, (longText last).toList.take headLength = List.replicate 255 'a' := by
        intro last
        rw [longText, String.toList_ofList]
        exact List.take_left' List.length_replicate
      show Cell.text _ = Cell.text _
      rw [htake, htake]
    refine (Element.Means.criterion _).satisfied_eq.trans ?_
    rw [Bool.eq_false_iff]
    intro h
    obtain ⟨link, hlink, hrows⟩ :=
      (Criterion.judged_of_denies ⟨.inr rfl, rfl, rfl, rfl⟩ (.inl rfl)).1 h
    cases hlink
    exact (hrows _ (List.mem_singleton_self _) rfl hhead).2.2 rfl

end ArtifactQuery
