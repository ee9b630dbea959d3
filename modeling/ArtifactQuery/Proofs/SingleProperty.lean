import ArtifactQuery.Proofs.ClauseValues
import ArtifactQuery.Proofs.DeniedProperties

/-!
# Clauses on one property

Tests in a clause on one property that ask for a property are about one row of the item. Those that
deny one are about all of them.

* `Test.holdsOn`, `Test.holdsBeside`: the value of a test on one property row, and on one row beside
  all properties of the item.
* `build_eq`: such a clause becomes criteria that share the number of an occurrence.
* `piecesOf_eq`: the occurrence is joined once, if a test asks for a property.
* `sameProperty_exact`: an item is returned if the clause holds on one of the rows beside it.
-/

namespace ArtifactQuery

open Sql

/-! ## Tests on rows -/

namespace Test

/-- The key of the property that a test names. -/
def key (t : Test) : String := String.ofList (t.path.toList.drop 1)

/-- Whether a test compares the value of a property, named by its key, with a text or a pattern. -/
structure NamesProperty (t : Test) : Prop where
  path : t.path.toList.head? = some '@'
  key : t.key ≠ "*"
  comparator : t.comparator.Asks ∨ t.comparator.Denies
  value : t.value ≠ .null
  shown : t.value.shown ≠ "*"

theorem NamesProperty.named_eq {t : Test} (h : t.NamesProperty) :
    .named t.key t.comparator t.value = t := by
  obtain ⟨cs, hpath⟩ := List.head?_eq_some_iff.1 h.path
  have hname : "@" ++ t.key = t.path := by
    rw [← String.toList_inj, String.toList_append, Test.key, hpath]
    exact congrArg ("@".toList ++ ·) String.toList_ofList
  rw [named, hname]

/-- Whether a property row has the key of a test and a value that fits, be it asked for or denied.
-/
def Finds (db : Database) (t : Test) (row : Record) : Prop :=
  row "prop_key" = .text t.key ∧ (row "prop_value").Fits db none t.comparator.positive t.value.shown

instance (db : Database) (t : Test) (row : Record) : Decidable (t.Finds db row) :=
  inferInstanceAs (Decidable (_ ∧ _))

/-- The value of a test on one property row: it has the key, and a value as the test says. -/
def holdsOn (db : Database) (row : Record) (t : Test) : Bool :=
  if t.comparator.isNegative then row "prop_key" = .text t.key ∧ ¬ t.Finds db row
  else t.Finds db row

/-- The value of a test on a row beside all properties: what is denied is denied of all of them. -/
def holdsBeside (db : Database) (all : List Record) (row : Record) (t : Test) : Bool :=
  if t.comparator.isNegative then ∀ r ∈ all, ¬ t.Finds db r else t.Finds db row

variable {db : Database} {all : List Record} {row : Record} {t : Test}

/-- No test that asks for a property holds on a row without values. -/
theorem holdsOn_missing (h : t.comparator.isNegative = false) : t.holdsOn db .missing = false := by
  rw [holdsOn, if_neg (by rw [h]; exact Bool.false_ne_true), decide_eq_false_iff_not]
  rintro ⟨hkey, -⟩
  cases hkey

theorem holdsBeside_of_asks (h : t.comparator.isNegative = false) :
    t.holdsBeside db all row = t.holdsOn db row := by
  rw [holdsBeside, holdsOn, if_neg (by rw [h]; exact Bool.false_ne_true),
    if_neg (by rw [h]; exact Bool.false_ne_true)]

theorem holdsBeside_iff_of_denies (h : t.comparator.isNegative = true) :
    t.holdsBeside db all row = true ↔ ∀ r ∈ all, ¬ t.Finds db r := by
  rw [holdsBeside, if_pos h, decide_eq_true_iff]

theorem holdsBeside_of_denies {row' : Record} (h : t.comparator.isNegative = true) :
    t.holdsBeside db all row = t.holdsBeside db all row' := by
  rw [holdsBeside, holdsBeside, if_pos h, if_pos h]

end Test

/-! ## Criteria of a clause -/

/-- Whether a clause combines tests of named properties by conjunction and disjunction. -/
inductive Clause.OnProperties : Clause → Prop
  | test {t : Test} (h : t.NamesProperty) : OnProperties (.test t)
  | and {ms : List Clause} (h : ∀ m ∈ ms, OnProperties m) : OnProperties (.group .and ms)
  | or {ms : List Clause} (h : ∀ m ∈ ms, OnProperties m) : OnProperties (.group .or ms)

/-- The criterion of a test that reads the properties of items at the occurrence with a number. -/
def Test.criterionAt (n : Nat) (t : Test) : Criterion :=
  .property [.items, .properties] t.key ⟨.nodeProps, n⟩ t.comparator (.text t.value.shown)

theorem Test.testsKey (n : Nat) (t : Test) :
    (t.criterionAt n).TestsKey t.key t.comparator t.value.shown :=
  ⟨.inl rfl, rfl, rfl, rfl⟩

namespace Clause

mutual

theorem OnProperties.namesProperty : ∀ {m : Clause}, m.OnProperties → ∀ t ∈ m.tests, t.NamesProperty
  | .test _, .test h, t, ht => by
    rw [List.mem_singleton.1 ht]
    exact h
  | .group _ _, .and h, t, ht => namesProperty_of_all h t ht
  | .group _ _, .or h, t, ht => namesProperty_of_all h t ht

theorem namesProperty_of_all : ∀ {ms : List Clause}, (∀ m ∈ ms, m.OnProperties) →
    ∀ t ∈ testsOfAll ms, t.NamesProperty
  | [], _, _, ht => by cases ht
  | _ :: _, h, t, ht => by
    rcases List.mem_append.1 ht with ht | ht
    · exact (h _ List.mem_cons_self).namesProperty t ht
    · exact namesProperty_of_all (fun m hm => h m (List.mem_cons_of_mem _ hm)) t ht

end

variable {now : Int} {n : Nat}

/-- In a clause on one property, the criterion of a test reads the shared occurrence. -/
theorem criterionOf_namesProperty {s : Draft} (hd : s.query.domain = .items)
    (hn : s.sharedId? = some n) {t : Test} (ht : t.NamesProperty) :
    s.criterionOf now t = .ok (t.criterionAt n, s) := by
  have hid : s.propertyId = (n, s) := by
    rw [Draft.propertyId, hn]
  have hvalue : t.value.asText = .text t.value.shown := by
    cases hl : t.value with
    | null => exact absurd hl ht.value
    | text | number | truth => rfl
  have hask : t.comparator.positive.CanAsk t.value.asText := by
    rw [hvalue]
    rcases ht.comparator with hasks | hdenies
    · exact ⟨hasks.positive_eq.symm ▸ hasks, .inl ⟨_, rfl⟩⟩
    · exact ⟨hdenies.asks_positive, .inl ⟨_, rfl⟩⟩
  -- Neither the key nor the value is the text that stands for any.
  have hproperty : Criterion.ofProperty [.items, .properties] (.propertyKey, .propertyValue)
      t.key ⟨.nodeProps, n⟩ t.comparator t.value.asText = t.criterionAt n := by
    rw [Criterion.ofProperty, if_neg ht.key, hvalue, if_neg]
    · rfl
    · rintro ⟨hshown, -⟩
      exact ht.shown (Value.text.inj hshown)
  have hnamed : s.criterionOf now (.named t.key t.comparator t.value) = .ok _ :=
    (Draft.criterionOf_named (o := .items) hd ht.comparator).2 ⟨hask, rfl, rfl⟩
  rw [ht.named_eq, hid] at hnamed
  rw [hnamed, ← hproperty]
  rfl

mutual

/-- A clause on properties becomes criteria on the shared occurrence, and no number is used up. -/
theorem build_eq : ∀ {m : Clause}, m.OnProperties → ∀ {s : Draft}, s.query.domain = .items →
    s.sharedId? = some n → m.build now s = .ok (m.mapped (Test.criterionAt n), s.nextId)
  | .test _, .test h, s, hd, hn => by
    rw [build, criterionOf_namesProperty hd hn h]
    rfl
  | .group _ _, .and h, s, hd, hn => by
    rw [build, buildAll_eq h (s := s.inside .and) hd hn]
    rfl
  | .group _ _, .or h, s, hd, hn => by
    rw [build, buildAll_eq h (s := s.inside .or) hd hn]
    rfl

theorem buildAll_eq : ∀ {ms : List Clause}, (∀ m ∈ ms, m.OnProperties) → ∀ {s : Draft},
    s.query.domain = .items → s.sharedId? = some n →
      buildAll now s ms = .ok (mappedAll (Test.criterionAt n) ms, s.nextId)
  | [], _, _, _, _ => rfl
  | _ :: _, h, s, hd, hn => by
    have hfirst := build_eq (h _ List.mem_cons_self) hd hn
    have hrest := buildAll_eq (fun m hm => h m (List.mem_cons_of_mem _ hm)) (s := s) hd hn
    exact buildAll_cons_eq_ok.2 ⟨_, _, _, hfirst, hrest, rfl⟩

end

/-- A clause on one property of items, alone in a query, shares the first number. -/
theorem buildAll_sameProperty {ms : List Clause} (h : ∀ m ∈ ms, m.OnProperties) :
    buildAll now (.start .items) [.group .sameProperty ms] =
      .ok ([.group .sameProperty (mappedAll (Test.criterionAt firstDynamicId) ms)],
        firstDynamicId + 1) := by
  have hmembers : buildAll now ((Draft.start .items).inside .sameProperty) ms = .ok _ :=
    buildAll_eq h rfl rfl
  refine buildAll_cons_eq_ok.2 ⟨_, _, _, ?_, rfl, rfl⟩
  rw [build, hmembers]
  rfl

end Clause

/-! ## Planning for the shared occurrence -/

namespace Sql

/-- The plan in which the properties of items are joined under a number. -/
def JoinPlan.withProperties (p : JoinPlan) (n : Nat) : JoinPlan :=
  if ⟨.nodeProps, n⟩ ∈ p.occurrences then p
  else { p with joins := p.joins ++ [⟨⟨.nodeProps, n⟩, "node_id", p.main, "node_id"⟩] }

namespace JoinPlan

variable {p : JoinPlan} {n : Nat} {t : Test}

@[simp] theorem withProperties_main (p : JoinPlan) (n : Nat) :
    (p.withProperties n).main = p.main := by
  rw [withProperties]
  split <;> rfl

theorem mem_occurrences_withProperties (p : JoinPlan) (n : Nat) :
    ⟨.nodeProps, n⟩ ∈ (p.withProperties n).occurrences := by
  rw [withProperties]
  split
  · assumption
  · rw [occurrences, List.map_append]
    exact List.mem_cons_of_mem _ (List.mem_append_right _ (List.mem_singleton_self _))

/-- Joining the properties again changes nothing. -/
theorem withProperties_withProperties (p : JoinPlan) (n : Nat) :
    (p.withProperties n).withProperties n = p.withProperties n :=
  if_pos (p.mem_occurrences_withProperties n)

theorem join_properties (hp : p.main = .plain .nodes) (n : Nat) :
    p.join p.main ⟨.nodeProps, n⟩ = .ok (p.withProperties n) := by
  rw [join, withProperties]
  split
  · rfl
  · rw [hp]
    rfl

/-- A test that asks for a property reads the shared occurrence, joined to the items. -/
theorem forCriterion_of_asks (hp : p.main = .plain .nodes) (hn : n ≠ 0)
    (ht : t.comparator.isNegative = false) :
    p.forCriterion (t.criterionAt n) = .ok (⟨⟨.nodeProps, n⟩, none⟩, p.withProperties n) := by
  have hnot : ¬ ((t.criterionAt n).kind.namesKey = true ∧
      (t.criterionAt n).comparator.isNegative = true) := by
    rintro ⟨-, hneg⟩
    exact Bool.false_ne_true (ht.symm.trans hneg)
  exact forCriterion_of_join (o := .items) rfl rfl rfl hnot hn (join_properties hp n)

theorem forCriterion_of_denies (hn : n ≠ 0) (ht : t.comparator.isNegative = true) :
    p.forCriterion (t.criterionAt n) = .ok (⟨⟨.nodeProps, n⟩, some p.main⟩, p) :=
  forCriterion_denied (o := .items) ht hn

end JoinPlan

end Sql

/-! ## What the pieces say -/

namespace Sql.Database

/-- The property rows of an item. -/
def propertiesOf (db : Database) (item : Record) : List Record :=
  (db.rows .nodeProps).filter fun row => row "node_id" = item "node_id"

/-- The rows that a join with the properties puts beside an item. -/
def besideItem (db : Database) (item : Record) : List Record :=
  if db.propertiesOf item = [] then [.missing] else db.propertiesOf item

theorem mem_propertiesOf {db : Database} {item row : Record} : row ∈ db.propertiesOf item ↔
    row ∈ db.rows .nodeProps ∧ row "node_id" = item "node_id" :=
  mem_ownedBy (o := .items)

theorem besideItem_ne_nil (db : Database) (item : Record) : db.besideItem item ≠ [] := by
  rw [besideItem]
  split
  · exact List.cons_ne_nil _ _
  · assumption

end Sql.Database

/-- Criteria read the occurrence that they name, and its properties belong to the items that the
statement returns. -/
def Places.ofItems : Places := fun _ o => (o.id, some (.plain .nodes))

section Pieces

variable {db : Database} {rows : Combination} {v : Criterion → Bool} {n : Nat} {t : Test}
  {p : JoinPlan}

/-- The value of a test on the rows that its criterion reads. -/
theorem judged_criterionAt (ht : t.NamesProperty)
    (hitem : rows (.plain .nodes) "node_id" ≠ .null)
    (hprops : ∀ row ∈ db.rows .nodeProps, row "node_id" ≠ .null) :
    (t.criterionAt n).judged db rows .ofItems v =
      t.holdsBeside db (db.propertiesOf (rows (.plain .nodes))) (rows ⟨.nodeProps, n⟩) := by
  rw [Bool.eq_iff_iff]
  rcases ht.comparator with hasks | hdenies
  · rw [Criterion.judged_of_asks (t.testsKey n) hasks, Test.holdsBeside, hasks.isNegative_eq,
      if_neg Bool.false_ne_true, decide_eq_true_iff, Test.Finds, hasks.positive_eq]
    rfl
  · rw [Criterion.judged_of_denies (t.testsKey n) hdenies,
      Test.holdsBeside_iff_of_denies hdenies.isNegative_eq]
    constructor
    · rintro ⟨link, hlink, hall⟩ row hrow ⟨hkey, hfits⟩
      cases hlink
      obtain ⟨hmem, howner⟩ := Database.mem_propertiesOf.1 hrow
      exact (hall row hmem hkey hfits).2.2 howner.symm
    · intro hall
      refine ⟨("node_id", "node_id"), rfl, fun row hrow hkey hfits => ?_⟩
      refine ⟨hitem, hprops row hrow, fun howner => ?_⟩
      exact hall row (Database.mem_propertiesOf.2 ⟨hrow, howner.symm⟩) ⟨hkey, hfits⟩

namespace Sql.Selection

/-- The criterion of a test becomes a condition with its value; the shared occurrence is joined if
the test asks for a property. -/
theorem pieceOf_criterionAt (hp : p.main = .plain .nodes) (hn : n ≠ 0) (ht : t.NamesProperty) :
    ∃ k, pieceOf p (.criterion (t.criterionAt n)) =
        .ok (.condition k, if t.comparator.isNegative then p else p.withProperties n) ∧
      ∀ db rows, k.holds db rows .missing = (t.criterionAt n).judged db rows .ofItems v := by
  rcases ht.comparator with hasks | hdenies
  · obtain ⟨k, hk, hholds⟩ := (t.testsKey n).render_asked hasks ⟨.nodeProps, n⟩ none
    refine ⟨k, ?_, fun db rows => ?_⟩
    · rw [pieceOf, JoinPlan.forCriterion_of_asks hp hn hasks.isNegative_eq, ok_bind]
      dsimp only
      rw [hk, hasks.isNegative_eq]
      rfl
    · rw [Bool.eq_iff_iff, hholds, Criterion.judged_of_asks (t.testsKey n) hasks]
      rfl
  · obtain ⟨k, hk, -⟩ :=
      (t.testsKey n).render_denied hdenies ⟨.nodeProps, n⟩ (some (.plain .nodes)) rfl
    refine ⟨k, ?_, fun db rows => ?_⟩
    · rw [pieceOf, JoinPlan.forCriterion_of_denies hn hdenies.isNegative_eq, ok_bind, hp]
      dsimp only
      rw [hk, hdenies.isNegative_eq]
      rfl
    · exact (Criterion.judged_of_render (p := .ofItems) (t.testsKey n).ne_simple hk).symm

/-- Planning for criteria on the shared occurrence: it is joined at most once, and it is joined
unless all criteria deny. -/
theorem piecesOf_eq (hn : n ≠ 0) {es : List Element} : ∀ {p : JoinPlan}, p.main = .plain .nodes →
    (∀ c, .criterion c ∈ es → ∃ t : Test, t.NamesProperty ∧ c = t.criterionAt n) →
    ∃ pieces p', piecesOf p es = .ok (pieces, p') ∧
      (p' = p.withProperties n ∨
        p' = p ∧ ∀ c, .criterion c ∈ es → c.comparator.isNegative = true) ∧
      ∀ db rows, List.Forall₂ (Piece.Reads (Criterion.judged db rows .ofItems v)
        (Condition.holds db rows .missing)) es pieces := by
  -- The invariant is that the plan has the shared occurrence or is still the one at the start. As
  -- long as it is, only denials were planned.
  induction es with
  | nil =>
    intro p _ _
    refine ⟨[], p, rfl, .inr ⟨rfl, fun c hc => ?_⟩, fun _ _ => .nil⟩
    cases hc
  | cons e es ih =>
    intro p hp hes
    have hrest := fun c hc => hes c (List.mem_cons_of_mem e hc)
    cases e with
    | criterion c =>
      obtain ⟨t, ht, rfl⟩ := hes c List.mem_cons_self
      obtain ⟨k, hpiece, hholds⟩ := pieceOf_criterionAt (v := v) hp hn ht
      have hmain : (if t.comparator.isNegative then p else p.withProperties n).main =
          .plain .nodes := by
        split
        · exact hp
        · rw [JoinPlan.withProperties_main, hp]
      obtain ⟨pieces, p', hpieces, hplan, hreads⟩ := ih hmain hrest
      refine ⟨.condition k :: pieces, p', ?_, ?_, fun db rows =>
        .cons (.condition (hholds db rows)) (hreads db rows)⟩
      · rw [piecesOf, hpiece, ok_bind]
        dsimp only
        rw [hpieces]
        rfl
      · split at hplan
        · rename_i hnegative
          refine hplan.imp_right fun h => ⟨h.1, fun c hc => ?_⟩
          rcases List.mem_cons.1 hc with hc | hc
          · cases hc
            exact hnegative
          · exact h.2 c hc
        -- Joined for this criterion, the occurrence is there for all further ones.
        · rw [JoinPlan.withProperties_withProperties] at hplan
          exact .inl (hplan.elim id fun h => h.1)
    | and | or | openParen | closeParen =>
      obtain ⟨pieces, p', hpieces, hplan, hreads⟩ := ih hp hrest
      refine ⟨_ :: pieces, p', ?_, hplan.imp_right fun h => ⟨h.1, fun c hc => ?_⟩,
        fun db rows => .cons (by constructor) (hreads db rows)⟩
      · rw [piecesOf, pieceOf, ok_bind]
        dsimp only
        rw [hpieces]
        rfl
      · rcases List.mem_cons.1 hc with hc | hc
        · cases hc
        · exact h.2 c hc

end Sql.Selection

end Pieces

/-! ## The statement of a clause on one property -/

namespace Clause

/-- The elements of a query whose only filter is a clause on one property. -/
def onOneProperty (ms : List Clause) : List Element :=
  Filter.flatOfAll .and [.group .sameProperty (mappedAll (Test.criterionAt firstDynamicId) ms)]

theorem criteria_onOneProperty (ms : List Clause) : Element.criteria (onOneProperty ms) =
    (testsOfAll ms).map (Test.criterionAt firstDynamicId) := by
  rw [onOneProperty, Filter.criteria_flatOfAll _ _ rfl, ← criteria_mappedAll]
  exact List.append_nil _

theorem satisfied_onOneProperty (v : Criterion → Bool) (ms : List Clause) :
    Element.satisfied v (onOneProperty ms) =
      allHold (fun t => v (t.criterionAt firstDynamicId)) ms := by
  rw [onOneProperty, Filter.satisfied_flatOfAll_and, ← allHold_mapped, Filter.allHold,
    Filter.allHold, Bool.and_true]
  by_cases hms : Filter.criteriaOfAll (mappedAll (Test.criterionAt firstDynamicId) ms) = []
  · rw [Filter.allHold_of_criteria_eq_nil v _ hms]
    simp [Filter.criteria, hms]
  · simp [Filter.criteria, hms, Filter.value]

/-- The criteria among the elements are those of the tests. -/
theorem mem_onOneProperty {ms : List Clause} {c : Criterion} :
    .criterion c ∈ onOneProperty ms ↔ ∃ t ∈ testsOfAll ms, t.criterionAt firstDynamicId = c := by
  rw [← Element.mem_criteria, criteria_onOneProperty, List.mem_map]

theorem namesProperty_of_mem_onOneProperty {ms : List Clause} (hms : ∀ m ∈ ms, m.OnProperties)
    (c : Criterion) (hc : .criterion c ∈ onOneProperty ms) :
    ∃ t : Test, t.NamesProperty ∧ c = t.criterionAt firstDynamicId := by
  obtain ⟨t, ht, rfl⟩ := mem_onOneProperty.1 hc
  exact ⟨t, namesProperty_of_all hms t ht, rfl⟩

end Clause

section Statement

variable {now : Int} {f : FluentQuery} {ms : List Clause} {q : Query} {s : Selection}
  {db : Database} {item : Record}

theorem elements_of_sameProperty (hd : f.domain = .items)
    (hf : f.filters = [.group .sameProperty ms]) (hms : ∀ m ∈ ms, m.OnProperties)
    (hq : Query.ofFluent now f = .ok q) :
    q.domain = .items ∧ q.elements = Clause.onOneProperty ms := by
  have hbuild : Clause.buildAll now (.start .items) [.group .sameProperty ms] = .ok _ :=
    Clause.buildAll_sameProperty hms
  rw [← hd, ← hf] at hbuild
  obtain ⟨hdomain, helements⟩ := Query.flat_of_ofFluent hbuild hq
  exact ⟨hdomain.trans hd, helements⟩

/-- The join of the shared occurrence. -/
def propertiesJoin : Join := ⟨⟨.nodeProps, firstDynamicId⟩, "node_id", .plain .nodes, "node_id"⟩

/-- What the plan of such a query is: the shared occurrence is the last one joined, or all tests
deny. -/
theorem joins_of_sameProperty (hq : q.domain = .items ∧ q.elements = Clause.onOneProperty ms)
    (hms : ∀ m ∈ ms, m.OnProperties) (hs : Selection.ofQuery q = .ok s) :
    ∃ js, (∀ j ∈ js, j.occurrence ≠ .plain .nodes) ∧ s.joins.main = .plain .nodes ∧
      (s.joins.joins = js ++ [propertiesJoin] ∨
        s.joins.joins = js ∧ ∀ t ∈ Clause.testsOfAll ms, t.comparator.isNegative = true) ∧
      ∀ db rows, List.Forall₂ (Piece.Reads (Criterion.judged db rows .ofItems fun _ => false)
        (Condition.holds db rows .missing)) q.elements s.condition := by
  obtain ⟨p, hitems, hpieces⟩ := Selection.ofQuery_eq_ok hs
  obtain ⟨hmain, hp⟩ := Selection.follows_addItems (JoinPlan.follows_start _) hitems
  rw [hq.1] at hmain
  change p.main = .plain .nodes at hmain
  have hcriteria := Clause.namesProperty_of_mem_onOneProperty hms
  rw [← hq.2] at hcriteria
  obtain ⟨pieces, p', hplanned, hplan, hreads⟩ :=
    Selection.piecesOf_eq (v := fun _ => false) (by decide) hmain hcriteria
  cases hplanned.symm.trans hpieces
  refine ⟨p.joins, fun j hj => ?_, ?_, hplan.imp (fun h => ?_) (fun h => ⟨?_, fun t ht => ?_⟩),
    hreads⟩
  · rw [← hmain]
    exact hp.notMain j hj
  · rcases hplan with h | ⟨h, -⟩
    · rw [h, JoinPlan.withProperties_main, hmain]
    · rw [h, hmain]
  -- The items are planned before any criterion, so they have no dynamic number yet.
  · have hnot : ⟨.nodeProps, firstDynamicId⟩ ∉ p.occurrences := by
      rw [← hp.firstHop?_isSome (Nat.le_refl _)]
      exact Bool.false_ne_true
    rw [h, JoinPlan.withProperties, if_neg hnot, hmain]
    rfl
  · rw [h.1]
  · have hmem : .criterion (t.criterionAt firstDynamicId) ∈ q.elements := by
      rw [hq.2]
      exact Clause.mem_onOneProperty.2 ⟨t, ht, rfl⟩
    exact h.2 _ hmem

theorem options_propertiesJoin {rows : Combination}
    (hitem : rows (.plain .nodes) "node_id" ≠ .null) :
    propertiesJoin.options db rows = db.besideItem (rows (.plain .nodes)) :=
  Join.options_eq hitem

/-- An item is returned if the clause holds on a row beside it, where denials are of all its
properties. -/
theorem returns_sameProperty (hd : f.domain = .items) (hf : f.filters = [.group .sameProperty ms])
    (hms : ∀ m ∈ ms, m.OnProperties) (hq : Query.ofFluent now f = .ok q)
    (hs : Selection.ofQuery q = .ok s) (hitem : item "node_id" ≠ .null)
    (hprops : ∀ row ∈ db.rows .nodeProps, row "node_id" ≠ .null) :
    s.returns db item = true ↔ ∃ row ∈ db.besideItem item,
      Clause.allHold (Test.holdsBeside db (db.propertiesOf item) row) ms = true := by
  have hquery := elements_of_sameProperty hd hf hms hq
  obtain ⟨js, hjs, hmain, hjoins, hreads⟩ := joins_of_sameProperty hquery hms hs
  have hstart : s.joins.alone item (.plain .nodes) = item := by
    rw [← hmain]
    exact s.joins.alone_main item
  have hall : ∀ j ∈ s.joins.joins, j.occurrence ≠ .plain .nodes := by
    rcases hjoins with hjoins | ⟨hjoins, -⟩
    · rw [hjoins, List.forall_mem_append, List.forall_mem_singleton]
      exact ⟨hjs, by decide⟩
    · rw [hjoins]
      exact hjs
  -- The joins never touch the occurrence of the item, so every combination still has it there.
  have hsatisfied : ∀ rows ∈ combinations db s.joins.joins (s.joins.alone item),
      Piece.satisfied (Condition.holds db rows .missing) s.condition =
        Clause.allHold (Test.holdsBeside db (db.propertiesOf item)
          (rows propertiesJoin.occurrence)) ms := by
    intro rows hrows
    have hitem' : rows (.plain .nodes) = item := (apply_of_mem_combinations hall hrows).trans hstart
    rw [Piece.satisfied_pieces (hreads db rows), hquery.2, Clause.satisfied_onOneProperty]
    refine Clause.allHold_congr ms fun t ht => ?_
    rw [judged_criterionAt (Clause.namesProperty_of_all hms t ht) (hitem' ▸ hitem) hprops, hitem']
    rfl
  have hreturns : s.returns db item = true ↔
      ∃ rows ∈ combinations db s.joins.joins (s.joins.alone item),
        Clause.allHold (Test.holdsBeside db (db.propertiesOf item)
          (rows propertiesJoin.occurrence)) ms = true := by
    rw [Selection.returns_iff]
    refine exists_congr fun rows => and_congr_right fun hrows => ?_
    rw [hsatisfied rows hrows]
  rw [hreturns]
  -- Either the shared occurrence is joined last, and its rows are those beside the item, or nothing
  -- joins it.
  rcases hjoins with hjoins | ⟨-, hdenies⟩
  · have hlast := exists_mem_combinations_concat db (s.joins.alone item) (j := propertiesJoin) hjs
      fun row => Clause.allHold (Test.holdsBeside db (db.propertiesOf item) row) ms = true
    rw [options_propertiesJoin (by rw [hstart]; exact hitem), hstart] at hlast
    rw [hjoins]
    exact hlast
  · -- No test reads the row beside the item, so any row will do.
    have hany : ∀ row row', Clause.allHold (Test.holdsBeside db (db.propertiesOf item) row) ms =
        Clause.allHold (Test.holdsBeside db (db.propertiesOf item) row') ms := fun row row' =>
      Clause.allHold_congr ms fun t ht => Test.holdsBeside_of_denies (hdenies t ht)
    constructor
    · rintro ⟨rows, -, hholds⟩
      obtain ⟨row, hrow⟩ := List.exists_mem_of_ne_nil _ (db.besideItem_ne_nil item)
      exact ⟨row, hrow, (hany row _).trans hholds⟩
    · rintro ⟨row, -, hholds⟩
      obtain ⟨rows, hrows⟩ := List.exists_mem_of_ne_nil _
        (combinations_ne_nil db s.joins.joins (s.joins.alone item))
      exact ⟨rows, hrows, (hany _ row).trans hholds⟩

/-- Such a query with nothing else set becomes a statement. -/
theorem exists_selection (now : Int) (hms : ∀ m ∈ ms, m.OnProperties) :
    ∃ q s, Query.ofFluent now { domain := .items, filters := [.group .sameProperty ms] } = .ok q ∧
      Selection.ofQuery q = .ok s := by
  have hbuild : Clause.buildAll now (.start .items) [.group .sameProperty ms] = .ok _ :=
    Clause.buildAll_sameProperty hms
  obtain ⟨pieces, p, hpieces, -⟩ := Selection.piecesOf_eq (v := fun _ => false)
    (p := .start .nodes) (by decide) rfl (Clause.namesProperty_of_mem_onOneProperty hms)
  obtain ⟨q, s, hs, hq⟩ := exists_selection_of_filters (o := .items) hbuild hpieces
  exact ⟨q, s, hq, hs⟩

/-- Tests that all ask hold on one of the properties, if they hold on a row beside the item. -/
theorem exists_besideItem_iff (hasks : ∀ t ∈ Clause.testsOfAll ms, t.comparator.isNegative = false)
    (htests : Clause.testsOfAll ms ≠ []) :
    (∃ row ∈ db.besideItem item,
        Clause.allHold (Test.holdsBeside db (db.propertiesOf item) row) ms = true) ↔
      ∃ row ∈ db.propertiesOf item, Clause.allHold (Test.holdsOn db row) ms = true := by
  have hsame : ∀ row, Clause.allHold (Test.holdsBeside db (db.propertiesOf item) row) ms =
      Clause.allHold (Test.holdsOn db row) ms := fun row =>
    Clause.allHold_congr ms fun t ht => Test.holdsBeside_of_asks (hasks t ht)
  have hmissing : Clause.allHold (Test.holdsOn db .missing) ms = false :=
    Clause.allHold_eq_false ms (fun t ht => Test.holdsOn_missing (hasks t ht)) htests
  simp only [hsame]
  exact Join.exists_mem_or_missing (Bool.eq_false_iff.1 hmissing)

end Statement

/-! ## One property -/

/-- A query for items with a clause on one property becomes a statement, and it returns the items of
which the clause holds on a row beside them: what is asked for is asked of that row alone, and what
is denied is denied of all properties of the item. So it returns the items with a property on which
the clause holds, if the clause has tests and all of them ask. -/
theorem sameProperty_exact {f : FluentQuery} {ms : List Clause} (hd : f.domain = .items)
    (hf : f.filters = [.group .sameProperty ms]) (hms : ∀ m ∈ ms, m.OnProperties) (now : Int) :
    (∃ q s, Query.ofFluent now { domain := .items, filters := f.filters } = .ok q ∧
      Selection.ofQuery q = .ok s) ∧
    ∀ q s, Query.ofFluent now f = .ok q → Selection.ofQuery q = .ok s →
      ∀ (db : Database) (item : Record), item "node_id" ≠ .null →
      (∀ row ∈ db.rows .nodeProps, row "node_id" ≠ .null) →
      (s.returns db item = true ↔ ∃ row ∈ db.besideItem item,
        Clause.allHold (Test.holdsBeside db (db.propertiesOf item) row) ms = true) ∧
      ((∀ t ∈ Clause.testsOfAll ms, t.comparator.isNegative = false) →
        Clause.testsOfAll ms ≠ [] → (s.returns db item = true ↔
          ∃ row ∈ db.propertiesOf item, Clause.allHold (Test.holdsOn db row) ms = true)) := by
  refine ⟨?_, fun q s hq hs db item hitem hprops => ?_⟩
  · rw [hf]
    exact exists_selection now hms
  · have hreturns := returns_sameProperty hd hf hms hq hs hitem hprops
    exact ⟨hreturns, fun hasks htests => hreturns.trans (exists_besideItem_iff hasks htests)⟩

/-- A test of the license. -/
def Test.license (cmp : Comparator) (s : String) : Test := ⟨"@license", cmp, .text s⟩

theorem Test.key_license (cmp : Comparator) (s : String) : (license cmp s).key = "license" := by
  show String.ofList ("@license".toList.drop 1) = "license"
  decide

theorem Test.namesProperty_license {cmp : Comparator} {s : String} (hcmp : cmp.Asks ∨ cmp.Denies)
    (hs : s ≠ "*") : (license cmp s).NamesProperty where
  path := by
    show "@license".toList.head? = some '@'
    decide
  key := by
    rw [key_license]
    decide
  comparator := hcmp
  value := Literal.noConfusion
  shown := hs

theorem Test.finds_license {db : Database} {cmp : Comparator} {s value : String}
    (h : cmp.positive = .equals) :
    (license cmp s).Finds db (.ofProperty 1 "license" (.text value)) ↔ value = s := by
  rw [Finds, key_license, show (license cmp s).comparator.positive = .equals from h]
  constructor
  · rintro ⟨-, htext⟩
    exact Cell.text.inj htext
  · rintro rfl
    exact ⟨rfl, rfl⟩

/-- One of two licenses. -/
def Clause.eitherLicense : List Clause :=
  [.group .or [.test (.license .equals "MIT"), .test (.license .equals "BSD")]]

/-- A license that is not another one. -/
def Clause.notBothLicenses : List Clause :=
  [.test (.license .equals "GPL-2.0"), .test (.license .notEquals "LGPL")]

theorem sameProperty_exact_eitherLicense :
    (∀ m ∈ Clause.eitherLicense, m.OnProperties) ∧
    ∃ q s, Query.ofFluent 0
          { domain := .items, filters := [.group .sameProperty Clause.eitherLicense] } = .ok q ∧
        Selection.ofQuery q = .ok s ∧
      s.returns (.licensed ["GPL-2.0", "BSD"]) (.ofItem 1) = true := by
  have hms : ∀ m ∈ Clause.eitherLicense, m.OnProperties := by
    intro m hm
    rw [List.mem_singleton.1 hm]
    refine .or (List.forall_mem_cons.2 ⟨?_, List.forall_mem_singleton.2 ?_⟩)
    · exact .test (Test.namesProperty_license (.inl (.inl rfl)) (by decide))
    · exact .test (Test.namesProperty_license (.inl (.inl rfl)) (by decide))
  obtain ⟨⟨q, s, hq, hs⟩, hall⟩ := sameProperty_exact
    (f := { domain := .items, filters := [.group .sameProperty Clause.eitherLicense] })
    rfl rfl hms 0
  have hitem : Record.ofItem 1 "node_id" ≠ .null := by
    decide
  refine ⟨hms, q, s, hq, hs, ?_⟩
  obtain ⟨-, hasked⟩ := hall q s hq hs _ _ hitem Sql.Database.node_id_licensed
  refine (hasked (by decide) (by decide)).2 ?_
  refine ⟨.ofProperty 1 "license" (.text "BSD"), ?_, ?_⟩
  · exact Sql.Database.mem_ownedBy_licensed.2 ⟨"BSD", by decide, rfl⟩
  · decide

/-- The item has the license that is asked for, and it has the denied one as well. -/
theorem not_sameProperty_twoLicenses :
    (∃ q s, Query.ofFluent 0
          { domain := .items, filters := [.group .sameProperty Clause.notBothLicenses] } = .ok q ∧
        Selection.ofQuery q = .ok s ∧
        s.returns (.licensed ["GPL-2.0", "LGPL"]) (.ofItem 1) = false) ∧
      ∃ row ∈ (Database.licensed ["GPL-2.0", "LGPL"]).propertiesOf (.ofItem 1),
        Clause.allHold (Test.holdsOn (.licensed ["GPL-2.0", "LGPL"]) row)
          Clause.notBothLicenses = true := by
  have hms : ∀ m ∈ Clause.notBothLicenses, m.OnProperties := by
    refine List.forall_mem_cons.2 ⟨?_, List.forall_mem_singleton.2 ?_⟩
    · exact .test (Test.namesProperty_license (.inl (.inl rfl)) (by decide))
    · exact .test (Test.namesProperty_license (.inr (.inl rfl)) (by decide))
  have hitem : Record.ofItem 1 "node_id" ≠ .null := by
    decide
  have hvalue : ∀ v : Test → Bool, Clause.allHold v Clause.notBothLicenses =
      (v (.license .equals "GPL-2.0") && (v (.license .notEquals "LGPL") && true)) := fun v => rfl
  constructor
  · obtain ⟨q, s, hq, hs⟩ := exists_selection 0 hms
    refine ⟨q, s, hq, hs, ?_⟩
    rw [Bool.eq_false_iff, Ne,
      returns_sameProperty rfl rfl hms hq hs hitem Sql.Database.node_id_licensed]
    rintro ⟨row, -, hholds⟩
    rw [hvalue, Bool.and_true, Bool.and_eq_true] at hholds
    -- The denial looks at all properties of the item, the other license included.
    have hdenied := (Test.holdsBeside_iff_of_denies rfl).1 hholds.2
    refine hdenied (.ofProperty 1 "license" (.text "LGPL")) ?_ ?_
    · exact Sql.Database.mem_ownedBy_licensed.2 ⟨"LGPL", by decide, rfl⟩
    · exact (Test.finds_license rfl).2 rfl
  · refine ⟨.ofProperty 1 "license" (.text "GPL-2.0"), ?_, ?_⟩
    · exact Sql.Database.mem_ownedBy_licensed.2 ⟨"GPL-2.0", by decide, rfl⟩
    · decide

end ArtifactQuery
