import ArtifactQuery.Compilation
import ArtifactQuery.Proofs.Policies
import ArtifactQuery.Proofs.Writing

/-!
# Numbers of criteria

A criterion that is reached over several tables reads an occurrence with a number of its own, which
no shared occurrence has.

* `Criterion.Placed`: the path starts at the domain, the criterion compares in the table that it
  reads, and several tables on the way imply a number for criteria.
* `Draft.Sound`: numbers handed out are for criteria, and all criteria so far are placed.
* `sound_addTest`, `sound_openClause`, `sound_closeClause`: each step of writing keeps this.
* `Draft.Keeps`: what each step of writing keeps, and with `keeps_writeCriteria` and
  `keeps_writeAll` whole conditions.
* `Query.Described`: the queries that texts and fluent queries describe; their criteria are placed.
* `placed_of_mem_compiled`: they still are under policies and in a dialect.
-/

namespace ArtifactQuery

/-! ## Placed criteria -/

/-- Whether a criterion is placed as criteria on `d` are. -/
structure Criterion.Placed (d : Domain) (c : Criterion) : Prop where
  mainDomain : c.mainDomain? = some d
  compares : c.ComparesOwn
  numbered : (tableChain c.path c.leftTable.table).length = 1 ∨ firstDynamicId ≤ c.leftTable.id

namespace Criterion

variable {d : Domain} {c c' : Criterion}

theorem Placed.of_inPlaceOf (h : c.Placed d) (h' : c'.InPlaceOf c) : c'.Placed d where
  mainDomain := by
    rw [mainDomain?, h'.path]
    exact h.mainDomain
  compares := h'.compares h.compares
  numbered := by
    rw [h'.path, h'.leftTable]
    exact h.numbered

theorem Added.placed (h : c.Added d) : c.Placed d := by
  refine ⟨h.mainDomain, ?_, ?_⟩
  · rcases h with h | ⟨n, hn, h⟩ <;> exact h.compares
  · rcases h with h | ⟨n, hn, h⟩
    · left
      rw [h.path, h.leftTable]
      show (tableChain [d] d.table).length = 1
      simp [tableChain]
    · right
      rw [h.leftTable]
      exact hn

/-- The key and the value field of a domain of properties are stored in its table. -/
theorem table_of_keyAndValue? {own : Domain} {fields : Field × Field}
    (h : own.keyAndValue? = some fields) :
    fields.1.column.table = own.table ∧ fields.2.column.table = own.table := by
  cases own <;> cases h <;> exact ⟨rfl, rfl⟩

theorem compares_simple (path : List Domain) (f : Field) (n : Nat) (cmp : Comparator)
    (v : Value) : (simple path f ⟨f.column.table, n⟩ cmp v).ComparesOwn := by
  intro t ht
  cases ht
  rfl

theorem compares_ofProperty {own : Domain} {fields : Field × Field}
    (h : own.keyAndValue? = some fields) (path : List Domain) (key : String) (n : Nat)
    (cmp : Comparator) (v : Value) :
    (ofProperty path fields key ⟨own.table, n⟩ cmp v).ComparesOwn := by
  obtain ⟨hkey, hvalue⟩ := table_of_keyAndValue? h
  rw [ofProperty]
  split
  · rw [← hvalue]
    exact compares_simple _ _ _ _ _
  split
  · rw [← hkey]
    exact compares_simple _ _ _ _ _
  · intro t ht
    cases ht
    rfl

end Criterion

/-! ## Numbers handed out -/

namespace Draft

variable {now : Int} {s s' : Draft} {t : Test} {c : Criterion}

/-- Whether the numbers that a draft hands out are numbers of criteria. -/
structure Numbers (s : Draft) : Prop where
  nextId : firstDynamicId ≤ s.nextId
  clauses : ∀ o ∈ s.clauses, ∀ n, o.id? = some n → firstDynamicId ≤ n

theorem Numbers.le_of_sharedId? (h : s.Numbers) {n : Nat} (hn : s.sharedId? = some n) :
    firstDynamicId ≤ n := by
  obtain ⟨o, ho, hid⟩ := List.exists_of_findSome?_eq_some hn
  exact h.clauses o ho n hid

theorem Numbers.of_supplies (h : s.Numbers) {t : Table} {n : Nat} (hn : s.Supplies t n s') :
    firstDynamicId ≤ n ∧ s'.Numbers := by
  cases hn with
  | shared n _ hn => exact ⟨h.le_of_sharedId? hn, h⟩
  | new => exact ⟨h.nextId, Nat.le_succ_of_le h.nextId, h.clauses⟩

theorem compares_of_criterionOf (h : s.criterionOf now t = .ok (c, s')) : c.ComparesOwn := by
  rcases criterionOf_cases now s t with ⟨key, -, hcase⟩ | ⟨-, hcase⟩ <;> rw [hcase] at h
  · obtain ⟨own, fields, v, -, hfields, -, -, -, rfl, -⟩ := propertyCriterion_eq_ok.1 h
    exact Criterion.compares_ofProperty hfields _ _ _ _ _
  · obtain ⟨f, cmp, v, -, -, -, rfl, -⟩ := fieldCriterion_eq_ok.1 h
    exact Criterion.compares_simple _ _ _ _ _

/-- The criterion of a test is placed. -/
theorem Numbers.criterionOf (hs : s.Numbers) (h : s.criterionOf now t = .ok (c, s')) :
    c.Placed s.query.domain ∧ s'.Numbers := by
  have hmain := criterionOf_mainDomain h
  have hcompares := compares_of_criterionOf h
  rcases supplies_of_criterionOf h with ⟨hone, rfl, -⟩ | hsupplies
  · exact ⟨⟨hmain, hcompares, .inl hone⟩, hs⟩
  · obtain ⟨hid, hnumbers⟩ := hs.of_supplies hsupplies
    exact ⟨⟨hmain, hcompares, .inr hid⟩, hnumbers⟩

/-! ## Steps of writing -/

/-- A connective in front of the next operand is no criterion. -/
theorem criteria_ready (s : Draft) : Element.criteria s.ready = s.query.criteria := by
  rw [ready]
  split
  · have hjoiner : s.joiner.criterion? = none := by
      rw [joiner]
      cases s.clauses with
      | nil => rfl
      | cons o _ => cases o <;> rfl
    rw [Element.criteria_append, Element.criteria_cons_of_none hjoiner, Element.criteria_nil,
      List.append_nil]
    rfl
  · rfl

/-- Adding a test writes its criterion behind the others. -/
theorem addTest_eq_ok (h : s.addTest now t = .ok s') : ∃ c s₁ n es,
    s.criterionOf now t = .ok (c, s₁) ∧ s₁.nextId = n ∧
      s' = (s.withElements es).renumbered n ∧ Element.criteria es = s.query.criteria ++ [c] := by
  rw [addTest] at h
  obtain ⟨⟨c, s₁⟩, hc, h⟩ := bind_eq_ok.1 h
  cases h
  obtain ⟨n, rfl⟩ := criterionOf_frame hc
  refine ⟨c, _, n, s.ready ++ [.criterion c], hc, rfl, ?_, ?_⟩
  · rw [addCriterion_eq, extended_of_ne_nil (List.cons_ne_nil _ _)]
    rfl
  · rw [Element.criteria_append, criteria_ready]
    rfl

theorem openClause_query (s : Draft) (k : Connective) :
    (s.openClause k).query = { s.query with elements := s.ready ++ [.openParen] } := by
  rw [openClause_eq]
  cases k <;> rfl

/-- Opening a clause writes no criterion. -/
theorem criteria_openClause (s : Draft) (k : Connective) :
    (s.openClause k).query.criteria = s.query.criteria := by
  rw [openClause_query]
  show Element.criteria (s.ready ++ [.openParen]) = _
  rw [Element.criteria_append, criteria_ready, Element.criteria_cons_of_none rfl,
    Element.criteria_nil, List.append_nil]

theorem criteria_dropLast {es : List Element} {e : Element} (hlast : es.getLast? = some e)
    (he : e.criterion? = none) : Element.criteria es.dropLast = Element.criteria es := by
  conv_rhs => rw [← List.dropLast_append_getLast? e hlast]
  rw [Element.criteria_append, Element.criteria_cons_of_none he, Element.criteria_nil,
    List.append_nil]

/-- What goes with an empty clause is no criterion. -/
theorem criteria_closeLast (es : List Element) :
    Element.criteria (closeLast es) = Element.criteria es := by
  rw [closeLast]
  split
  · rename_i hopen
    split
    · rename_i hconnective
      obtain ⟨e, hlast, he⟩ := (Option.any_eq_true _ _).1 hconnective
      have hnone : e.criterion? = none := by
        cases e with
        | criterion c => cases he
        | and | or | openParen | closeParen => rfl
      rw [criteria_dropLast hlast hnone, criteria_dropLast hopen rfl]
    · exact criteria_dropLast hopen rfl
  · rw [Element.criteria_append, Element.criteria_cons_of_none rfl, Element.criteria_nil,
      List.append_nil]

/-- Closing a clause takes the innermost one away, and writes no criterion. -/
theorem closeClause_eq_ok (h : s.closeClause = .ok s') : ∃ o es,
    s.clauses = o :: s'.clauses ∧ s'.nextId = s.nextId ∧
      s'.query = { s.query with elements := es } ∧ Element.criteria es = s.query.criteria := by
  rw [closeClause] at h
  split at h
  · cases h
  · rename_i o outer houter
    cases h
    exact ⟨o, _, houter, rfl, rfl, criteria_closeLast _⟩

/-- Whether a draft hands out numbers of criteria and all its criteria are placed. -/
structure Sound (s : Draft) : Prop where
  numbers : s.Numbers
  placed : ∀ c ∈ s.query.criteria, c.Placed s.query.domain

theorem sound_of_no_elements (h : s.Numbers) (helements : s.query.elements = []) : s.Sound := by
  refine ⟨h, fun c hc => ?_⟩
  rw [Query.criteria, helements] at hc
  cases hc

theorem sound_addTest (hs : s.Sound) (h : s.addTest now t = .ok s') : s'.Sound := by
  obtain ⟨c, s₁, n, es, hc, hn, rfl, hes⟩ := addTest_eq_ok h
  obtain ⟨hplaced, hnumbers⟩ := hs.numbers.criterionOf hc
  refine ⟨⟨hn ▸ hnumbers.nextId, hs.numbers.clauses⟩, fun c' hc' => ?_⟩
  change c' ∈ Element.criteria es at hc'
  rw [hes, List.mem_append, List.mem_singleton] at hc'
  rcases hc' with hc' | rfl
  · exact hs.placed c' hc'
  · exact hplaced

theorem Numbers.inside (h : s.Numbers) (k : Connective) : (s.inside k).Numbers := by
  cases k with
  | and | or =>
    refine ⟨h.nextId, fun o ho n hn => ?_⟩
    rcases List.mem_cons.1 ho with rfl | ho
    · cases hn
    · exact h.clauses o ho n hn
  | sameProperty =>
    refine ⟨Nat.le_succ_of_le h.nextId, fun o ho n hn => ?_⟩
    rcases List.mem_cons.1 ho with rfl | ho
    · cases hn
      exact h.nextId
    · exact h.clauses o ho n hn

theorem sound_openClause (hs : s.Sound) (k : Connective) : (s.openClause k).Sound := by
  refine ⟨?_, fun c hc => ?_⟩
  · have hnumbers := hs.numbers.inside k
    rw [openClause_eq]
    exact ⟨hnumbers.nextId, hnumbers.clauses⟩
  · rw [criteria_openClause] at hc
    rw [openClause_query]
    exact hs.placed c hc

theorem sound_closeClause (hs : s.Sound) (h : s.closeClause = .ok s') : s'.Sound := by
  obtain ⟨o, es, hclauses, hnext, hquery, hes⟩ := closeClause_eq_ok h
  refine ⟨⟨hnext ▸ hs.numbers.nextId, fun o' ho' => ?_⟩, fun c hc => ?_⟩
  · exact hs.numbers.clauses o' (hclauses ▸ List.mem_cons_of_mem _ ho')
  · rw [hquery] at hc ⊢
    exact hs.placed c (hes ▸ hc)

end Draft

/-! ## Whole conditions -/

/-- Whether each step of writing keeps a property of drafts. -/
structure Draft.Keeps (now : Int) (I : Draft → Prop) : Prop where
  addTest : ∀ {s s' : Draft} {t : Test}, I s → s.addTest now t = .ok s' → I s'
  openClause : ∀ {s : Draft} (k : Connective), I s → I (s.openClause k)
  closeClause : ∀ {s s' : Draft}, I s → s.closeClause = .ok s' → I s'

theorem Draft.keeps_sound (now : Int) : Draft.Keeps now Draft.Sound where
  addTest := sound_addTest
  openClause k hs := sound_openClause hs k
  closeClause := sound_closeClause

/-- What the steps keep is kept by writing phrases. -/
theorem Phrase.keeps_writeCriteria {now : Int} {I : Draft → Prop} (hI : Draft.Keeps now I)
    (ps : List Phrase) {s s' : Draft} (hs : I s) (h : writeCriteria now s ps = .ok s') : I s' := by
  -- The cases are those of the writer. Writing fails in two of them, and two leave the draft as it
  -- is.
  induction s, ps using writeCriteria.induct with
  | case1 s c rest ih =>
    rw [writeCriteria] at h
    exact ih (hI.openClause c hs) h
  | case2 s rest ih =>
    rw [writeCriteria] at h
    obtain ⟨s₁, hclose, h⟩ := bind_eq_ok.1 h
    exact ih s₁ (hI.closeClause hs hclose) h
  | case3 s p sig v rest ih =>
    rw [writeCriteria] at h
    obtain ⟨cmp, hcmp, h⟩ := bind_eq_ok.1 h
    obtain ⟨s₁, htest, h⟩ := bind_eq_ok.1 h
    exact ih s₁ (hI.addTest hs htest) h
  | case4 s p sig rest hrest =>
    rw [writeCriteria] at h
    · obtain ⟨cmp, -, h⟩ := bind_eq_ok.1 h
      cases h
    · exact hrest
  | case5 s p rest hrest hrest' =>
    rw [writeCriteria] at h
    · cases h
    · exact hrest
    · exact hrest'
  | case6 s p rest hbegin hend htest hcomparator hfield ih =>
    rw [writeCriteria] at h
    · exact ih hs h
    all_goals assumption
  | case7 s =>
    rw [writeCriteria] at h
    cases h
    exact hs

mutual

/-- What the steps keep is kept by writing a clause. -/
theorem Clause.keeps_write {now : Int} {I : Draft → Prop} (hI : Draft.Keeps now I) :
    ∀ (m : Clause) {s s' : Draft}, I s → m.write now s = .ok s' → I s'
  | .test t, s, s', hs, h => by
    rw [write] at h
    exact hI.addTest hs h
  | .group c ms, s, s', hs, h => by
    rw [write] at h
    obtain ⟨s₁, hwrite, hclose⟩ := bind_eq_ok.1 h
    have hinner := keeps_writeAll hI ms (hI.openClause c hs) hwrite
    exact hI.closeClause hinner hclose

theorem Clause.keeps_writeAll {now : Int} {I : Draft → Prop} (hI : Draft.Keeps now I) :
    ∀ (ms : List Clause) {s s' : Draft}, I s → writeAll now s ms = .ok s' → I s'
  | [], s, s', hs, h => by
    rw [writeAll] at h
    cases h
    exact hs
  | m :: ms, s, s', hs, h => by
    rw [writeAll] at h
    obtain ⟨s₁, hfirst, h⟩ := bind_eq_ok.1 h
    exact keeps_writeAll hI ms (keeps_write hI m hs hfirst) h

end

/-- A draft without elements that agrees with a new one is sound. -/
theorem Draft.sound_of_agrees {s : Draft} {d : Domain} (h : s.Agrees (start d))
    (helements : s.query.elements = []) : s.Sound := by
  refine sound_of_no_elements ⟨?_, fun o ho => ?_⟩ helements
  · rw [h.nextId]
    exact Nat.le_refl _
  · rw [h.clauses] at ho
    cases ho

/-! ## Queries as read -/

namespace Query

variable {now : Int} {q : Query}

theorem placed_of_complete {s : Draft} (hs : s.Sound) {c : Completion}
    (h : s.complete c = .ok q) : ∀ c ∈ q.criteria, c.Placed q.domain := by
  have halike := (Draft.complete_eq_ok h).1
  rw [criteria, halike.elements, halike.domain]
  exact hs.placed

/-- A query that phrases describe completes what they write into an empty draft. -/
theorem exists_draft_of_ofPhrases {ps : List Phrase} (h : ofPhrases now ps = .ok q) :
    ∃ d s s' c, Draft.Agrees s (.start d) ∧ s.query.elements = [] ∧
      Phrase.writeCriteria now s ps = .ok s' ∧ s'.complete c = .ok q := by
  rw [ofPhrases] at h
  obtain ⟨subject, -, h⟩ := bind_eq_ok.1 h
  split at h
  · rename_i d hd
    obtain ⟨sort, -, h⟩ := bind_eq_ok.1 h
    obtain ⟨s, hs, h⟩ := bind_eq_ok.1 h
    obtain ⟨r, rfl, hr⟩ := Draft.setWindow_alike hs
    obtain ⟨s', hwrite, hcomplete⟩ := bind_eq_ok.1 h
    refine ⟨d, _, s', _, ?_, ?_, hwrite, hcomplete⟩
    · exact ⟨hr.domain, rfl, rfl⟩
    · exact hr.elements
  · cases h

theorem placed_of_ofPhrases {ps : List Phrase} (h : ofPhrases now ps = .ok q) :
    ∀ c ∈ q.criteria, c.Placed q.domain := by
  obtain ⟨d, s, s', c, hagrees, hempty, hwrite, hcomplete⟩ := exists_draft_of_ofPhrases h
  have hstart := Draft.sound_of_agrees hagrees hempty
  exact placed_of_complete
    (Phrase.keeps_writeCriteria (Draft.keeps_sound now) ps hstart hwrite) hcomplete

theorem placed_of_ofFluent {f : FluentQuery} (h : ofFluent now f = .ok q) :
    ∀ c ∈ q.criteria, c.Placed q.domain := by
  obtain ⟨s, s', c, hagrees, hempty, hwrite, hcomplete⟩ := exists_draft_of_ofFluent h
  have hstart := Draft.sound_of_agrees hagrees hempty
  exact placed_of_complete
    (Clause.keeps_writeAll (Draft.keeps_sound now) f.filters hstart hwrite) hcomplete

/-- Whether a query is what a text, its phrases or a fluent query describe. -/
inductive Described (now : Int) (q : Query) : Prop
  | text (s : String) (h : ofText now s = .ok q)
  | phrases (ps : List Phrase) (h : ofPhrases now ps = .ok q)
  | fluent (f : FluentQuery) (h : ofFluent now f = .ok q)

theorem Described.placed (h : q.Described now) : ∀ c ∈ q.criteria, c.Placed q.domain := by
  cases h with
  | text s h =>
    rw [ofText] at h
    obtain ⟨ps, -, h⟩ := bind_eq_ok.1 h
    exact placed_of_ofPhrases h
  | phrases ps h => exact placed_of_ofPhrases h
  | fluent f h => exact placed_of_ofFluent h

/-- The criteria of a query are placed under policies and in a dialect as well. -/
theorem placed_of_mem_compiled (h : ∀ c ∈ q.criteria, c.Placed q.domain) (s : Surroundings)
    (ps : List Policy) (d : Dialect) :
    ∀ c ∈ ((q.decorate s ps).tuned d).criteria, c.Placed q.domain := by
  intro c hc
  obtain ⟨c', hc', hplace⟩ := inPlaceOf_of_mem_tuned hc
  rcases inPlaceOf_of_mem_decorate hc' with ⟨c'', hc'', hplace'⟩ | hadded
  · exact (h c'' hc'').of_inPlaceOf (hplace.trans hplace')
  · exact hadded.placed.of_inPlaceOf hplace

end Query

end ArtifactQuery
