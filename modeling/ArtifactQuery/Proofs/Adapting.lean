import ArtifactQuery.Proofs.FrontEnds
import ArtifactQuery.Proofs.Spans
import ArtifactQuery.Proofs.Writing

/-!
# Reading the phrases of a text

What a text says has a form: its domain, its action, its criteria and its methods. In this form
nothing can go wrong but the names, so an accepted text becomes a query with an accepted condition,
or it is refused for a name.

* `blamesNames_criterionOf`: a test becomes a criterion or is refused for a name.
* `Phrase.Stops`, `Phrase.Reaches`: what the writing of phrases comes to, whatever follows them.
* `Nested.writesFilters`: a run of criteria is stopped for a name or writes filters.
* `blamesNames_ofPhrases`: so is a statement as a whole.
* `adapted_ofText`: the form of accepted texts and what becomes of them.
-/

namespace ArtifactQuery

/-! ## Names in tests -/

theorem Span.blamesNames_before (now : Int) (s : String) : BlamesNames (Span.before now s) := by
  intro e h
  cases hread : Span.read s with
  | error e' =>
    obtain ⟨cause, rfl⟩ := Span.read_eq_error hread
    rw [Span.before, hread] at h
    cases h
    trivial
  | ok span =>
    rw [Span.before_of_read hread] at h
    split at h <;> cases h
    trivial

namespace Value

theorem blamesNames_numberOf (l : Literal) : BlamesNames (numberOf l) := by
  cases l with
  | number n => exact .ok _
  | text s =>
    rw [numberOf]
    split
    · exact .ok _
    · exact .error trivial
  | truth b => exact .error trivial
  | null => exact .error trivial

theorem blamesNames_dateOf (l : Literal) : BlamesNames (dateOf l) := by
  cases l with
  | number n => exact .ok _
  | text s =>
    rw [dateOf, Instant.read]
    split
    · exact .ok _
    · exact .error trivial
  | truth b => exact .error trivial
  | null => exact .error trivial

theorem blamesNames_itemTypeOf (l : Literal) : BlamesNames (itemTypeOf l) := by
  cases l with
  | text s =>
    rw [itemTypeOf]
    split
    · exact .ok _
    · exact .error trivial
  | number n => exact .error trivial
  | truth b => exact .error trivial
  | null => exact .error trivial

theorem blamesNames_ofLiteral (t : FieldType) (l : Literal) : BlamesNames (ofLiteral t l) := by
  rw [ofLiteral.eq_def]
  split
  · exact .ok _
  · exact .ok _
  · exact blamesNames_numberOf l
  · exact blamesNames_numberOf l
  · exact blamesNames_dateOf l
  · exact blamesNames_itemTypeOf l

end Value

namespace Comparator

theorem blamesNames_resolve (now : Int) (path : String) (t : FieldType) (c : Comparator)
    (l : Literal) : BlamesNames (c.resolve now path t l) := by
  rw [resolve]
  split
  · exact (Value.blamesNames_ofLiteral t l).map _
  · split
    · exact .error trivial
    · exact (Span.blamesNames_before now l.shown).map _

theorem blamesNames_check (path : String) (t : FieldType) (c : Comparator) (v : Value) :
    BlamesNames (c.check path t v) := by
  rw [check]
  split
  · exact .error trivial
  split
  · exact .error trivial
  split
  · exact .error trivial
  · exact .ok _

end Comparator

namespace Draft

theorem blamesNames_fieldCriterion (now : Int) (s : Draft) (t : Test) :
    BlamesNames (s.fieldCriterion now t) := by
  rw [fieldCriterion]
  refine BlamesNames.bind ?_ fun f _ => ?_
  · rw [FieldPath.resolve]
    split
    · exact .ok _
    · exact .error trivial
  refine (Comparator.blamesNames_resolve now t.path _ t.comparator t.value).bind ?_
  rintro ⟨c, v⟩ -
  exact (Comparator.blamesNames_check t.path _ c v).bind fun _ _ => .ok _

theorem blamesNames_propertyCriterion (s : Draft) (key : String) (cmp : Comparator) (l : Literal) :
    BlamesNames (s.propertyCriterion key cmp l) := by
  rw [propertyCriterion]
  dsimp only
  split
  case h_2 => exact .error trivial
  split
  case h_2 => exact .error trivial
  split
  · exact .error trivial
  refine (Value.blamesNames_ofLiteral .text l).bind fun v _ => ?_
  refine (Comparator.blamesNames_check key .text cmp v).bind fun _ _ => ?_
  split
  · exact .ok _
  split <;> exact .ok _

/-- A test becomes a criterion, or is refused for a name. -/
theorem blamesNames_criterionOf (now : Int) (s : Draft) (t : Test) :
    BlamesNames (s.criterionOf now t) := by
  rw [criterionOf]
  split
  · exact s.blamesNames_propertyCriterion _ t.comparator t.value
  · exact s.blamesNames_fieldCriterion now t

end Draft

/-! ## Writing criteria -/

namespace Phrase

variable {now : Int} {s s' s'' : Draft} {ps ps' : List Phrase}

/-- Whether the writing of phrases is stopped for a name, whatever follows. -/
def Stops (now : Int) (s : Draft) (ps : List Phrase) : Prop :=
  ∃ e : QueryError, e.OfNames ∧ ∀ rest, writeCriteria now s (ps ++ rest) = .error e

/-- Whether the writing of phrases leads from a draft to another one, whatever follows. -/
def Reaches (now : Int) (s : Draft) (ps : List Phrase) (s' : Draft) : Prop :=
  ∀ rest, writeCriteria now s (ps ++ rest) = writeCriteria now s' rest

theorem Stops.append (h : Stops now s ps) (ps' : List Phrase) : Stops now s (ps ++ ps') := by
  obtain ⟨e, he, hwrite⟩ := h
  refine ⟨e, he, fun rest => ?_⟩
  rw [List.append_assoc, hwrite]

theorem Reaches.trans (h : Reaches now s ps s') (h' : Reaches now s' ps' s'') :
    Reaches now s (ps ++ ps') s'' := by
  intro rest
  rw [List.append_assoc, h, h']

theorem Reaches.stops (h : Reaches now s ps s') (h' : Stops now s' ps') :
    Stops now s (ps ++ ps') := by
  obtain ⟨e, he, hwrite⟩ := h'
  refine ⟨e, he, fun rest => ?_⟩
  rw [List.append_assoc, h, hwrite]

/-- Whether phrases are stopped or write a filter on the domain, in any draft that may take one. -/
def WritesFilter (now : Int) (ps : List Phrase) : Prop :=
  ∀ s : Draft, Element.Settled s.query.elements → Stops now s ps ∨
    ∃ (f : Filter) (n : Nat), (∀ c ∈ f.criteria, c.mainDomain? = some s.query.domain) ∧
      Reaches now s ps (s.extended f.flat n)

/-- Whether phrases are stopped or write filters on the domain, joined as the innermost open clause
says. -/
def WritesFilters (now : Int) (ps : List Phrase) : Prop :=
  ∀ s : Draft, Element.Settled s.query.elements → Stops now s ps ∨
    ∃ (fs : List Filter) (n : Nat),
      (∀ c ∈ Filter.criteriaOfAll fs, c.mainDomain? = some s.query.domain) ∧
        Reaches now s ps (s.extended (Filter.flatOfAll s.joiner fs) n)

theorem writesFilters_nil : WritesFilters now [] :=
  fun s _ => .inr ⟨[], s.nextId, fun _ hc => absurd hc List.not_mem_nil, fun _ => rfl⟩

/-- A filter in front of others. -/
theorem WritesFilter.cons (h : WritesFilter now ps) (h' : WritesFilters now ps') :
    WritesFilters now (ps ++ ps') := by
  intro s hs
  rcases h s hs with hstops | ⟨f, k, hf, hreaches⟩
  · exact .inl (hstops.append ps')
  have hsettled := Draft.settled_extended (n := k) hs f.ended_flat
  rcases h' _ hsettled with hstops | ⟨fs, n, hfs, hreaches'⟩
  · exact .inl (hreaches.stops hstops)
  refine .inr ⟨f :: fs, n, List.forall_mem_append.2 ⟨hf, hfs⟩, ?_⟩
  have hall := hreaches.trans hreaches'
  rw [Draft.extended_extended f.ended_flat] at hall
  exact hall

/-- A test writes one criterion. -/
theorem writesFilter_test (path signature : String) (v : Literal) :
    WritesFilter now (test path signature v) := by
  intro s hs
  cases hcomparator : comparatorOf signature with
  | error e =>
    refine .inl ⟨e, ?_, fun rest => by rw [writeCriteria_test, hcomparator, error_bind]⟩
    rw [comparatorOf] at hcomparator
    split at hcomparator <;> cases hcomparator
    trivial
  | ok cmp =>
    cases hcriterion : s.criterionOf now ⟨path, cmp, v⟩ with
    | error e =>
      refine .inl ⟨e, s.blamesNames_criterionOf now _ e hcriterion, fun rest => ?_⟩
      rw [writeCriteria_test, hcomparator, ok_bind, Draft.addTest, hcriterion, error_bind,
        error_bind]
    | ok r =>
      obtain ⟨c, s₁⟩ := r
      obtain ⟨n, rfl⟩ := Draft.criterionOf_frame hcriterion
      refine .inr ⟨.criterion c, n, fun c' hc' => ?_, fun rest => ?_⟩
      · rw [List.mem_singleton.1 hc']
        exact Draft.criterionOf_mainDomain hcriterion
      · rw [writeCriteria_test, hcomparator, ok_bind, Draft.addTest, hcriterion]
        exact congrArg (writeCriteria now · rest) (Draft.addCriterion_eq _ _)

/-- A clause writes one filter. -/
theorem WritesFilters.clause (h : WritesFilters now ps) (c : Connective) :
    WritesFilter now (clause c ps) := by
  intro s hs
  rcases h _ (s.settled_openClause c) with ⟨e, he, hwrite⟩ | ⟨fs, n, hfs, hreaches⟩
  · exact .inl ⟨e, he, fun rest => by rw [writeCriteria_clause, hwrite]⟩
  have hdomain : (s.openClause c).query.domain = s.query.domain := by
    rw [Draft.openClause_eq]
    cases c <;> rfl
  rw [hdomain] at hfs
  refine .inr ⟨.group c fs, n, hfs, fun rest => ?_⟩
  rw [writeCriteria_clause, hreaches, Draft.openClause_joiner, writeCriteria,
    Draft.closeClause_extended hs c Filter.ended_flatOfAll n, ok_bind]
  rfl

/-- A run of criteria is stopped for a name, or writes filters. -/
theorem Nested.writesFilters (h : Nested ps) : WritesFilters now ps := by
  induction h with
  | nil => exact writesFilters_nil
  | test path signature v _ ih => exact (writesFilter_test path signature v).cons ih
  | clause c _ _ ihinner ih => exact (ihinner.clause c).cons ih

/-! ## The other passes -/

theorem blamesNames_noteSubject (t : Subject) (p : Phrase) : BlamesNames (noteSubject t p) := by
  cases p with
  | domain n =>
    rw [noteSubject]
    split
    · exact .ok _
    · exact .error trivial
  | action n =>
    rw [noteSubject]
    split
    · exact .ok _
    · exact .error trivial
  | _ => exact .ok _

theorem blamesNames_noteSort (o : Option (Direction × List String)) (p : Phrase) :
    BlamesNames (noteSort o p) := by
  cases p with
  | sort d paths =>
    rw [noteSort]
    split
    · exact .error trivial
    · refine BlamesNames.map ?_ _
      rw [directionOf]
      split
      · exact .ok _
      split
      · exact .ok _
      · exact .error trivial
  | _ => exact .ok _

/-- The phrases of a statement name a domain and an action. -/
theorem subject_of_phrases {st : Statement} {t : Subject}
    (h : st.phrases.foldlM noteSubject {} = .ok t) : ∃ d k, t = ⟨some d, some k⟩ := by
  obtain ⟨ps, hphrases, hps, -⟩ := exists_phrases st
  have hothers : ∀ p ∈ ps ++ st.methods.map Method.phrase, ∀ t, noteSubject t p = .ok t := by
    rw [List.forall_mem_append, List.forall_mem_map]
    exact ⟨fun p hp => (hps.ofCriteria p hp).subject, fun m _ => noteSubject_method m⟩
  rw [hphrases, List.foldlM_cons] at h
  obtain ⟨t₁, hdomain, h⟩ := bind_eq_ok.1 h
  rw [List.foldlM_cons] at h
  obtain ⟨t₂, haction, h⟩ := bind_eq_ok.1 h
  rw [foldlM_unconcerned hothers] at h
  cases h
  rw [noteSubject] at hdomain
  split at hdomain <;> cases hdomain
  rw [noteSubject] at haction
  split at haction <;> cases haction
  exact ⟨_, _, rfl⟩

/-- Criteria are written into an empty draft as an accepted condition, or refused for a name. -/
theorem Nested.draft (h : Nested ps) (ms : List Method) (hempty : s.query.elements = [])
    (hclosed : s.clauses = []) : BlamesNames (writeCriteria now s (ps ++ ms.map Method.phrase)) ∧
      ∀ s', writeCriteria now s (ps ++ ms.map Method.phrase) = .ok s' →
        s'.clauses = [] ∧ s'.query.checkElements = .ok () := by
  have hsettled : Element.Settled s.query.elements := by
    rw [hempty]
    rfl
  -- Whatever is written between the parentheses becomes filters, of which accepted elements can be
  -- made.
  rcases h.writesFilters s hsettled with ⟨e, he, hwrite⟩ | ⟨fs, n, hfs, hreaches⟩
  · rw [hwrite]
    exact ⟨.error he, fun s' h => by cases h⟩
  have hmethods : ∀ s : Draft, writeCriteria now s (ms.map Method.phrase) = .ok s := by
    intro s
    have hms : Writes now (ms.map Method.phrase) [] := writes_methods ms
    have hbehind := hms s []
    rwa [List.append_nil] at hbehind
  have hjoiner : s.joiner = .and := by
    rw [Draft.joiner, hclosed]
    rfl
  rw [hreaches, hmethods, hjoiner, Draft.extended_of_empty hempty]
  refine ⟨.ok _, fun s' h => ?_⟩
  cases h
  have halike : ((s.withElements (Filter.flatOfAll .and fs)).renumbered n).query.Alike
      { domain := s.query.domain, elements := Filter.flatOfAll .and fs } := ⟨rfl, rfl⟩
  exact ⟨hclosed, halike.checkElements.trans (Query.check_flatOfAll_of hfs)⟩

end Phrase

namespace Query

open Phrase

/-- The phrases of a statement are refused for a name only. -/
theorem blamesNames_ofPhrases (now : Int) (st : Statement) :
    BlamesNames (ofPhrases now st.phrases) := by
  cases hsubject : st.phrases.foldlM noteSubject {} with
  | error e =>
    rw [ofPhrases, hsubject, error_bind]
    exact .error (BlamesNames.foldlM blamesNames_noteSubject _ _ e hsubject)
  | ok t =>
    obtain ⟨d, k, rfl⟩ := subject_of_phrases hsubject
    cases hsort : st.phrases.foldlM noteSort none with
    | error e =>
      rw [ofPhrases, hsubject, ok_bind]
      dsimp only
      rw [hsort, error_bind]
      exact .error (BlamesNames.foldlM blamesNames_noteSort _ _ e hsort)
    | ok sort =>
      rw [ofPhrases_eq now hsubject hsort]
      -- From here on every step blames a name or succeeds: the window, the criteria, and what
      -- completes the draft.
      refine ((Draft.start d).blamesNames_setWindow _ _).bind fun s hs => ?_
      obtain ⟨r, rfl, hr⟩ := Draft.setWindow_alike hs
      obtain ⟨ps, hphrases, hps, -⟩ := exists_phrases st
      have hwrite : ∀ s, writeCriteria now s st.phrases =
          writeCriteria now s (ps ++ st.methods.map Method.phrase) := by
        intro s
        rw [hphrases]
        rfl
      rw [hwrite]
      let s : Draft := ({ Draft.start d with query := r } : Draft).acting
        (st.phrases.foldl noteParameter { kind := k })
      have hempty : s.query.elements = [] := hr.elements
      obtain ⟨hblames, hdraft⟩ := hps.draft st.methods hempty rfl
      refine hblames.bind fun s' hs' => ?_
      obtain ⟨hclosed, hcheck⟩ := hdraft s' hs'
      exact Draft.blamesNames_complete _ hclosed hcheck

/-- The condition of a query is accepted, whatever phrases describe the query. -/
theorem check_of_ofPhrases {now : Int} {ps : List Phrase} {q : Query}
    (h : ofPhrases now ps = .ok q) : q.checkElements = .ok () := by
  rw [ofPhrases] at h
  obtain ⟨subject, -, h⟩ := bind_eq_ok.1 h
  split at h
  case h_2 => cases h
  obtain ⟨sort, -, h⟩ := bind_eq_ok.1 h
  obtain ⟨s, -, h⟩ := bind_eq_ok.1 h
  obtain ⟨s', -, hcomplete⟩ := bind_eq_ok.1 h
  exact (Draft.complete_eq_ok hcomplete).2.2

end Query

open Phrase

/-- An accepted text says its domain, its action, a run of criteria and its methods. It becomes a
query whose condition is accepted, or it is refused for something that it names. -/
theorem adapted_ofText (now : Int) {text : String} {ps : List Phrase}
    (h : Phrase.ofText text = .ok ps) :
    (∃ (domain action : String) (criteria : List Phrase) (ms : List Method),
      ps = .domain domain :: .action action :: (criteria ++ ms.map Method.phrase) ∧
        Nested criteria) ∧
    ((∃ q, Query.ofPhrases now ps = .ok q ∧ q.checkElements = .ok ()) ∨
      ∃ e : QueryError, Query.ofPhrases now ps = .error e ∧ e.OfNames) := by
  obtain ⟨st, -, h⟩ := bind_eq_ok.1 h
  cases h
  obtain ⟨criteria, hphrases, hnested, -⟩ := exists_phrases st
  refine ⟨⟨st.domain, st.action, criteria, st.methods, hphrases, hnested⟩, ?_⟩
  cases hq : Query.ofPhrases now st.phrases with
  | error e => exact .inr ⟨e, rfl, Query.blamesNames_ofPhrases now st e hq⟩
  | ok q => exact .inl ⟨q, rfl, Query.check_of_ofPhrases hq⟩

/-- Items by their names in an alternative that is left empty, ordered by their names. -/
def Statement.eitherOrNothing : Statement where
  domain := "items"
  action := "find"
  criteria := [.objects .or [[.compares "name" [("$match", .text "a*")]],
    [.objects .sameProperty []]]]
  methods := [.sort "$asc" ["name"]]

def textOfEitherOrNothing : String :=
  " items . find ( \x7b \"$or\" : [ \x7b \"name\" : \x7b \"$match\" : \"a*\" \x7d \x7d ," ++
    " \x7b \"$msp\" : [ ] \x7d ] \x7d ) . sort ( \x7b \"$asc\" : [ \"name\" ] \x7d )"

/-- Items by a size that is no number. -/
def Statement.ofBigSize : Statement := ⟨"items", "find", [.equals "size" (.text "big")], []⟩

def textOfBigSize : String := " items . find ( \x7b \"size\" : \"big\" \x7d )"

/-- A text that becomes a query, and one that is refused for a value. -/
theorem adapted_ofText_eitherOrNothing :
    (∃ ps q, Phrase.ofText textOfEitherOrNothing = .ok ps ∧ Query.ofPhrases 0 ps = .ok q ∧
      q.checkElements = .ok ()) ∧
    ∃ ps, ∃ e : QueryError, Phrase.ofText textOfBigSize = .ok ps ∧
      Query.ofPhrases 0 ps = .error e ∧ e.OfNames := by
  constructor
  · have hproper : Statement.eitherOrNothing.Proper := by
      refine ⟨rfl, .inl rfl, ⟨⟨⟨by unfold IsFieldKey; decide, List.cons_ne_nil _ _, ?_⟩, trivial⟩,
        ⟨trivial, trivial⟩, trivial⟩, trivial⟩
      exact List.forall_mem_singleton.2 ⟨⟨.matching, rfl⟩, trivial⟩
    have hps : Phrase.ofText textOfEitherOrNothing = .ok Statement.eitherOrNothing.phrases :=
      phrases_ofText_line hproper (List.forall_mem_singleton.2 trivial) (by decide +kernel)
    rcases (adapted_ofText 0 hps).2 with ⟨q, hq, hcheck⟩ | ⟨e, he, -⟩
    · exact ⟨_, q, hps, hq, hcheck⟩
    · have hok : (Query.ofPhrases 0 Statement.eitherOrNothing.phrases).isOk := by decide +kernel
      rw [he] at hok
      cases hok
  · have hproper : Statement.ofBigSize.Proper :=
      ⟨rfl, .inl rfl, ⟨by unfold IsFieldKey; decide, trivial⟩, trivial⟩
    have hps : Phrase.ofText textOfBigSize = .ok Statement.ofBigSize.phrases :=
      phrases_ofText_line hproper (fun m hm => absurd hm List.not_mem_nil) (by decide +kernel)
    rcases (adapted_ofText 0 hps).2 with ⟨q, hq, -⟩ | ⟨e, he, hnames⟩
    · have hok : ¬ (Query.ofPhrases 0 Statement.ofBigSize.phrases).isOk := by decide +kernel
      rw [hq] at hok
      exact absurd rfl hok
    · exact ⟨_, e, hps, he, hnames⟩

end ArtifactQuery
