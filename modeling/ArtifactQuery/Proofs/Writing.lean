import ArtifactQuery.FluentQuery
import ArtifactQuery.Proofs.Completion
import ArtifactQuery.Proofs.FlatForm
import ArtifactQuery.Proofs.TestCriteria

/-!
# Writing clauses

A draft writes clauses element by element: it chooses the connectives, and a clause that stays empty
is taken back. What is written is the flat form of the filters that the clauses become.

* `Clause.build`: the filter that a clause becomes, whose criteria are numbered from left to right.
* `Draft.extended`: a draft behind a run of operands.
* `write_eq`, `writeAll_eq`: writing extends the draft by the flat form, and changes nothing else.
* `flat_of_ofFluent`: the condition of a fluent query is the flat form of its filters.
* `ofFluent_flat`: the condition of a fluent query is accepted, lists its criteria in order and
  means what its filters say.
-/

namespace ArtifactQuery

/-! ## Runs of operands -/

namespace Draft

/-- The elements that take an operand: a connective is put behind another one. -/
def ready (s : Draft) : List Element :=
  if s.query.elements.getLast?.any Element.endsOperand then s.query.elements ++ [s.joiner]
  else s.query.elements

/-- The draft with other elements. -/
def withElements (s : Draft) (es : List Element) : Draft :=
  { s with query := { s.query with elements := es } }

/-- The draft behind a run of elements that form operands, and with another next number. -/
def extended (s : Draft) (es : List Element) (n : Nat) : Draft :=
  (s.withElements (if es = [] then s.query.elements else s.ready ++ es)).renumbered n

theorem putJoiner_eq (s : Draft) : s.putJoiner = s.withElements s.ready := by
  rw [putJoiner, ready]
  split <;> rfl

theorem addCriterion_eq (s : Draft) (c : Criterion) :
    s.addCriterion c = s.extended [.criterion c] s.nextId := by
  rw [addCriterion, putJoiner_eq]
  rfl

theorem ready_of_ended {s : Draft} (h : Element.Ended s.query.elements) :
    s.ready = s.query.elements ++ [s.joiner] :=
  if_pos h

theorem ready_of_not_ended {s : Draft} (h : ¬ Element.Ended s.query.elements) :
    s.ready = s.query.elements :=
  if_neg h

theorem extended_of_empty {s : Draft} (h : s.query.elements = []) (es : List Element) (n : Nat) :
    s.extended es n = (s.withElements es).renumbered n := by
  have hnot : ¬ Element.Ended s.query.elements := by
    rw [h]
    exact Bool.false_ne_true
  rw [extended, ready_of_not_ended hnot, h, List.nil_append]
  split
  · rename_i hes
    rw [hes]
  · rfl

section Extended

variable (s : Draft) (es : List Element) (n : Nat)

@[simp] theorem extended_domain : (s.extended es n).query.domain = s.query.domain := rfl

@[simp] theorem extended_joiner : (s.extended es n).joiner = s.joiner := rfl

@[simp] theorem extended_clauses : (s.extended es n).clauses = s.clauses := rfl

variable {s es n}

theorem extended_of_ne_nil (h : es ≠ []) :
    s.extended es n = (s.withElements (s.ready ++ es)).renumbered n := by
  rw [extended, if_neg h]

theorem extended_elements (h : es ≠ []) :
    (s.extended es n).query.elements = s.ready ++ es := by
  rw [extended_of_ne_nil h]
  rfl

theorem settled_extended (hs : Element.Settled s.query.elements)
    (hes : es ≠ [] → Element.Ended es) : Element.Settled (s.extended es n).query.elements := by
  by_cases h : es = []
  · rw [h]
    exact hs
  · rw [extended_elements h]
    exact Element.settled_of_ended (Element.ended_append _ (hes h))

/-- Two runs of operands, one behind the other. -/
theorem extended_extended (hes : es ≠ [] → Element.Ended es) (fs : List Element) (n' : Nat) :
    (s.extended es n).extended fs n' = s.extended (Element.joinedBy s.joiner es fs) n' := by
  by_cases h : es = []
  · subst h
    rw [Element.joinedBy, if_pos rfl]
    rfl
  by_cases h' : fs = []
  · subst h'
    rw [Element.joinedBy, if_neg h, if_pos rfl]
    rfl
  · have hended : Element.Ended (s.extended es n).query.elements := by
      rw [extended_elements h]
      exact Element.ended_append _ (hes h)
    rw [Element.joinedBy, if_neg h, if_neg h', extended_of_ne_nil h', ready_of_ended hended,
      extended_elements h, extended_joiner,
      extended_of_ne_nil (List.append_ne_nil_of_left_ne_nil h _), List.append_assoc,
      List.append_assoc]
    rfl

end Extended

/-! ## Opening and closing -/

/-- The draft inside a clause, as far as it concerns criteria. -/
def inside (s : Draft) : Connective → Draft
  | .and => s.push .and
  | .or => s.push .or
  | .sameProperty => s.newId.2.push (.sameProperty s.nextId)

theorem openClause_eq (s : Draft) (c : Connective) :
    s.openClause c = (s.inside c).withElements (s.ready ++ [.openParen]) := by
  unfold openClause
  rw [putJoiner_eq]
  cases c <;> rfl

@[simp] theorem inside_query (s : Draft) (c : Connective) : (s.inside c).query = s.query := by
  cases c <;> rfl

@[simp] theorem inside_joiner (s : Draft) (c : Connective) : (s.inside c).joiner = c.joiner := by
  cases c <;> rfl

/-- Behind an opening parenthesis an operand may follow. -/
theorem settled_openClause (s : Draft) (c : Connective) :
    Element.Settled (s.openClause c).query.elements := by
  rw [openClause_eq, Element.Settled]
  show (s.ready ++ [Element.openParen]).getLast?.any _ = false
  rw [List.getLast?_concat]
  rfl

@[simp] theorem openClause_joiner (s : Draft) (c : Connective) :
    (s.openClause c).joiner = c.joiner := by
  rw [openClause_eq]
  exact s.inside_joiner c

theorem Agrees.inside {s s' : Draft} (h : Agrees s' s) (c : Connective) :
    Agrees (s'.inside c) (s.inside c) := by
  obtain ⟨hd, hc, hn⟩ := h
  cases c with
  | and => exact ⟨hd, congrArg (_ :: ·) hc, hn⟩
  | or => exact ⟨hd, congrArg (_ :: ·) hc, hn⟩
  | sameProperty =>
    exact ⟨hd, congrArg₂ (fun n os => OpenClause.sameProperty n :: os) hn hc,
      congrArg (· + 1) hn⟩

/-- What a clause leaves when it is closed. -/
theorem closeClause_inside (s : Draft) (c : Connective) (es : List Element) (n : Nat) :
    (((s.inside c).withElements es).renumbered n).closeClause =
      .ok ((s.withElements (closeLast es)).renumbered n) := by
  cases c <;> rfl

theorem isConnective_joiner (s : Draft) : s.joiner.isConnective = true := by
  rw [joiner]
  cases s.clauses with
  | nil => rfl
  | cons o _ => cases o <;> rfl

/-- A clause closed behind the opening parenthesis leaves nothing. -/
theorem closeLast_ready {s : Draft} (hs : Element.Settled s.query.elements) :
    closeLast (s.ready ++ [.openParen]) = s.query.elements := by
  rw [closeLast, List.getLast?_concat, if_pos rfl, List.dropLast_concat]
  by_cases h : Element.Ended s.query.elements
  · rw [ready_of_ended h, List.getLast?_concat, List.dropLast_concat]
    exact if_pos s.isConnective_joiner
  · rw [ready_of_not_ended h, if_neg]
    rw [Element.Settled] at hs
    simp [hs]

/-- A clause closed behind an operand gets its parenthesis. -/
theorem closeLast_of_ended {es : List Element} (h : Element.Ended es) :
    closeLast es = es ++ [.closeParen] := by
  obtain ⟨e, he, hends⟩ := (Option.any_eq_true _ _).1 h
  rw [closeLast, he, if_neg]
  rintro ⟨⟩
  cases hends

/-- A clause opened, filled with a run of operands, and closed. -/
theorem closeClause_extended {s : Draft} (hs : Element.Settled s.query.elements) (c : Connective)
    {es : List Element} (hes : es ≠ [] → Element.Ended es) (n : Nat) :
    ((s.openClause c).extended es n).closeClause = .ok (s.extended (Element.wrapped es) n) := by
  rw [openClause_eq]
  by_cases h : es = []
  · subst h
    have hclose := s.closeClause_inside c (s.ready ++ [.openParen]) n
    rw [closeLast_ready hs] at hclose
    exact hclose
  · have hnot : ¬ Element.Ended (s.ready ++ [.openParen]) := by
      rw [Element.Ended, List.getLast?_concat]
      exact Bool.false_ne_true
    have hready : ((s.inside c).withElements (s.ready ++ [.openParen])).ready =
        s.ready ++ [.openParen] := ready_of_not_ended hnot
    have hwrapped : Element.wrapped es = .openParen :: es ++ [.closeParen] := if_neg h
    rw [extended_of_ne_nil h, hready, hwrapped, extended_of_ne_nil (by simp)]
    refine (s.closeClause_inside c _ n).trans ?_
    rw [closeLast_of_ended (Element.ended_append _ (hes h)), List.append_assoc, List.append_assoc]
    rfl

end Draft

/-! ## Filters of clauses -/

mutual

/-- The filter that a clause becomes in a draft, with the next number behind it. -/
def Clause.build (now : Int) (s : Draft) : Clause → Except QueryError (Filter × Nat)
  | .test t => (s.criterionOf now t).map fun r => (.criterion r.1, r.2.nextId)
  | .group c ms => (Clause.buildAll now (s.inside c) ms).map fun r => (.group c r.1, r.2)

/-- The filters that clauses become, one after the other. -/
def Clause.buildAll (now : Int) (s : Draft) : List Clause → Except QueryError (List Filter × Nat)
  | [] => .ok ([], s.nextId)
  | m :: ms => do
    let (f, n) ← m.build now s
    let (fs, n) ← Clause.buildAll now (s.renumbered n) ms
    return (f :: fs, n)

end

/-- Whether a test becomes a criterion on a domain. -/
def Test.Builds (now : Int) (d : Domain) (t : Test) : Prop :=
  ∃ r, (Draft.start d).criterionOf now t = .ok r

namespace Clause

mutual

/-- The tests from left to right. -/
def tests : Clause → List Test
  | .test t => [t]
  | .group _ ms => testsOfAll ms

/-- The tests of clauses from left to right. -/
def testsOfAll : List Clause → List Test
  | [] => []
  | m :: ms => m.tests ++ testsOfAll ms

end

variable {now : Int}

theorem buildAll_cons_eq_ok {s : Draft} {m : Clause} {ms : List Clause} {fs : List Filter}
    {n : Nat} : buildAll now s (m :: ms) = .ok (fs, n) ↔ ∃ f k gs, m.build now s = .ok (f, k) ∧
      buildAll now (s.renumbered k) ms = .ok (gs, n) ∧ fs = f :: gs := by
  rw [buildAll]
  constructor
  · intro h
    obtain ⟨⟨f, k⟩, hf, h⟩ := bind_eq_ok.1 h
    obtain ⟨⟨gs, n⟩, hgs, h⟩ := bind_eq_ok.1 h
    cases h
    exact ⟨f, k, gs, hf, hgs, rfl⟩
  · rintro ⟨f, k, gs, hf, hgs, rfl⟩
    rw [hf, ok_bind]
    dsimp only
    rw [hgs]
    rfl

mutual

/-- Clauses whose tests become criteria become filters. -/
theorem exists_build : ∀ (m : Clause) (s : Draft),
    (∀ t ∈ m.tests, t.Builds now s.query.domain) → ∃ r, m.build now s = .ok r
  | .test t, s, h => by
    obtain ⟨r, hr⟩ := h t (List.mem_singleton_self t)
    have hd : s.query.domain = (Draft.start s.query.domain).query.domain := rfl
    obtain ⟨r', hr'⟩ := Draft.criterionOf_congr hd hr
    exact ⟨_, by rw [build, hr', ok_map]⟩
  | .group c ms, s, h => by
    obtain ⟨r, hr⟩ := exists_buildAll ms (s.inside c) (by rwa [Draft.inside_query])
    exact ⟨_, by rw [build, hr, ok_map]⟩

theorem exists_buildAll : ∀ (ms : List Clause) (s : Draft),
    (∀ t ∈ testsOfAll ms, t.Builds now s.query.domain) → ∃ r, buildAll now s ms = .ok r
  | [], s, _ => ⟨_, rfl⟩
  | m :: ms, s, h => by
    obtain ⟨⟨f, k⟩, hf⟩ := exists_build m s fun t ht => h t (List.mem_append_left _ ht)
    obtain ⟨⟨gs, n⟩, hgs⟩ := exists_buildAll ms (s.renumbered k)
      fun t ht => h t (List.mem_append_right _ ht)
    exact ⟨_, buildAll_cons_eq_ok.2 ⟨f, k, gs, hf, hgs, rfl⟩⟩

end

mutual

/-- Drafts that agree make the same filter of a clause. -/
theorem build_of_agrees : ∀ (m : Clause) {s s' : Draft}, Draft.Agrees s' s → ∀ {r},
    m.build now s = .ok r → m.build now s' = .ok r
  | .test t, s, s', ha, r, h => by
    rw [build] at h ⊢
    obtain ⟨⟨c, s₁⟩, hc, rfl⟩ := map_eq_ok.1 h
    obtain ⟨s₁', hc', hn⟩ := Draft.criterionOf_of_agrees ha hc
    rw [hc', ok_map, hn]
  | .group c ms, s, s', ha, r, h => by
    rw [build] at h ⊢
    obtain ⟨r', hr', rfl⟩ := map_eq_ok.1 h
    rw [buildAll_of_agrees ms (ha.inside c) hr', ok_map]

theorem buildAll_of_agrees : ∀ (ms : List Clause) {s s' : Draft}, Draft.Agrees s' s → ∀ {r},
    buildAll now s ms = .ok r → buildAll now s' ms = .ok r
  | [], s, s', ha, r, h => by
    rw [buildAll] at h ⊢
    rw [ha.nextId, h]
  | m :: ms, s, s', ha, (fs, n), h => by
    obtain ⟨f, k, gs, hf, hgs, rfl⟩ := buildAll_cons_eq_ok.1 h
    exact buildAll_cons_eq_ok.2 ⟨f, k, gs, build_of_agrees m ha hf,
      buildAll_of_agrees ms (ha.renumbered k) hgs, rfl⟩

end

/-! ## Clauses as written -/

mutual

/-- A clause is written as the flat form of its filter. -/
theorem write_eq : ∀ (m : Clause) {s : Draft}, Element.Settled s.query.elements → ∀ {f n},
    m.build now s = .ok (f, n) → m.write now s = .ok (s.extended f.flat n)
  | .test t, s, hs, f, n, h => by
    rw [build] at h
    obtain ⟨⟨c, s'⟩, hc, h⟩ := map_eq_ok.1 h
    cases h
    obtain ⟨k, rfl⟩ := Draft.criterionOf_frame hc
    rw [write, Draft.addTest, hc, ok_bind]
    exact congrArg Except.ok (Draft.addCriterion_eq _ _)
  | .group c ms, s, hs, f, n, h => by
    rw [build] at h
    obtain ⟨⟨fs, k⟩, hfs, h⟩ := map_eq_ok.1 h
    cases h
    have hagrees : Draft.Agrees (s.openClause c) (s.inside c) := by
      rw [Draft.openClause_eq]
      exact ⟨rfl, rfl, rfl⟩
    rw [write, writeAll_eq ms (s.settled_openClause c) (buildAll_of_agrees ms hagrees hfs),
      ok_bind, Draft.openClause_joiner]
    exact Draft.closeClause_extended hs c Filter.ended_flatOfAll k

/-- Clauses are written as the flat forms of their filters, joined as the innermost open clause
says. -/
theorem writeAll_eq : ∀ (ms : List Clause) {s : Draft}, Element.Settled s.query.elements →
    ∀ {fs n}, buildAll now s ms = .ok (fs, n) →
      writeAll now s ms = .ok (s.extended (Filter.flatOfAll s.joiner fs) n)
  | [], s, hs, fs, n, h => by
    rw [buildAll] at h
    cases h
    rfl
  | m :: ms, s, hs, fs, n, h => by
    obtain ⟨f, k, gs, hf, hgs, rfl⟩ := buildAll_cons_eq_ok.1 h
    have hagrees : Draft.Agrees (s.extended f.flat k) (s.renumbered k) := ⟨rfl, rfl, rfl⟩
    have hsettled := Draft.settled_extended (n := k) hs f.ended_flat
    rw [writeAll, write_eq m hs hf, ok_bind,
      writeAll_eq ms hsettled (buildAll_of_agrees ms hagrees hgs),
      Draft.extended_extended f.ended_flat]
    rfl

end

mutual

/-- The criteria of a filter are on the domain of the draft. -/
theorem mainDomain_of_build : ∀ (m : Clause) {s : Draft} {f n}, m.build now s = .ok (f, n) →
    ∀ c ∈ f.criteria, c.mainDomain? = some s.query.domain
  | .test t, s, f, n, h => by
    rw [build] at h
    obtain ⟨⟨c, s'⟩, hc, h⟩ := map_eq_ok.1 h
    cases h
    intro c' hc'
    rw [Filter.criteria, List.mem_singleton] at hc'
    rw [hc']
    exact Draft.criterionOf_mainDomain hc
  | .group c ms, s, f, n, h => by
    rw [build] at h
    obtain ⟨⟨fs, k⟩, hfs, h⟩ := map_eq_ok.1 h
    cases h
    have := mainDomain_of_buildAll ms hfs
    rwa [Draft.inside_query] at this

theorem mainDomain_of_buildAll : ∀ (ms : List Clause) {s : Draft} {fs n},
    buildAll now s ms = .ok (fs, n) →
      ∀ c ∈ Filter.criteriaOfAll fs, c.mainDomain? = some s.query.domain
  | [], s, fs, n, h => by
    rw [buildAll] at h
    cases h
    intro c hc
    cases hc
  | m :: ms, s, fs, n, h => by
    obtain ⟨f, k, gs, hf, hgs, rfl⟩ := buildAll_cons_eq_ok.1 h
    intro c hc
    rcases List.mem_append.1 hc with hc | hc
    · exact mainDomain_of_build m hf c hc
    · exact mainDomain_of_buildAll ms hgs c hc

end

end Clause

/-! ## Fluent queries -/

namespace Draft

/-- Filters written into an empty draft are all that its condition consists of. -/
theorem writeAll_of_empty {now : Int} {d : Domain} {ms : List Clause} {fs : List Filter} {n : Nat}
    (h : Clause.buildAll now (.start d) ms = .ok (fs, n)) {s : Draft} (hs : s.Agrees (.start d))
    (hempty : s.query.elements = []) : Clause.writeAll now s ms =
      .ok ((s.withElements (Filter.flatOfAll .and fs)).renumbered n) := by
  have hsettled : Element.Settled s.query.elements := by
    rw [hempty]
    rfl
  have hjoiner : s.joiner = .and := by
    rw [joiner, hs.clauses]
    rfl
  rw [Clause.writeAll_eq ms hsettled (Clause.buildAll_of_agrees ms hs h), hjoiner,
    extended_of_empty hempty]

end Draft

/-- The flat form of filters on a domain is accepted. -/
theorem Query.check_flatOfAll_of {d : Domain} {fs : List Filter}
    (h : ∀ c ∈ Filter.criteriaOfAll fs, c.mainDomain? = some d) :
    ({ domain := d, elements := Filter.flatOfAll .and fs } : Query).checkElements = .ok () := by
  rw [Query.checkElements_eq_ok_iff]
  by_cases hfs : Filter.criteriaOfAll fs = []
  · exact .inl (Filter.flatOfAll_eq_nil fs .and hfs)
  · refine .inr ((Filter.means_flatOfAll_and (fun _ => true) fs hfs).check ?_ 0)
    rw [Filter.criteria_flatOfAll fs .and rfl]
    exact h

/-- The flat form of filters that clauses become is accepted. -/
theorem Query.check_flatOfAll {now : Int} {d : Domain} {ms : List Clause} {fs : List Filter}
    {n : Nat} (h : Clause.buildAll now (.start d) ms = .ok (fs, n)) :
    ({ domain := d, elements := Filter.flatOfAll .and fs } : Query).checkElements = .ok () :=
  Query.check_flatOfAll_of (Clause.mainDomain_of_buildAll ms h)

/-- The query of a fluent query completes what the filters write into an empty draft. -/
theorem Query.exists_draft_of_ofFluent {now : Int} {f : FluentQuery} {q : Query}
    (h : Query.ofFluent now f = .ok q) :
    ∃ s s' c, Draft.Agrees s (.start f.domain) ∧ s.query.elements = [] ∧
      Clause.writeAll now s f.filters = .ok s' ∧ s'.complete c = .ok q := by
  rw [Query.ofFluent] at h
  obtain ⟨s, hs, h⟩ := bind_eq_ok.1 h
  obtain ⟨r, rfl, hr⟩ := Draft.setWindow_alike hs
  obtain ⟨s', hwrite, hcomplete⟩ := bind_eq_ok.1 h
  refine ⟨_, s', _, ?_, ?_, hwrite, hcomplete⟩
  · exact ⟨hr.domain, rfl, rfl⟩
  · exact hr.elements

/-- The condition of a fluent query is the flat form of its filters. -/
theorem Query.flat_of_ofFluent {now : Int} {f : FluentQuery} {q : Query} {fs : List Filter}
    {n : Nat} (hbuild : Clause.buildAll now (.start f.domain) f.filters = .ok (fs, n))
    (h : Query.ofFluent now f = .ok q) :
    q.domain = f.domain ∧ q.elements = Filter.flatOfAll .and fs := by
  obtain ⟨s, s', c, hagrees, hempty, hwrite, hcomplete⟩ := Query.exists_draft_of_ofFluent h
  cases (Draft.writeAll_of_empty hbuild hagrees hempty).symm.trans hwrite
  have halike := (Draft.complete_eq_ok hcomplete).1
  exact ⟨halike.domain.trans hagrees.domain, halike.elements⟩

/-- Filters with no other settings become a query that returns the fields of the domain. -/
theorem Query.ofFluent_of_filters {now : Int} {d : Domain} {ms : List Clause} {fs : List Filter}
    {n : Nat} (h : Clause.buildAll now (.start d) ms = .ok (fs, n)) :
    Query.ofFluent now { domain := d, filters := ms } =
      .ok
        { domain := d
          resultFields := d.defaults.map (ResultField.main · d)
          elements := Filter.flatOfAll .and fs } := by
  have hwritten : Query.ofFluent now { domain := d, filters := ms } =
      (Clause.writeAll now (.start d) ms >>= fun s => s.complete ⟨[], none⟩) := rfl
  have hfields : (d.defaults.map (ResultField.main · d)).Nodup := by
    cases d <;> decide
  rw [hwritten, Draft.writeAll_of_empty (s := .start d) h ⟨rfl, rfl, rfl⟩ rfl, ok_bind,
    Draft.complete_eq, Query.withIncludes_nil, Query.addResultFields_of_nodup hfields, ok_bind]
  have hcheck := (Query.Alike.checkElements ⟨rfl, rfl⟩).trans (Query.check_flatOfAll h)
  exact congrArg (Except.map fun _ => _) hcheck

/-- A fluent query whose tests all become criteria gets a condition that is accepted, lists the
criteria in their order, is empty only if there are none, and holds when all filters do. No such
query is refused for its condition. -/
theorem ofFluent_flat (now : Int) (q : FluentQuery)
    (h : ∀ t ∈ Clause.testsOfAll q.filters, t.Builds now q.domain) :
    ∃ fs n es, Clause.buildAll now (.start q.domain) q.filters = .ok (fs, n) ∧
      (∀ s : Draft, s.Agrees (.start q.domain) → s.query.elements = [] →
        Clause.writeAll now s q.filters = .ok ((s.withElements es).renumbered n)) ∧
      ({ domain := q.domain, elements := es } : Query).checkElements = .ok () ∧
      Element.criteria es = Filter.criteriaOfAll fs ∧
      (es = [] ↔ Filter.criteriaOfAll fs = []) ∧
      (∀ v, Element.satisfied v es = Filter.allHold v fs) ∧
      (∀ r, Query.ofFluent now q = .ok r → r.elements = es) ∧
      ∀ e, Query.ofFluent now q = .error e → ¬ e.OfCondition := by
  obtain ⟨⟨fs, n⟩, hbuild⟩ := Clause.exists_buildAll q.filters (.start q.domain) h
  have hwrite := fun s hs hempty => Draft.writeAll_of_empty hbuild (s := s) hs hempty
  have hcriteria := Filter.criteria_flatOfAll fs .and rfl
  have hnil : Filter.flatOfAll .and fs = [] ↔ Filter.criteriaOfAll fs = [] :=
    ⟨fun hfs => by rw [← hcriteria, hfs]; rfl, Filter.flatOfAll_eq_nil fs .and⟩
  have hcheck : ({ domain := q.domain, elements := Filter.flatOfAll .and fs } :
      Query).checkElements = .ok () := by
    rw [Query.checkElements_eq_ok_iff]
    by_cases hfs : Filter.criteriaOfAll fs = []
    · exact .inl (hnil.2 hfs)
    · refine .inr ((Filter.means_flatOfAll_and (fun _ => true) fs hfs).check ?_ 0)
      rw [hcriteria]
      exact Clause.mainDomain_of_buildAll q.filters hbuild
  -- The action and the window are set first. They change nothing that writing the filters looks at.
  have hwindow : ∀ s, ({ Draft.start q.domain with
      query := { (Draft.start q.domain).query with action := q.action } } : Draft).setWindow
        q.offset q.limit = .ok s → s.Agrees (.start q.domain) ∧ s.query.elements = [] := by
    intro s hs
    obtain ⟨r, rfl, hr⟩ := Draft.setWindow_alike hs
    exact ⟨⟨hr.domain, rfl, rfl⟩, hr.elements⟩
  refine ⟨fs, n, _, hbuild, hwrite, hcheck, hcriteria, hnil, fun v => ?_, fun r hr => ?_,
    fun e he => ?_⟩
  · by_cases hfs : Filter.criteriaOfAll fs = []
    · rw [hnil.2 hfs, Filter.allHold_of_criteria_eq_nil v fs hfs]
      rfl
    · exact (Filter.means_flatOfAll_and v fs hfs).satisfied_eq
  · rw [Query.ofFluent] at hr
    obtain ⟨s, hs, hr⟩ := bind_eq_ok.1 hr
    obtain ⟨hagrees, hempty⟩ := hwindow s hs
    rw [hwrite s hagrees hempty, ok_bind] at hr
    exact (Draft.complete_eq_ok hr).1.elements
  -- The error is of the window, or of what completes the draft. Its condition is the one that was
  -- checked above.
  · rw [Query.ofFluent] at he
    rcases bind_eq_error.1 he with he | ⟨s, hs, he⟩
    · exact Draft.not_ofCondition_of_setWindow he
    · obtain ⟨hagrees, hempty⟩ := hwindow s hs
      rw [hwrite s hagrees hempty, ok_bind] at he
      refine Draft.not_ofCondition_of_complete
        (s := (s.withElements (Filter.flatOfAll .and fs)).renumbered n) hagrees.clauses ?_ he
      have halike : ((s.withElements (Filter.flatOfAll .and fs)).renumbered n).query.Alike
          { domain := q.domain, elements := Filter.flatOfAll .and fs } := ⟨hagrees.domain, rfl⟩
      rw [halike.checkElements, hcheck]

/-- A query with clauses that stay empty, in front of an alternative and inside it. -/
def FluentQuery.alternatives : FluentQuery where
  domain := .items
  filters := [.group .and [], .group .or [.test ⟨"name", .equals, .text "a"⟩,
    .group .and [.group .sameProperty []],
    .group .sameProperty [.test ⟨"@k", .equals, .text "v"⟩,
      .test ⟨"property.key", .matching, .text "w*"⟩]]]

theorem ofFluent_flat_alternatives :
    (∀ t ∈ Clause.testsOfAll FluentQuery.alternatives.filters, t.Builds 0 .items) ∧
    ∃ fs n es, Clause.buildAll 0 (.start .items) FluentQuery.alternatives.filters = .ok (fs, n) ∧
      ({ domain := .items, elements := es } : Query).checkElements = .ok () ∧
      (Element.criteria es).length = 3 ∧ ∀ v, Element.satisfied v es = Filter.allHold v fs := by
  have hbuilds : ∀ t ∈ Clause.testsOfAll FluentQuery.alternatives.filters, t.Builds 0 .items := by
    intro t ht
    simp only [FluentQuery.alternatives, Clause.testsOfAll, Clause.tests, List.append_nil,
      List.nil_append, List.cons_append, List.mem_cons, List.not_mem_nil, or_false] at ht
    rcases ht with rfl | rfl | rfl
    · exact ⟨_, rfl⟩
    · exact ⟨_, rfl⟩
    · exact ⟨_, rfl⟩
  refine ⟨hbuilds, ?_⟩
  obtain ⟨fs, n, es, hbuild, -, hcheck, hcriteria, -, hsatisfied, -⟩ :=
    ofFluent_flat 0 FluentQuery.alternatives hbuilds
  refine ⟨fs, n, es, hbuild, hcheck, ?_, hsatisfied⟩
  have hfs : (Filter.criteriaOfAll fs).length = 3 := by
    cases hbuild
    rfl
  rw [hcriteria, hfs]

end ArtifactQuery
