import ArtifactQuery.Proofs.Aliases
import ArtifactQuery.Proofs.Numbering
import ArtifactQuery.Proofs.Planning
import ArtifactQuery.Proofs.Printing
import ArtifactQuery.Proofs.Renderable

/-!
# Accepted queries become statements

What is accepted, as a text or as a fluent query, can be compiled: under all policies and in every
dialect it becomes a statement, unless its result fields need too many joins, or it returns no field
at all.

* `Query.Compilable`: its fields are reached, its criteria can become conditions, and it sorts by
  fields that it returns.
* `planned_toStatement`: a compilable query that returns a field becomes a statement.
* `compilable_ofText`, `compilable_ofFluent`: accepted queries are compilable.
* `compile_accepted`: the outcomes of compiling accepted queries.
-/

namespace ArtifactQuery

/-! ## Selections -/

/-- Whether a query can be compiled. -/
structure Query.Compilable (q : Query) : Prop where
  fields : ∀ f ∈ q.resultFields, f.Reached q.domain
  criteria : q.AllCompilable
  sort : ∀ o ∈ q.sort, ∀ f ∈ o.fields, f ∈ q.resultFields

namespace Sql.Selection

variable {d : Domain} {p' : JoinPlan} {items items' : List SelectItem}

/-- Each field gets its item. -/
theorem fields_addItems {fs : List ResultField} : ∀ {p : JoinPlan} {items : List SelectItem},
    addItems p items fs = .ok (items', p') →
      items'.map (·.column.field) = items.map (·.column.field) ++ fs := by
  induction fs with
  | nil =>
    intro p items h
    cases h
    rw [List.append_nil]
  | cons f fs ih =>
    intro p items h
    rw [addItems] at h
    obtain ⟨⟨o, p₁⟩, -, h⟩ := bind_eq_ok.1 h
    rw [ih h, List.map_append, List.append_assoc]
    rfl

theorem planned_addItems {fs : List ResultField} (hfs : ∀ f ∈ fs, f.Reached d) :
    ∀ {p : JoinPlan} {items : List SelectItem}, p.Ordered → p.main.table = d.table →
      Planned (addItems p items fs) := by
  induction fs with
  | nil => exact fun _ _ => .ok _
  | cons f fs ih =>
    intro p items hp hmain
    obtain ⟨hf, hfs⟩ := List.forall_mem_cons.1 hfs
    rw [addItems]
    refine (JoinPlan.planned_forField hp hmain hf).bind ?_
    rintro ⟨o, p₁⟩ hfield
    have ho := JoinPlan.arrives_forField hp hmain hf.walk.start hfield
    exact ih hfs ho.ordered (ho.main ▸ hmain)

theorem planned_pieceOf {p : JoinPlan} {e : Element} (hp : p.Ordered)
    (hmain : p.main.table = d.table) (he : ∀ c, e = .criterion c → c.Compilable d) :
    Planned (pieceOf p e) := by
  cases e with
  | criterion c =>
    have hc := he c rfl
    rw [pieceOf]
    refine (JoinPlan.planned_forCriterion hp hmain hc.start hc.linked).bind ?_
    rintro ⟨r, p₁⟩ hread
    obtain ⟨-, hreads⟩ := JoinPlan.reads_forCriterion hp hmain hc.start hread
    obtain ⟨k, hk⟩ := exists_render hc.renderable hreads hc.linked
    dsimp only
    rw [hk]
    exact .ok _
  | and | or | openParen | closeParen => exact .ok _

theorem planned_piecesOf {es : List Element} (hes : ∀ c, .criterion c ∈ es → c.Compilable d) :
    ∀ {p : JoinPlan}, p.Ordered → p.main.table = d.table → Planned (piecesOf p es) := by
  -- Each criterion is planned for and rendered in the plan that the earlier ones left. That plan
  -- grows in order from the table of the domain, which is all that the next one needs.
  induction es with
  | nil => exact fun _ _ => .ok _
  | cons e es ih =>
    intro p hp hmain
    have he : ∀ c, e = .criterion c → c.Compilable d :=
      fun c hc => hes c (hc ▸ List.mem_cons_self)
    rw [piecesOf]
    refine (planned_pieceOf hp hmain he).bind ?_
    rintro ⟨piece, p₁⟩ hpiece
    obtain ⟨hgrown, -⟩ := resolves_pieceOf hp hmain (fun c hc => (he c hc).start)
      (fun c hc => (he c hc).renderable.holdsProperties) hpiece
    refine Planned.bind (ih (fun c hc => hes c (List.mem_cons_of_mem _ hc)) hgrown.ordered
      (hgrown.main ▸ hmain)) fun _ _ => .ok _

/-- The order by fields that have items. -/
theorem exists_orderOf {o : Sorting} (h : ∀ f ∈ o.fields, f ∈ items.map (·.column.field)) :
    ∃ order, orderOf items o = .ok order := by
  refine exists_mapM fun f hf => ?_
  obtain ⟨i, hi, hfield⟩ := List.mem_map.1 (h f hf)
  have hsome : (items.find? (·.column.field = f)).isSome :=
    List.find?_isSome.2 ⟨i, hi, decide_eq_true hfield⟩
  obtain ⟨i', hi'⟩ := Option.isSome_iff_exists.1 hsome
  rw [columnNameOf, hi']
  exact ⟨_, rfl⟩

/-- A compilable query that returns a field has a selection unless there are too many joins. -/
theorem planned_ofQuery {q : Query} (hq : q.Compilable) (hne : q.resultFields ≠ []) :
    Planned (ofQuery q) := by
  have hcriteria : ∀ c, .criterion c ∈ q.elements → c.Compilable q.domain :=
    fun c hc => hq.criteria c (List.mem_filterMap.2 ⟨_, hc, rfl⟩)
  have hp := JoinPlan.ordered_start q.domain.table
  unfold ofQuery
  -- The items, the pieces and the order fail for nothing but too many joins: there is an item for
  -- every field, a criterion reads what was planned for it, and what is sorted by is returned.
  refine (planned_addItems hq.fields hp rfl).bind ?_
  rintro ⟨items, p⟩ hitems
  have hfields := fields_addItems hitems
  rw [List.map_nil, List.nil_append] at hfields
  have hitemsNe : items ≠ [] := by
    rintro rfl
    exact hne hfields.symm
  obtain ⟨hgrown, -⟩ := readsIn_addItems (d := q.domain)
    (fun f hf => (hq.fields f hf).walk.start) hp rfl (fun i hi => by cases hi) hitems
  dsimp only
  rw [if_neg hitemsNe]
  have hmain : p.main.table = q.domain.table := by
    rw [hgrown.main]
    rfl
  refine (planned_piecesOf (d := q.domain) hcriteria hgrown.ordered hmain).bind ?_
  rintro ⟨pieces, p₁⟩ -
  dsimp only
  split
  · rename_i o ho
    have hsort : ∀ f ∈ o.fields, f ∈ items.map (·.column.field) :=
      fun f hf => hfields ▸ hq.sort o ho f hf
    obtain ⟨order, horder⟩ := exists_orderOf hsort
    rw [horder]
    exact .ok _
  · exact .ok _

/-- Without fields to return there is no selection. -/
theorem ofQuery_of_no_fields {q : Query} (h : q.resultFields = []) :
    ofQuery q = .error (.malformed (.noResultFields q.domain)) := by
  unfold ofQuery
  rw [h]
  rfl

end Sql.Selection

theorem planned_toStatement {q : Query} (hq : q.Compilable) (hne : q.resultFields ≠ [])
    (d : Dialect) : Sql.Planned (q.toStatement d) := by
  rcases Sql.Selection.planned_ofQuery hq hne with ⟨sel, hsel⟩ | herror
  · exact .inl (Query.exists_toStatement hsel d)
  · rw [Query.toStatement, herror]
    exact .inr rfl

/-! ## Policies and dialects -/

namespace Query

variable {q : Query}

/-- A compilable query stays so under policies and in a dialect. -/
theorem Compilable.decorated (h : q.Compilable) (s : Surroundings) (ps : List Policy)
    (d : Dialect) : ((q.decorate s ps).tuned d).Compilable ∧
      ((q.decorate s ps).tuned d).resultFields = q.resultFields ∧
      ((q.decorate s ps).tuned d).domain = q.domain := by
  have hcriteria := allCompilable_tuned d (allCompilable_decorate s ps h.criteria)
  obtain ⟨es, hes⟩ := q.decorate_eq s ps
  obtain ⟨es', hes'⟩ := (q.decorate s ps).tuned_eq d
  rw [hes', hes] at hcriteria ⊢
  exact ⟨⟨h.fields, hcriteria, h.sort⟩, rfl, rfl⟩

/-- Compiling a compilable query gives a statement, or one of two errors. -/
theorem Compilable.compile (h : q.Compilable) (d : Dialect) (s : Surroundings) :
    (q.resultFields = [] → q.compile d s = .error (.malformed (.noResultFields q.domain))) ∧
      (q.resultFields ≠ [] → Sql.Planned (q.compile d s)) := by
  obtain ⟨hcompilable, hfields, hdomain⟩ := h.decorated s Policy.all d
  rw [Query.compile]
  constructor
  · intro hnil
    rw [Query.toStatement, Sql.Selection.ofQuery_of_no_fields (hfields.trans hnil), hdomain]
    rfl
  · intro hne
    exact planned_toStatement hcompilable (hfields ▸ hne) d

end Query

/-! ## Returned fields -/

namespace Query

variable {q q' : Query}

theorem mem_addResultFields {fs : List ResultField} {f : ResultField} :
    f ∈ (q.addResultFields fs).resultFields ↔ f ∈ q.resultFields ∨ f ∈ fs := by
  rw [addResultFields]
  induction fs generalizing q with
  | nil => simp
  | cons g fs ih =>
    have hadd : f ∈ (q.addResultField g).resultFields ↔ f ∈ q.resultFields ∨ f = g := by
      rw [addResultField]
      split
      case isTrue hg => exact ⟨.inl, fun h => h.elim id fun hfg => hfg ▸ hg⟩
      case isFalse => rw [List.mem_append, List.mem_singleton]
    rw [List.foldl_cons, ih, hadd, List.mem_cons, or_assoc]

theorem addResultFields_eq_nil {fs : List ResultField} :
    (q.addResultFields fs).resultFields = [] ↔ q.resultFields = [] ∧ fs = [] := by
  simp only [List.eq_nil_iff_forall_not_mem, mem_addResultFields, not_or, forall_and]

/-- Whether includes name no field. -/
def NoneIncluded (d : Domain) (includes : List String) : Prop :=
  ∀ path ∈ includes, FieldPath.resolveInclude d path = .ok []

/-- The fields returned are reached. There are none if the domain has no fields to return by default
and the includes name none. -/
theorem reached_withIncludes {includes : List String} (hnil : q.resultFields = [])
    (h : q.withIncludes includes = .ok q') :
    q'.sort = q.sort ∧ (∀ f ∈ q'.resultFields, f.Reached q.domain) ∧
      (q'.resultFields = [] ↔ q.domain.defaults = [] ∧ NoneIncluded q.domain includes) := by
  rw [withIncludes] at h
  obtain ⟨fss, hfss, h⟩ := bind_eq_ok.1 h
  cases h
  obtain ⟨hfrom, hto⟩ := mapM_eq_ok hfss
  -- A field is there by default or by an include. The defaults are left out only where an include
  -- names a field of the domain itself, and then the includes are not empty.
  refine ⟨(addResultFields_sort _ _).trans (addResultFields_sort _ _), fun f hf => ?_, ?_⟩
  · rw [mem_addResultFields, mem_addResultFields, hnil] at hf
    rcases hf with (hf | hf) | hf
    · cases hf
    · split at hf
      · cases hf
      · obtain ⟨f', hf', rfl⟩ := List.mem_map.1 hf
        have hdomain := FieldPath.domain_of_mem_defaults hf'
        exact ⟨FieldPath.walk_singleton _, congrArg some hdomain.symm⟩
    · obtain ⟨fs, hfs, hf⟩ := List.mem_flatten.1 hf
      obtain ⟨path, -, hpath⟩ := hfrom fs hfs
      exact FieldPath.reached_resolveInclude hpath f hf
  · rw [addResultFields_eq_nil, addResultFields_eq_nil, List.flatten_eq_nil_iff]
    constructor
    · rintro ⟨⟨-, hown⟩, hnone⟩
      have hflat : fss.flatten = [] := List.flatten_eq_nil_iff.2 hnone
      rw [hflat, List.any_nil, if_neg Bool.false_ne_true] at hown
      refine ⟨List.map_eq_nil_iff.1 hown, fun path hpath => ?_⟩
      obtain ⟨fs, hfs, hok⟩ := hto path hpath
      rw [hok, hnone fs hfs]
    · rintro ⟨hdefaults, hnone⟩
      refine ⟨⟨hnil, ?_⟩, fun fs hfs => ?_⟩
      · rw [hdefaults]
        split <;> rfl
      · obtain ⟨path, hpath, hok⟩ := hfrom fs hfs
        exact Except.ok.inj (hok.symm.trans (hnone path hpath))

/-- What locates an item is reached where the item is. -/
theorem reached_locationFields {d : Domain} {path : List Domain} (hwalk : d.Walk path)
    (hlast : path.getLast? = some .items) :
    ∀ f ∈ locationFields.map (⟨·, path⟩ : Field → ResultField), f.Reached d := by
  intro f hf
  obtain ⟨f', hf', rfl⟩ := List.mem_map.1 hf
  have hdomain : ∀ f ∈ locationFields, f.domain = .items := by decide
  exact ⟨hwalk, hlast.trans (congrArg some (hdomain f' hf').symm)⟩

/-- The fields that an action reads are reached. -/
theorem reached_located {k : ActionKind} {d : Domain} (h : k.supports d = true) :
    ∀ f ∈ k.located, f.Reached d := by
  -- An action that reads fields supports one domain only, from which there is one path to the item.
  cases k with
  | find => exact List.forall_mem_nil _
  | delete =>
    obtain rfl : d = .items := of_decide_eq_true h
    exact reached_locationFields (FieldPath.walk_singleton _) rfl
  | updateProperty =>
    obtain rfl : d = .properties := of_decide_eq_true h
    exact reached_locationFields ⟨rfl, List.isChain_pair.2 (by decide)⟩ rfl

/-- Domains on which an action reads fields have fields to return by default. -/
theorem located_eq_nil {k : ActionKind} {d : Domain} (h : k.supports d = true)
    (hd : d.defaults = []) : k.located = [] := by
  cases k with
  | find => rfl
  | delete =>
    obtain rfl : d = .items := of_decide_eq_true h
    cases hd
  | updateProperty =>
    obtain rfl : d = .properties := of_decide_eq_true h
    cases hd

/-- Only archives have no fields to return by default. -/
theorem defaults_eq_nil {d : Domain} : d.defaults = [] ↔ d = .archives := by
  cases d <;> decide

end Query

/-! ## Completed drafts -/

namespace Draft

variable {s s' : Draft} {q : Query}

/-- A draft is sorted by fields that it returns. -/
theorem sorted_eq_ok {o : Option (Direction × List String)} (hnone : s.query.sort = none)
    (h : s.sorted o = .ok s') : ∃ sort, s' = { s with query := { s.query with sort := sort } } ∧
      ∀ o ∈ sort, ∀ f ∈ o.fields, f ∈ s.query.resultFields := by
  cases o with
  | none =>
    cases h
    exact ⟨none, by rw [← hnone], fun o ho => by cases ho⟩
  | some o =>
    rw [sorted, Option.elim_some, sortBy] at h
    obtain ⟨fields, -, h⟩ := bind_eq_ok.1 h
    rw [setSort] at h
    split at h
    · cases h
    split at h
    · cases h
    rename_i hfind
    cases h
    refine ⟨_, rfl, fun o' ho' f hf => ?_⟩
    cases ho'
    have hmem := List.find?_eq_none.1 hfind f hf
    simpa using hmem

/-- A completed draft whose criteria are compilable is a compilable query. It returns no field only
on archives, where the includes name none. -/
theorem compilable_of_complete {c : Completion} (hnil : s.query.resultFields = [])
    (hnone : s.query.sort = none) (hcriteria : s.query.AllCompilable) (h : s.complete c = .ok q) :
    q.Compilable ∧ q.domain = s.query.domain ∧ (q.resultFields = [] ↔
      s.query.domain = .archives ∧ Query.NoneIncluded s.query.domain c.includes) := by
  have halike := (complete_eq_ok h).1
  rw [complete_eq] at h
  obtain ⟨q₁, hincludes, h⟩ := bind_eq_ok.1 h
  obtain ⟨q₂, haction, h⟩ := bind_eq_ok.1 h
  obtain ⟨s₁, hsorted, hfinish⟩ := bind_eq_ok.1 h
  -- The fields are collected in two steps, by the includes and by the action, and the order is
  -- checked against both. Only the first step can leave nothing to return.
  obtain ⟨hsort₁, hreached₁, hnil₁⟩ := Query.reached_withIncludes hnil hincludes
  have hdomain₁ := (Query.withIncludes_alike hincludes).domain
  obtain ⟨hsupported, rfl⟩ := Query.withAction_eq haction
  rw [hdomain₁] at hsupported
  have hsort₂ := (q₁.addResultFields_sort q₁.action.kind.located).trans (hsort₁.trans hnone)
  have hreached₂ : ∀ f ∈ (q₁.addResultFields q₁.action.kind.located).resultFields,
      f.Reached s.query.domain := fun f hf =>
    (Query.mem_addResultFields.1 hf).elim (hreached₁ f) (Query.reached_located hsupported f)
  have hnil₂ : (q₁.addResultFields q₁.action.kind.located).resultFields = [] ↔
      q₁.resultFields = [] := by
    rw [Query.addResultFields_eq_nil]
    exact ⟨And.left, fun hq₁ => ⟨hq₁, Query.located_eq_nil hsupported (hnil₁.1 hq₁).1⟩⟩
  obtain ⟨sort, rfl, hsort⟩ := sorted_eq_ok hsort₂ hsorted
  rw [finish] at hfinish
  split at hfinish
  · cases hfinish
  obtain ⟨⟨⟩, -, rfl⟩ := map_eq_ok.1 hfinish
  refine ⟨⟨fun f hf => ?_, ?_, hsort⟩, halike.domain, ?_⟩
  · rw [halike.domain]
    exact hreached₂ f hf
  · intro c hc
    rw [Query.criteria, halike.elements] at hc
    rw [halike.domain]
    exact hcriteria c hc
  · rw [← Query.defaults_eq_nil, ← hnil₁, ← hnil₂]

/-! ## Written drafts -/

/-- Whether a draft on a domain returns no field yet, is not sorted, and has compilable criteria. -/
structure Unfinished (d : Domain) (s : Draft) : Prop where
  domain : s.query.domain = d
  fields : s.query.resultFields = []
  sort : s.query.sort = none
  criteria : s.query.AllCompilable

theorem unfinished_start (d : Domain) : (start d).Unfinished d where
  domain := rfl
  fields := rfl
  sort := rfl
  criteria c hc := by cases hc

theorem Unfinished.acting {d : Domain} (h : s.Unfinished d) (a : ActionSpec) :
    Unfinished d { s with query := { s.query with action := a } } where
  domain := h.domain
  fields := h.fields
  sort := h.sort
  criteria := h.criteria

/-- A draft stays unfinished when its elements change, if all criteria are compilable. -/
theorem Unfinished.withElements {d : Domain} {es : List Element} (h : s.Unfinished d)
    (hquery : s'.query = { s.query with elements := es })
    (hes : ∀ c ∈ Element.criteria es, c.Compilable s.query.domain) : s'.Unfinished d := by
  refine ⟨?_, ?_, ?_, fun c hc => ?_⟩
  · rw [hquery]
    exact h.domain
  · rw [hquery]
    exact h.fields
  · rw [hquery]
    exact h.sort
  · rw [hquery] at hc ⊢
    exact hes c hc

/-- Writing tests and clauses keeps a draft unfinished. -/
theorem keeps_unfinished (now : Int) (d : Domain) : Keeps now (Unfinished d) where
  -- A test adds a compilable criterion, and clauses add none.
  addTest hs h := by
    obtain ⟨c, s₁, n, es, hc, -, rfl, hes⟩ := addTest_eq_ok h
    refine hs.withElements rfl fun c' hc' => ?_
    rw [hes, List.mem_append, List.mem_singleton] at hc'
    rcases hc' with hc' | rfl
    · exact hs.criteria c' hc'
    · exact Criterion.compilable_criterionOf hc
  openClause {s} k hs := by
    have hcriteria := criteria_openClause s k
    rw [openClause_query] at hcriteria
    exact hs.withElements (openClause_query s k) fun c hc => hs.criteria c (hcriteria ▸ hc)
  closeClause hs h := by
    obtain ⟨o, es, -, -, hquery, hes⟩ := closeClause_eq_ok h
    exact hs.withElements hquery fun c hc => hs.criteria c (hes ▸ hc)

theorem Unfinished.setWindow {d : Domain} {offset limit : Option Int} (hs : s.Unfinished d)
    (h : s.setWindow offset limit = .ok s') : s'.Unfinished d := by
  rw [setWindow_eq] at h
  obtain ⟨s₁, hoffset, hlimit⟩ := bind_eq_ok.1 h
  -- Offset and limit are set one after the other, and neither touches what is unfinished.
  have hs₁ : s₁.Unfinished d := by
    cases offset with
    | none =>
      cases hoffset
      exact hs
    | some n =>
      rw [Option.elim_some, setOffset] at hoffset
      split at hoffset <;> cases hoffset
      exact ⟨hs.domain, hs.fields, hs.sort, hs.criteria⟩
  cases limit with
  | none =>
    cases hlimit
    exact hs₁
  | some n =>
    rw [Option.elim_some, setLimit] at hlimit
    split at hlimit <;> cases hlimit
    exact ⟨hs₁.domain, hs₁.fields, hs₁.sort, hs₁.criteria⟩

end Draft

/-! ## Accepted queries -/

namespace Query

variable {now : Int} {q : Query}

/-- A fluent query that is accepted completes an unfinished draft. -/
theorem unfinished_ofFluent {f : FluentQuery} (h : ofFluent now f = .ok q) :
    ∃ s : Draft, s.Unfinished f.domain ∧ s.complete ⟨f.includes, f.sort⟩ = .ok q := by
  rw [ofFluent] at h
  obtain ⟨s, hs, h⟩ := bind_eq_ok.1 h
  obtain ⟨s₁, hwrite, hcomplete⟩ := bind_eq_ok.1 h
  have hs' := ((Draft.unfinished_start f.domain).acting f.action).setWindow hs
  exact ⟨s₁, Clause.keeps_writeAll (Draft.keeps_unfinished now f.domain) f.filters hs' hwrite,
    hcomplete⟩

/-- A fluent query that is accepted is compilable. -/
theorem compilable_ofFluent {f : FluentQuery} (h : ofFluent now f = .ok q) :
    q.Compilable ∧ q.domain = f.domain ∧
      (q.resultFields = [] ↔ f.domain = .archives ∧ NoneIncluded f.domain f.includes) := by
  obtain ⟨s₁, hs₁, hcomplete⟩ := unfinished_ofFluent h
  have hq := Draft.compilable_of_complete hs₁.fields hs₁.sort hs₁.criteria hcomplete
  rw [hs₁.domain] at hq
  exact hq

/-- No text starts with archives. -/
theorem ne_archives_of_ofName? {n : String} {d : Domain} (h : Domain.ofName? n = some d) :
    d ≠ .archives := by
  unfold Domain.ofName? at h
  split at h <;> cases h <;> decide

theorem ne_archives_of_noteSubject {ps : List Phrase} {s s' : Phrase.Subject}
    (hs : s.domain ≠ some .archives) (h : ps.foldlM Phrase.noteSubject s = .ok s') :
    s'.domain ≠ some .archives := by
  induction ps generalizing s with
  | nil =>
    cases h
    exact hs
  | cons p ps ih =>
    rw [List.foldlM_cons] at h
    obtain ⟨s₁, hp, h⟩ := bind_eq_ok.1 h
    refine ih ?_ h
    -- Only the phrase of a domain sets one, and it does so by its name.
    unfold Phrase.noteSubject at hp
    split at hp
    · split at hp
      · rename_i d hd
        cases hp
        exact fun heq => ne_archives_of_ofName? hd (Option.some.inj heq)
      · cases hp
    · split at hp <;> cases hp
      exact hs
    · cases hp
      exact hs

/-- A textual query that is accepted completes an unfinished draft. -/
theorem unfinished_ofText {text : String} (h : ofText now text = .ok q) :
    ∃ d c, ∃ s : Draft, s.Unfinished d ∧ s.complete c = .ok q ∧ d ≠ .archives := by
  rw [ofText] at h
  obtain ⟨ps, -, h⟩ := bind_eq_ok.1 h
  rw [ofPhrases] at h
  obtain ⟨subject, hsubject, h⟩ := bind_eq_ok.1 h
  split at h
  case h_2 => cases h
  case h_1 d hd =>
    obtain ⟨sort, -, h⟩ := bind_eq_ok.1 h
    obtain ⟨s, hs, h⟩ := bind_eq_ok.1 h
    obtain ⟨s₁, hwrite, hcomplete⟩ := bind_eq_ok.1 h
    have hs' := (Draft.unfinished_start d).setWindow hs
    -- Writing the phrases starts from an unfinished draft and keeps it so.
    have hs₁ := Phrase.keeps_writeCriteria (Draft.keeps_unfinished now d) ps (hs'.acting _) hwrite
    exact ⟨d, _, s₁, hs₁, hcomplete, fun heq =>
      ne_archives_of_noteSubject (s := {}) (by decide) hsubject (hd.trans (congrArg some heq))⟩

/-- A textual query that is accepted is compilable and returns a field. -/
theorem compilable_ofText {text : String} (h : ofText now text = .ok q) :
    q.Compilable ∧ q.resultFields ≠ [] := by
  obtain ⟨d, c, s₁, hs₁, hcomplete, hd⟩ := unfinished_ofText h
  obtain ⟨hq, -, hnil⟩ := Draft.compilable_of_complete hs₁.fields hs₁.sort hs₁.criteria hcomplete
  refine ⟨hq, fun hfields => hd ?_⟩
  rw [← hs₁.domain]
  exact (hnil.1 hfields).1

end Query

/-- Under all policies and in every dialect an accepted text becomes a statement, unless its result
fields need too many joins. So does an accepted fluent query, unless it is on archives and includes
no field: then there is nothing to return. -/
theorem compile_accepted (now : Int) (d : Dialect) (s : Surroundings) :
    (∀ text q, Query.ofText now text = .ok q →
      (∃ st, q.compile d s = .ok st) ∨ q.compile d s = .error (.malformed .tooManyJoins)) ∧
    ∀ (f : FluentQuery) q, Query.ofFluent now f = .ok q →
      (f.domain = .archives ∧ Query.NoneIncluded f.domain f.includes →
        q.compile d s = .error (.malformed (.noResultFields .archives))) ∧
      (¬ (f.domain = .archives ∧ Query.NoneIncluded f.domain f.includes) →
        (∃ st, q.compile d s = .ok st) ∨ q.compile d s = .error (.malformed .tooManyJoins)) := by
  constructor
  -- A text never starts with archives, so it always has a field to return.
  · intro text q hq
    obtain ⟨hcompilable, hne⟩ := Query.compilable_ofText hq
    exact (hcompilable.compile d s).2 hne
  · intro f q hq
    obtain ⟨hcompilable, hdomain, hnil⟩ := Query.compilable_ofFluent hq
    obtain ⟨hnone, hsome⟩ := hcompilable.compile d s
    refine ⟨fun h => ?_, fun h => hsome fun hfields => h (hnil.1 hfields)⟩
    rw [hnone (hnil.2 h), hdomain, h.1]

/-- Items of one repository with a property of some form. -/
def Statement.ofForm : Statement where
  domain := "items"
  action := "find"
  criteria := [.equals "repo" (.text "a"), .compares "@k" [("$match", .text "b*")]]
  methods := [.returning ["name"]]

def textOfForm : String :=
  " items . find ( \x7b \"repo\" : \"a\" , \"@k\" : \x7b \"$match\" : \"b*\" \x7d \x7d )" ++
    " . include ( \"name\" )"

/-- A text and a fluent query on archives that become statements, and one on archives that includes
nothing. -/
theorem compile_accepted_ofForm :
    (∃ q, Query.ofText 0 textOfForm = .ok q ∧ ∃ st, q.compile .postgresql {} = .ok st) ∧
      (∃ q, Query.ofFluent 0 { domain := .archives, includes := ["item.name"] } = .ok q ∧
        ∃ st, q.compile .oracle {} = .ok st) ∧
      ∃ q, Query.ofFluent 0 { domain := .archives } = .ok q ∧
        q.compile .derby {} = .error (.malformed (.noResultFields .archives)) := by
  refine ⟨?_, ?_, ?_⟩
  · have hcriteria : Entry.ProperEntries Statement.ofForm.criteria := by
      refine ⟨⟨by unfold IsFieldKey; decide, trivial⟩,
        ⟨by unfold IsFieldKey; decide, List.cons_ne_nil _ _, ?_⟩, trivial⟩
      rw [List.forall_mem_singleton]
      exact ⟨⟨.matching, rfl⟩, trivial⟩
    have hproper : Statement.ofForm.Proper := ⟨rfl, .inl rfl, hcriteria⟩
    have hfits : ∀ m ∈ Statement.ofForm.methods, m.Fits :=
      List.forall_mem_singleton.2 trivial
    have hspelled : Token.Spelled Statement.ofForm.tokens textOfForm.toList := by
      have htext : textOfForm = String.ofList (Token.line Statement.ofForm.tokens) := by
        decide +kernel
      rw [htext, String.toList_ofList]
      exact Token.spelled_line (allSpellable_statementTokens hproper hfits)
    have hphrases : Query.ofText 0 textOfForm = Query.ofPhrases 0 Statement.ofForm.phrases := by
      unfold Query.ofText Phrase.ofText
      rw [statement_ofText hproper hspelled]
      rfl
    have hoccurrences : (Query.ofPhrases 0 Statement.ofForm.phrases >>= fun q =>
        (Sql.Selection.ofQuery ((q.decorate {} Policy.all).tuned .postgresql)).map fun sel =>
          sel.joins.occurrences.map Occurrence.name) = .ok ["n", "np100"] := by
      decide +kernel
    obtain ⟨q, hq, hmap⟩ := bind_eq_ok.1 hoccurrences
    obtain ⟨sel, hsel, -⟩ := map_eq_ok.1 hmap
    have haccepted : Query.ofText 0 textOfForm = .ok q := hphrases.trans hq
    refine ⟨q, haccepted, ?_⟩
    -- The selection was computed, so the other outcome does not occur.
    rcases (compile_accepted 0 .postgresql {}).1 _ q haccepted with hst | -
    · exact hst
    · exact Query.exists_toStatement hsel .postgresql
  · have hincluded : ¬ Query.NoneIncluded .archives ["item.name"] :=
      fun h => absurd (h _ List.mem_cons_self) (by decide +kernel)
    have hoccurrences : (Query.ofFluent 0 { domain := .archives, includes := ["item.name"] } >>=
        fun q => (Sql.Selection.ofQuery ((q.decorate {} Policy.all).tuned .oracle)).map fun sel =>
          sel.joins.occurrences.map Occurrence.name) = .ok ["ia", "n"] := by
      decide +kernel
    obtain ⟨q, haccepted, hmap⟩ := bind_eq_ok.1 hoccurrences
    obtain ⟨sel, hsel, -⟩ := map_eq_ok.1 hmap
    refine ⟨q, haccepted, ?_⟩
    rcases ((compile_accepted 0 .oracle {}).2 _ q haccepted).2 (fun h => hincluded h.2) with hst | -
    · exact hst
    · exact Query.exists_toStatement hsel .oracle
  · have hdomain : (Query.ofFluent 0 { domain := .archives }).map (·.domain) = .ok .archives := by
      decide +kernel
    obtain ⟨q, hq, -⟩ := map_eq_ok.1 hdomain
    exact ⟨q, hq, ((compile_accepted 0 .derby {}).2 _ q hq).1
      ⟨rfl, fun path hpath => absurd hpath List.not_mem_nil⟩⟩

end ArtifactQuery
