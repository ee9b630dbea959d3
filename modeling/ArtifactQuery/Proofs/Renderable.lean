import ArtifactQuery.Proofs.JoinOrder
import ArtifactQuery.Proofs.Policies
import ArtifactQuery.Proofs.Walks

/-!
# Criteria that become conditions

The checks that a test passes before it becomes a criterion are all that its condition needs.
Policies and dialects change criteria within these bounds, and add such as keep them.

* `Comparator.Suits`: the values that a comparator is written with.
* `Criterion.Renderable`: a field, a property or two numbers compared so that SQL can say it.
* `exists_render`: a renderable criterion becomes a condition on what it reads.
* `Criterion.Compilable`: a renderable criterion whose tables can be joined.
* `compilable_criterionOf`: tests become compilable criteria.
* `allCompilable_decorate`, `allCompilable_tuned`: criteria stay compilable under policies and in a
  dialect.
-/

namespace ArtifactQuery

/-! ## Comparisons -/

/-- Whether SQL can compare by a comparator with a value. -/
def Comparator.Suits (c : Comparator) : Value → Prop
  | .null | .itemType _ => c.isEquality
  | .text _ => c.ofSpan? = none
  | .long _ | .date _ => c.ofSpan? = none ∧ ¬ c.takesPattern

/-- Whether a value is of a type; no value is of every type. -/
def Value.HasType : FieldType → Value → Prop
  | _, .null => True
  | .text, .text _ => True
  | .long, .long _ | .integer, .long _ => True
  | .date, .date _ => True
  | .itemType, .itemType _ => True
  | _, _ => False

section Comparisons

variable {c : Comparator} {t : FieldType} {v : Value} {path : String}

theorem Value.numberOf_eq_ok {l : Literal} (h : numberOf l = .ok v) : ∃ n, v = .long n := by
  unfold numberOf at h
  split at h
  · exact ⟨_, (Except.ok.inj h).symm⟩
  · split at h
    · exact ⟨_, (Except.ok.inj h).symm⟩
    · cases h
  · cases h

theorem Value.dateOf_eq_ok {l : Literal} (h : dateOf l = .ok v) : ∃ n, v = .date n := by
  unfold dateOf at h
  split at h
  · exact ⟨_, (Except.ok.inj h).symm⟩
  · obtain ⟨n, -, rfl⟩ := map_eq_ok.1 h
    exact ⟨n, rfl⟩
  · cases h

theorem Value.itemTypeOf_eq_ok {l : Literal} (h : itemTypeOf l = .ok v) : ∃ i, v = .itemType i := by
  unfold itemTypeOf at h
  split at h
  · split at h
    · exact ⟨_, (Except.ok.inj h).symm⟩
    · cases h
  · cases h

/-- A literal is read as a value of the type asked for. -/
theorem Value.hasType_ofLiteral {l : Literal} (h : ofLiteral t l = .ok v) : v.HasType t := by
  unfold ofLiteral at h
  split at h
  · cases h
    cases t <;> trivial
  · cases h
    trivial
  · obtain ⟨n, rfl⟩ := numberOf_eq_ok h
    trivial
  · obtain ⟨n, rfl⟩ := numberOf_eq_ok h
    trivial
  · obtain ⟨n, rfl⟩ := dateOf_eq_ok h
    trivial
  · obtain ⟨i, rfl⟩ := itemTypeOf_eq_ok h
    trivial

/-- A comparator that passed its check suits the value. -/
theorem Comparator.suits_of_check (hv : v.HasType t) (hspan : c.ofSpan? = none)
    (h : c.check path t v = .ok ()) : c.Suits v := by
  rw [check] at h
  split at h
  · cases h
  rename_i hnull
  split at h
  · cases h
  rename_i hpattern
  split at h
  · cases h
  rename_i hitem
  cases v with
  | null => exact not_not.1 fun hne => hnull ⟨rfl, hne⟩
  | text s => exact hspan
  | long n | date n =>
    refine ⟨hspan, fun htakes => hpattern ⟨htakes, ?_⟩⟩
    rintro rfl
    exact hv
  | itemType i =>
    cases t with
    | itemType => exact not_not.1 fun hne => hitem ⟨rfl, hne⟩
    | _ => exact hv.elim

/-- Comparator and value of a test suit each other once they are checked. -/
theorem Comparator.suits_of_resolve {now : Int} {c' : Comparator} {l : Literal}
    (h : c.resolve now path t l = .ok (c', v)) (hcheck : c'.check path t v = .ok ()) :
    c'.Suits v := by
  rw [resolve] at h
  split at h
  case h_1 hspan =>
    obtain ⟨v', hv, h⟩ := map_eq_ok.1 h
    cases h
    exact suits_of_check (Value.hasType_ofLiteral hv) hspan hcheck
  case h_2 absolute hspan =>
    split at h
    · cases h
    obtain ⟨n, -, h⟩ := map_eq_ok.1 h
    cases h
    cases c <;> cases hspan <;> exact ⟨rfl, Bool.false_ne_true⟩

/-- What a comparator denies suits the same values. -/
theorem Comparator.Suits.positive (h : c.Suits v) : c.positive.Suits v := by
  cases v <;> cases c <;> exact h

/-- A comparison with a value that suits the comparator becomes a condition. -/
theorem Sql.Comparison.exists_condition {c : Sql.Comparison} (h : c.comparator.Suits c.value) :
    ∃ k, c.condition = .ok k := by
  obtain ⟨column, nullable, head, cmp, v⟩ := c
  cases v with
  | null => cases cmp <;> first | exact ⟨_, rfl⟩ | cases h
  | text s => cases cmp <;> first | exact ⟨_, rfl⟩ | cases h
  | long n | date n =>
    obtain ⟨hspan, hpattern⟩ := h
    cases cmp <;> first | exact ⟨_, rfl⟩ | exact absurd rfl hpattern | cases hspan
  | itemType i => cases i <;> cases cmp <;> first | exact ⟨_, rfl⟩ | cases h

end Comparisons

/-! ## Renderable criteria -/

/-- Whether a criterion compares a field or a property with a value that suits the comparator, or a
number with a number. -/
inductive Criterion.Renderable (c : Criterion) : Prop
  | field (f : Field) (v : Value) (hkind : c.kind.namesKey = false) (hleft : c.left = .field f)
      (hright : c.right = .value v) (hsuits : c.comparator.Suits v)
  | property (key : String) (v : Value) (hkind : c.kind.namesKey = true)
      (hleft : c.left = .value (.text key)) (hright : c.right = .value v)
      (hsuits : c.comparator.Suits v) (htable : c.leftTable.table.holdsProperties)
  | numbers (m n : Int) (hkind : c.kind.namesKey = false) (hleft : c.left = .value (.long m))
      (hcomparator : c.comparator = .equals) (hright : c.right = .value (.long n))

theorem Criterion.Renderable.holdsProperties {c : Criterion} (h : c.Renderable)
    (hkind : c.kind.namesKey) : c.leftTable.table.holdsProperties := by
  cases h with
  | field f v hnot | numbers m n hnot =>
    rw [hkind] at hnot
    cases hnot
  | property key v _ _ _ _ htable => exact htable

namespace Sql

/-- Where properties are, there are columns on which they hang. -/
theorem exists_ownerColumns {owner t : Table} (ht : t.holdsProperties)
    (h : owner = t ∨ owner.Linked t) : ∃ c, ownerColumns owner t = .ok c := by
  rw [ownerColumns]
  split
  · cases t <;> first | exact ⟨_, rfl⟩ | cases ht
  · rename_i hne
    obtain ⟨c, hc⟩ := Option.isSome_iff_exists.1 (h.resolve_left hne)
    exact ⟨c, by rw [Table.link, hc]⟩

variable {p : JoinPlan} {c : Criterion} {r : Reading}

/-- A renderable criterion becomes a condition on what it reads. -/
theorem exists_render (hc : c.Renderable) (hr : ∀ t ∈ comparedTable? c, p.Reads c t r)
    (hlinked : ∀ t ∈ comparedTable? c, (tableChain c.path t).IsChain Table.Linked) :
    ∃ k, c.render r.occurrence r.owner = .ok k := by
  cases hc with
  | field f v hkind hleft hright hsuits =>
    obtain ⟨k, hk⟩ := Comparison.exists_condition (c := ⟨⟨some r.occurrence, f.column.column⟩,
      f.column.nullable, if c.kind = .propertyColumnHead ∧ f.column.column = "prop_value" then
        some headLength else none, c.comparator, v⟩) hsuits
    rw [Criterion.render, hright, hleft]
    dsimp only
    rw [hkind, if_neg Bool.false_ne_true, Criterion.renderField, hk]
    exact ⟨k, rfl⟩
  | numbers m n hkind hleft hcomparator hright =>
    rw [Criterion.render, hright, hleft]
    dsimp only
    rw [hkind, if_neg Bool.false_ne_true, Criterion.renderValues, hcomparator]
    exact ⟨_, rfl⟩
  | property key v hkind hleft hright hsuits htable =>
    have ht : comparedTable? c = some c.leftTable.table := by
      rw [comparedTable?, hleft, if_pos hkind]
    have hreads := hr _ ht
    rw [Criterion.render, hright, hleft]
    dsimp only
    rw [if_pos hkind, Criterion.renderProperty]
    split
    · obtain ⟨k, hk⟩ := Comparison.exists_condition (c := ⟨⟨some r.occurrence, "prop_value"⟩,
        true, if c.kind = .propertyHead then some headLength else none, c.comparator, v⟩) hsuits
      rw [hk]
      exact ⟨_, rfl⟩
    -- The owner is the table before the properties on the chain, so the two are linked.
    · have howner : (r.owner.getD r.occurrence).table = c.leftTable.table ∨
          (r.owner.getD r.occurrence).table.Linked c.leftTable.table :=
        hreads.ownerTable.imp_right fun hsuffix =>
          List.isChain_pair.1 ((hlinked _ ht).suffix hsuffix)
      obtain ⟨columns, hcolumns⟩ := exists_ownerColumns htable howner
      obtain ⟨k, hk⟩ := Comparison.exists_condition (c := ⟨innerColumn "prop_value", false,
        if c.kind = .propertyHead then some headLength else none, c.comparator.positive, v⟩)
        hsuits.positive
      rw [hreads.table, hcolumns, hk]
      exact ⟨_, rfl⟩

end Sql

/-! ## Compilable criteria -/

/-- Whether a criterion on `d` can become a condition: it is renderable, and the tables on its path
can be joined. -/
structure Criterion.Compilable (d : Domain) (c : Criterion) : Prop where
  start : c.path.head? = some d
  renderable : c.Renderable
  linked : ∀ t ∈ Sql.comparedTable? c, (tableChain c.path t).IsChain Table.Linked

namespace Criterion

variable {d : Domain} {path : List Domain} {c c' : Criterion}

theorem namesKey_simple (path : List Domain) (f : Field) (o : Occurrence) (cmp : Comparator)
    (v : Value) : (simple path f o cmp v).kind.namesKey = false := by
  rw [simple]
  dsimp only
  split <;> rfl

/-- A reached field is compared with a value that suits the comparator. -/
theorem compilable_simple {f : Field} (hf : ResultField.Reached d ⟨f, path⟩) (o : Occurrence)
    {cmp : Comparator} {v : Value} (h : cmp.Suits v) : (simple path f o cmp v).Compilable d where
  start := hf.walk.start
  renderable := .field f v (namesKey_simple path f o cmp v) rfl rfl h
  linked t ht := by
    cases ht
    exact linked_tableChain hf

/-- A property is compared where its table is reached. -/
theorem compilable_property {key : String} {o : Occurrence} (hstart : path.head? = some d)
    (hlinked : (tableChain path o.table).IsChain Table.Linked) (ho : o.table.holdsProperties)
    {cmp : Comparator} {v : Value} (h : cmp.Suits v) :
    (property path key o cmp v).Compilable d where
  start := hstart
  renderable := .property key v rfl rfl rfl h ho
  linked t ht := by
    cases ht
    exact hlinked

theorem compilable_never (d : Domain) (o : Occurrence) : (never [d] o).Compilable d where
  start := rfl
  renderable := .numbers 1 0 rfl rfl rfl rfl
  linked t ht := by cases ht

/-! ## Criteria of tests -/

/-- The domain of properties is the domain itself or next to it. -/
theorem reached_ofProperties {own : Domain} (hown : d.properties? = some own) {f : Field}
    (hf : f.domain = own) (s : Draft) :
    ResultField.Reached d ⟨f, (s.propertyPath d own).1⟩ := by
  rw [Draft.propertyPath]
  split
  case isTrue hd => exact ⟨⟨rfl, .singleton d⟩, congrArg some (hd.trans hf.symm)⟩
  case isFalse hd =>
    have hedge : own ∈ d.subs := by
      cases d <;> cases hown <;> first | exact absurd rfl hd | decide
    exact ⟨⟨rfl, List.isChain_pair.2 hedge⟩, congrArg some hf.symm⟩

theorem domain_of_keyAndValue? {own : Domain} {fields : Field × Field}
    (h : own.keyAndValue? = some fields) :
    fields.1.domain = own ∧ fields.2.domain = own ∧ fields.1.column.table = own.table ∧
      own.table.holdsProperties := by
  cases own <;> cases h <;> exact ⟨rfl, rfl, rfl, rfl⟩

/-- A test that passed its checks becomes a criterion that can become a condition. -/
theorem compilable_criterionOf {now : Int} {s s' : Draft} {t : Test}
    (h : s.criterionOf now t = .ok (c, s')) : c.Compilable s.query.domain := by
  rcases Draft.criterionOf_cases now s t with ⟨key, -, hcase⟩ | ⟨-, hcase⟩ <;> rw [hcase] at h
  · obtain ⟨own, fields, v, hown, hfields, hspan, hv, hcheck, rfl, -⟩ :=
      Draft.propertyCriterion_eq_ok.1 h
    obtain ⟨hkey, hvalue, htable, hholds⟩ := domain_of_keyAndValue? hfields
    have hkeyField := reached_ofProperties hown hkey s
    have hsuits := Comparator.suits_of_check (Value.hasType_ofLiteral hv) hspan hcheck
    rw [ofProperty]
    split
    · exact compilable_simple (reached_ofProperties hown hvalue s) _ hsuits
    split
    · exact compilable_simple hkeyField _ rfl
    · exact compilable_property hkeyField.walk.start (htable ▸ linked_tableChain hkeyField) hholds
        hsuits
  · obtain ⟨f, cmp, v, hf, hresolve, hcheck, rfl, -⟩ := Draft.fieldCriterion_eq_ok.1 h
    exact compilable_simple (FieldPath.reached_resolve hf) _
      (Comparator.suits_of_resolve hresolve hcheck)

/-! ## Criteria of policies -/

/-- The field of a criterion may be compared with another value that suits the comparator. -/
theorem Compilable.withTest (h : c.Compilable d) {f : Field} (hf : c.field? = some f)
    {cmp : Comparator} {v : Value} (hsuits : cmp.Suits v) : (c.withTest cmp v).Compilable d where
  start := h.start
  renderable := by
    cases h.renderable with
    | field f v' hkind hleft hright _ => exact .field f v hkind hleft rfl hsuits
    | property key v' hkind hleft hright _ htable =>
      rw [field?, hleft] at hf
      cases hf
    | numbers m n hkind hleft _ hright =>
      rw [field?, hleft] at hf
      cases hf
  linked := h.linked

/-- What covers the members of virtual repositories can become conditions. -/
theorem Compilable.of_mem_expand (h : c.Compilable d) (r : RepoResolver)
    (hc' : c' ∈ Element.criteria (r.expand c)) : c'.Compilable d := by
  have htests : ∀ cmp, cmp.isEquality → c.field? = some .itemRepo → ∀ repos : List String,
      ∀ c' ∈ repos.map (fun r => c.withTest cmp (.text r)), c'.Compilable d := by
    intro cmp hcmp hf repos c' hc'
    obtain ⟨r, -, rfl⟩ := List.mem_map.1 hc'
    refine h.withTest hf ?_
    cases cmp <;> first | rfl | cases hcmp
  -- Whatever the criterion is widened to compares the same field with other texts.
  unfold RepoResolver.expand at hc'
  split at hc'
  · rename_i hf hv
    rw [RepoResolver.cover] at hc'
    split at hc'
    · rwa [List.mem_singleton.1 hc']
    split at hc'
    · rw [Element.criteria_joined rfl] at hc'
      exact htests _ rfl hf _ c' hc'
    · rw [Element.criteria_joined rfl] at hc'
      exact htests _ rfl hf _ c' hc'
    all_goals
      rw [RepoResolver.criteria_widened c rfl] at hc'
      rcases List.mem_cons.1 hc' with rfl | hc'
      · exact h
      · exact htests _ rfl hf _ c' hc'
  · rwa [List.mem_singleton.1 hc']

/-- Heads are compared like whole values. -/
theorem Compilable.withKind (h : c.Compilable d) {k : CriterionKind} (hk : c.headKind? = some k) :
    ({ c with kind := k } : Criterion).Compilable d := by
  have hkind : k.namesKey = c.kind.namesKey := by
    rw [headKind?] at hk
    split at hk
    · rename_i hkind
      split at hk <;> cases hk
      rw [hkind]
      rfl
    · rename_i hkind
      cases hk
      rw [hkind]
      rfl
    · cases hk
  refine ⟨h.start, ?_, ?_⟩
  · cases h.renderable with
    | field f v hkind' hleft hright hsuits =>
      exact .field f v (hkind.trans hkind') hleft hright hsuits
    | property key v hkind' hleft hright hsuits htable =>
      exact .property key v (hkind.trans hkind') hleft hright hsuits htable
    | numbers m n hkind' hleft hcomparator hright =>
      exact .numbers m n (hkind.trans hkind') hleft hcomparator hright
  · have hcompared : Sql.comparedTable? { c with kind := k } = Sql.comparedTable? c := by
      rw [Sql.comparedTable?, Sql.comparedTable?, hkind]
    rw [hcompared]
    exact h.linked

/-- The whole value of an item property is compared like the property. -/
theorem Compilable.onWholeValue (h : c.Compilable d) (ht : c.leftTable.table = .nodeProps) :
    c.onWholeValue.Compilable d := by
  rw [Criterion.onWholeValue]
  split
  case isFalse => exact h
  case isTrue hkind =>
    cases h.renderable with
    | field f v hkind' | numbers m n hkind' =>
      rw [hkind] at hkind'
      cases hkind'
    | property key v hkind' hleft hright hsuits htable =>
      refine ⟨h.start, .field .propertyValue v rfl rfl hright hsuits, fun t ht' => ?_⟩
      have hcompared : Sql.comparedTable? c = some c.leftTable.table := by
        rw [Sql.comparedTable?, hleft, if_pos hkind']
      cases ht'
      exact h.linked _ (hcompared.trans (congrArg some ht))

theorem Compilable.of_mem_byHead (h : c.Compilable d) (hc' : c' ∈ Element.criteria c.byHead) :
    c'.Compilable d := by
  unfold byHead at hc'
  split at hc'
  · rename_i k s hk hs
    split at hc'
    · rwa [List.mem_singleton.1 hc']
    rename_i hprops
    split at hc'
    · rcases List.mem_pair.1 hc' with rfl | rfl
      · exact h.withKind hk
      · exact h.onWholeValue (not_not.1 hprops).2
    · rw [List.mem_singleton.1 hc']
      exact h.withKind hk
  · rwa [List.mem_singleton.1 hc']

end Criterion

/-! ## Queries under policies -/

namespace Query

variable {q : Query}

/-- Whether all criteria of a query can become conditions. -/
def AllCompilable (q : Query) : Prop := ∀ c ∈ q.criteria, c.Compilable q.domain

theorem allCompilable_andAlso (h : q.AllCompilable) {extra : List Element}
    (he : ∀ c ∈ Element.criteria extra, c.Compilable q.domain) :
    (q.andAlso extra).AllCompilable := by
  intro c hc
  rw [andAlso_domain]
  rw [criteria_andAlso, List.mem_append] at hc
  exact hc.elim (h c) (he c)

/-- A field of the query's own domain may be asked for besides. -/
theorem allCompilable_andOwn (h : q.AllCompilable) {f : Field} (hf : q.domain = f.domain)
    (o : Occurrence) {cmp : Comparator} {v : Value} (hsuits : cmp.Suits v) :
    (q.andAlso [.criterion (.simple [f.domain] f o cmp v)]).AllCompilable := by
  refine allCompilable_andAlso h fun c hc => ?_
  rw [List.mem_singleton.1 hc, hf]
  exact Criterion.compilable_simple ⟨FieldPath.walk_singleton _, rfl⟩ o hsuits

theorem allCompilable_replaced (h : q.AllCompilable) {f : Criterion → List Element}
    (hf : ∀ c : Criterion, c.Compilable q.domain → ∀ c' ∈ Element.criteria (f c),
      c'.Compilable q.domain) : (q.replaced f).AllCompilable := by
  intro c hc
  obtain ⟨c', hc', hmem⟩ := exists_of_mem_replaced hc
  exact hf c' (h c' hc') c hmem

/-- The repository of items is reached where a query reads it. -/
theorem reached_repoPlace? {path : List Domain} {o : Occurrence}
    (h : q.repoPlace? = some (path, o)) : ResultField.Reached q.domain ⟨.itemRepo, path⟩ := by
  rcases repoPlace?_eq_some h with ⟨hd, rfl, -⟩ | ⟨hd, rfl, -⟩
  · rw [hd]
    exact ⟨FieldPath.walk_singleton _, rfl⟩
  · refine ⟨⟨rfl, List.isChain_pair.2 ?_⟩, rfl⟩
    rcases hd with hd | hd <;> rw [hd] <;> decide

/-- Under a policy the criteria can still become conditions. -/
theorem allCompilable_apply (s : Surroundings) (h : q.AllCompilable) (p : Policy) :
    (p.apply s q).AllCompilable := by
  -- Each policy adds criteria on what its domain reaches, or replaces some by tests of the same
  -- field.
  cases p with
  | itemTypes =>
    rw [Policy.apply, filesByDefault]
    split
    · rename_i hd
      exact allCompilable_andOwn h (f := .itemType) hd.1 _ rfl
    · exact h
  | trashcan =>
    rw [Policy.apply, withoutTrash]
    split
    · exact h
    split
    · rename_i hd
      split
      · exact h
      · exact allCompilable_andOwn h (f := .itemRepo) hd _ rfl
    · rename_i hd
      exact allCompilable_andOwn h (f := .propertyKey) hd _ rfl
    · exact h
  | virtualRepos =>
    rw [Policy.apply, overMembers_eq]
    exact allCompilable_replaced h fun c hc c' hc' => hc.of_mem_expand s.repos hc'
  | readScope =>
    rw [Policy.apply]
    unfold within
    split
    · rename_i hplace
      refine allCompilable_andAlso h fun c hc => ?_
      rw [ReadScope.criteria_elements] at hc
      split at hc
      · rw [List.mem_singleton.1 hc]
        exact Criterion.compilable_never _ _
      · obtain ⟨k, -, rfl⟩ := List.mem_map.1 hc
        exact Criterion.compilable_simple (reached_repoPlace? hplace) _ rfl
    · exact h

theorem allCompilable_decorate (s : Surroundings) (ps : List Policy) (h : q.AllCompilable) :
    (q.decorate s ps).AllCompilable := by
  rw [decorate]
  induction ps generalizing q with
  | nil => exact h
  | cons p ps ih => exact ih (allCompilable_apply s h p)

theorem allCompilable_tuned (d : Dialect) (h : q.AllCompilable) : (q.tuned d).AllCompilable := by
  rw [tuned]
  split
  · rw [byHeads_eq]
    exact allCompilable_replaced h fun c hc c' hc' => hc.of_mem_byHead hc'
  · exact h

end Query

end ArtifactQuery
