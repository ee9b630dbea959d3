import ArtifactQuery.Compilation
import ArtifactQuery.Proofs.Acceptance

/-!
# Queries under policies

Policies replace criteria by operands that read the same rows, and require further criteria.

* `Element.StandsFor`: elements that may take the place of a criterion.
* `expand_standsFor`, `byHead_standsFor`: what policies and dialects put in place of criteria.
* `satisfied_replaced`: a condition with operands in place of its criteria.
* `check_decorate`, `check_tuned`: an accepted query stays accepted.
* `Criterion.Added`: where the criteria are that policies require.
* `inPlaceOf_of_mem_decorate`, `inPlaceOf_of_mem_tuned`: every criterion reads what one of the query
  read before, or is required by a policy.
-/

namespace ArtifactQuery

open ElementCheck

/-! ## Joined criteria -/

namespace Element

@[simp] theorem between_cons_cons (op : Element) (c c' : Criterion) (cs : List Criterion) :
    between op (c :: c' :: cs) = .criterion c :: op :: between op (c' :: cs) := rfl

theorem criteria_between {op : Element} (hop : op.criterion? = none) :
    ∀ cs : List Criterion, criteria (between op cs) = cs
  | [] => rfl
  | [c] => rfl
  | c :: c' :: cs => by
    rw [between_cons_cons, criteria_cons_criterion, criteria_cons_of_none hop,
      criteria_between hop (c' :: cs)]

theorem criteria_joined {op : Element} (hop : op.criterion? = none) (cs : List Criterion) :
    criteria (joined op cs) = cs := by
  rw [joined]
  split
  · exact criteria_between hop cs
  · rw [List.cons_append, criteria_cons_of_none rfl, criteria_append, criteria_between hop,
      criteria_cons_of_none rfl, criteria_nil, List.append_nil]

section Values

variable (v : Criterion → Bool)

theorem means_between_or : ∀ cs : List Criterion, cs ≠ [] →
    Means v .disjunction (between .or cs) (cs.any v)
  | [], h => absurd rfl h
  | [c], _ => by
    rw [List.any_cons, List.any_nil, Bool.or_false]
    exact .only (.one (.criterion c))
  | c :: c' :: cs, _ => by
    rw [List.any_cons]
    exact (Means.one (.criterion c)).or_right (means_between_or (c' :: cs) (List.cons_ne_nil _ _))

theorem means_between_and : ∀ cs : List Criterion, cs ≠ [] →
    Means v .conjunction (between .and cs) (cs.all v)
  | [], h => absurd rfl h
  | [c], _ => by
    rw [List.all_cons, List.all_nil, Bool.and_true]
    exact .one (.criterion c)
  | c :: c' :: cs, _ => by
    rw [List.all_cons]
    exact (Means.criterion c).and_right (means_between_and (c' :: cs) (List.cons_ne_nil _ _))

/-- Criteria joined by `or` form one operand, which holds if one of them does. -/
theorem means_joined_or {cs : List Criterion} (h : cs ≠ []) :
    Means v .operand (joined .or cs) (cs.any v) := by
  rw [joined]
  split
  · rename_i hone
    obtain ⟨c, rfl⟩ := List.length_eq_one_iff.1 hone
    rw [List.any_cons, List.any_nil, Bool.or_false]
    exact .criterion c
  · exact .paren (means_between_or v cs h)

/-- Criteria joined by `and` form one operand, which holds if all of them do. -/
theorem means_joined_and {cs : List Criterion} (h : cs ≠ []) :
    Means v .operand (joined .and cs) (cs.all v) := by
  rw [joined]
  split
  · rename_i hone
    obtain ⟨c, rfl⟩ := List.length_eq_one_iff.1 hone
    rw [List.all_cons, List.all_nil, Bool.and_true]
    exact .criterion c
  · exact .paren (.only (means_between_and v cs h))

end Values

end Element

/-! ## Operands in place of criteria -/

namespace Criterion

/-- Whether a criterion compares in the table that it reads. -/
def ComparesOwn (c : Criterion) : Prop :=
  ∀ t, Sql.comparedTable? c = some t → t = c.leftTable.table

/-- Whether a criterion is reached along a path and reads an occurrence. -/
structure Reads (c : Criterion) (path : List Domain) (o : Occurrence) : Prop where
  path : c.path = path
  leftTable : c.leftTable = o
  compares : c.ComparesOwn

/-- Whether `c'` reads what `c` reads. -/
structure InPlaceOf (c' c : Criterion) : Prop where
  path : c'.path = c.path
  leftTable : c'.leftTable = c.leftTable
  compares : c.ComparesOwn → c'.ComparesOwn

variable {c c' c'' : Criterion}

theorem InPlaceOf.refl (c : Criterion) : c.InPlaceOf c := ⟨rfl, rfl, id⟩

theorem InPlaceOf.trans (h : c''.InPlaceOf c') (h' : c'.InPlaceOf c) : c''.InPlaceOf c :=
  ⟨h.path.trans h'.path, h.leftTable.trans h'.leftTable, fun hc => h.compares (h'.compares hc)⟩

theorem Reads.of_inPlaceOf {path : List Domain} {o : Occurrence} (h : c.Reads path o)
    (h' : c'.InPlaceOf c) : c'.Reads path o :=
  ⟨h'.path.trans h.path, h'.leftTable.trans h.leftTable, h'.compares h.compares⟩

/-- A criterion that compares in the same table. -/
theorem inPlaceOf_of_comparedTable? (hpath : c'.path = c.path)
    (htable : c'.leftTable = c.leftTable)
    (h : Sql.comparedTable? c' = Sql.comparedTable? c) : c'.InPlaceOf c :=
  ⟨hpath, htable, fun hc t ht => by rw [htable]; exact hc t (h ▸ ht)⟩

end Criterion

/-- Whether elements form one operand whose criteria read what `c` reads. -/
structure Element.StandsFor (es : List Element) (c : Criterion) : Prop where
  means (v : Criterion → Bool) : ∃ b, Element.Means v .operand es b
  inPlace : ∀ c' ∈ Element.criteria es, c'.InPlaceOf c

namespace Element

variable {c : Criterion} {es : List Element}

theorem StandsFor.ne_nil (h : StandsFor es c) : es ≠ [] := by
  obtain ⟨b, hb⟩ := h.means fun _ => true
  exact hb.ne_nil

theorem StandsFor.run (h : StandsFor es c) {d : Domain} (hc : c.mainDomain? = some d) (n : Nat) :
    run d (before n) es = .ok (behind n) := by
  obtain ⟨b, hb⟩ := h.means fun _ => true
  refine hb.check (fun c' hc' => ?_) n
  rw [Criterion.mainDomain?, (h.inPlace c' hc').path]
  exact hc

theorem standsFor_criterion {c' : Criterion} (h : c'.InPlaceOf c) :
    StandsFor [.criterion c'] c where
  means v := ⟨_, .criterion c'⟩
  inPlace := by
    intro c'' hc''
    rw [criteria_cons_criterion, criteria_nil, List.mem_singleton] at hc''
    rwa [hc'']

end Element

namespace RepoResolver

/-- Tests of one field for several repositories. -/
theorem inPlaceOf_withTest {c c' : Criterion} {cmp : Comparator} {repos : List String}
    (h : c' ∈ repos.map fun r => c.withTest cmp (.text r)) : c'.InPlaceOf c := by
  obtain ⟨r, -, rfl⟩ := List.mem_map.1 h
  exact Criterion.inPlaceOf_of_comparedTable? rfl rfl rfl

theorem criteria_widened (c : Criterion) {op : Element} (hop : op.criterion? = Option.none)
    (cmp : Comparator) (repos : List String) : Element.criteria (widened c op cmp repos) =
      c :: repos.map fun r => c.withTest cmp (.text r) := by
  rw [widened, List.cons_append, Element.criteria_cons_of_none rfl, Element.criteria_append,
    Element.criteria_between hop, Element.criteria_cons_of_none rfl, Element.criteria_nil,
    List.append_nil]

theorem widened_standsFor (c : Criterion) {op : Element} (hop : op = .and ∨ op = .or)
    (cmp : Comparator) (repos : List String) : Element.StandsFor (widened c op cmp repos) c := by
  have hnone : op.criterion? = Option.none := by
    rcases hop with rfl | rfl <;> rfl
  refine ⟨fun v => ?_, fun c' hc' => ?_⟩
  · rw [widened]
    rcases hop with rfl | rfl
    · exact ⟨_, .paren (.only (Element.means_between_and v _ (List.cons_ne_nil _ _)))⟩
    · exact ⟨_, .paren (Element.means_between_or v _ (List.cons_ne_nil _ _))⟩
  · rw [criteria_widened c hnone] at hc'
    rcases List.mem_cons.1 hc' with rfl | hc'
    · exact .refl _
    · exact inPlaceOf_withTest hc'

theorem cover_standsFor (c : Criterion) (repos : List String) :
    Element.StandsFor (cover c repos) c := by
  rw [cover]
  split
  · exact Element.standsFor_criterion (.refl c)
  · rename_i hrepos
    have hne : ∀ cmp, (repos.map fun r => c.withTest cmp (.text r)) ≠ [] := by
      intro cmp h
      exact hrepos (List.map_eq_nil_iff.1 h)
    split
    · refine ⟨fun v => ⟨_, Element.means_joined_or v (hne _)⟩, fun c' hc' => ?_⟩
      rw [Element.criteria_joined rfl] at hc'
      exact inPlaceOf_withTest hc'
    · refine ⟨fun v => ⟨_, Element.means_joined_and v (hne _)⟩, fun c' hc' => ?_⟩
      rw [Element.criteria_joined rfl] at hc'
      exact inPlaceOf_withTest hc'
    · exact widened_standsFor c (.inl rfl) _ _
    · exact widened_standsFor c (.inr rfl) _ _

/-- What takes the place of a criterion on repositories. -/
theorem expand_standsFor (r : RepoResolver) (c : Criterion) :
    Element.StandsFor (r.expand c) c := by
  rw [expand]
  split
  · exact cover_standsFor c _
  · exact Element.standsFor_criterion (.refl c)

end RepoResolver

namespace Criterion

theorem inPlaceOf_onWholeValue {c : Criterion} (h : c.leftTable.table = .nodeProps) :
    c.onWholeValue.InPlaceOf c := by
  rw [onWholeValue]
  split
  · refine ⟨rfl, rfl, fun _ t ht => ?_⟩
    cases ht
    exact h.symm
  · exact .refl c

/-- Comparing heads of the same values. -/
theorem inPlaceOf_headKind {c : Criterion} {k : CriterionKind} (h : c.headKind? = some k) :
    ({ c with kind := k } : Criterion).InPlaceOf c := by
  refine inPlaceOf_of_comparedTable? rfl rfl ?_
  obtain ⟨kind, path, left, o, cmp, right, o'⟩ := c
  cases left with
  | field f => rfl
  | value v =>
    rw [headKind?] at h
    cases kind <;> cases h
    rfl

/-- What takes the place of a criterion on property values. -/
theorem byHead_standsFor (c : Criterion) : Element.StandsFor c.byHead c := by
  rw [byHead]
  split
  · rename_i k s hk hs
    split
    · exact Element.standsFor_criterion (.refl c)
    rename_i hprops
    split
    · refine ⟨fun v => ⟨_, .paren (.only (.and (.one (.criterion _)) (.criterion _)))⟩, ?_⟩
      intro c' hc'
      rw [Element.criteria_cons_of_none rfl, Element.criteria_cons_criterion,
        Element.criteria_cons_of_none rfl, Element.criteria_cons_criterion,
        Element.criteria_cons_of_none rfl, Element.criteria_nil] at hc'
      rcases List.mem_pair.1 hc' with rfl | rfl
      · exact inPlaceOf_headKind hk
      · exact inPlaceOf_onWholeValue (not_not.1 hprops).2
    · exact Element.standsFor_criterion (inPlaceOf_headKind hk)
  · exact Element.standsFor_criterion (.refl c)

end Criterion

/-! ## Queries with criteria replaced -/

namespace Query

variable {q : Query} {f : Criterion → List Element}

/-- The query with other elements in place of its criteria. -/
def replaced (q : Query) (f : Criterion → List Element) : Query :=
  { q with elements := q.elements.flatMap (Element.replaced f) }

theorem overMembers_eq (q : Query) (r : RepoResolver) : q.overMembers r = q.replaced r.expand := by
  rw [overMembers, replaced]
  congr 2

theorem byHeads_eq (q : Query) : q.byHeads = q.replaced Criterion.byHead := by
  rw [byHeads, replaced]
  congr 2

theorem check_replaced (hf : ∀ c, Element.StandsFor (f c) c) (h : q.checkElements = .ok ()) :
    (q.replaced f).checkElements = .ok () := by
  rw [checkElements_eq_ok_iff] at h ⊢
  rcases h with h | h
  · left
    rw [replaced, h]
    rfl
  · exact .inr (run_flatMap (fun c _ hc n => (hf c).run hc n) h)

/-- An accepted condition whose criteria gave way to operands holds exactly if it held with each
criterion read as its operand. -/
theorem satisfied_replaced {v w : Criterion → Bool} (h : q.checkElements = .ok ())
    (hf : ∀ c ∈ q.criteria, Element.Means v .operand (f c) (w c)) :
    Element.satisfied v (q.replaced f).elements = Element.satisfied w q.elements := by
  rcases (checkElements_eq_ok_iff q).1 h with hnil | hrun
  · rw [replaced, hnil]
    rfl
  · have hread := Element.readAll_flatMap hf hrun [{}] rfl
    rw [Element.satisfied, Element.satisfied, ← hread]
    rfl

/-- A criterion comes from the elements in place of one. -/
theorem exists_of_mem_replaced {c : Criterion} (h : c ∈ (q.replaced f).criteria) :
    ∃ c' ∈ q.criteria, c ∈ Element.criteria (f c') := by
  obtain ⟨e, he, hc⟩ := List.mem_filterMap.1 h
  obtain ⟨e', he', hmem⟩ := List.mem_flatMap.1 he
  cases e' with
  | criterion c' =>
    exact ⟨c', List.mem_filterMap.2 ⟨_, he', rfl⟩, List.mem_filterMap.2 ⟨e, hmem, hc⟩⟩
  | and | or | openParen | closeParen =>
    rw [Element.replaced, List.mem_singleton] at hmem
    · rw [hmem] at hc
      cases hc
    · intro c' hc'
      cases hc'

theorem inPlaceOf_of_mem_replaced (hf : ∀ c, Element.StandsFor (f c) c) {c : Criterion}
    (h : c ∈ (q.replaced f).criteria) : ∃ c' ∈ q.criteria, c.InPlaceOf c' := by
  obtain ⟨c', hc', hmem⟩ := exists_of_mem_replaced h
  exact ⟨c', hc', (hf c').inPlace c hmem⟩

theorem criteria_andAlso (q : Query) (extra : List Element) :
    (q.andAlso extra).criteria = q.criteria ++ Element.criteria extra := by
  by_cases he : extra = []
  · rw [andAlso, if_pos he, he]
    exact (List.append_nil _).symm
  by_cases hq : q.elements = []
  · have hnil : q.criteria = [] := by
      rw [criteria, hq]
      rfl
    rw [hnil, criteria, andAlso_of_elements_eq_nil hq]
    rfl
  · rw [criteria, andAlso_of_elements_ne_nil hq he]
    show Element.criteria _ = Element.criteria q.elements ++ _
    rw [List.cons_append, List.cons_append, Element.criteria_cons_of_none rfl,
      Element.criteria_append, Element.criteria_append, Element.criteria_cons_of_none rfl,
      Element.criteria_cons_of_none rfl, Element.criteria_nil, List.append_nil]

end Query

/-! ## Required criteria -/

/-- Whether a criterion is where policies put theirs: in the table of the domain, or in an
occurrence of the table of items that is joined for it. -/
def Criterion.Added (d : Domain) (c : Criterion) : Prop :=
  c.Reads [d] (.plain d.table) ∨ ∃ n, firstDynamicId ≤ n ∧ c.Reads [d, .items] ⟨.nodes, n⟩

theorem Criterion.Added.mainDomain {d : Domain} {c : Criterion} (h : c.Added d) :
    c.mainDomain? = some d := by
  rcases h with h | ⟨n, -, h⟩ <;> rw [mainDomain?, h.path] <;> rfl

theorem Criterion.Added.of_inPlaceOf {d : Domain} {c c' : Criterion} (h : c.Added d)
    (h' : c'.InPlaceOf c) : c'.Added d := by
  rcases h with h | ⟨n, hn, h⟩
  · exact .inl (h.of_inPlaceOf h')
  · exact .inr ⟨n, hn, h.of_inPlaceOf h'⟩

theorem le_foldl_followingId (cs : List Criterion) (n : Nat) :
    n ≤ cs.foldl (fun n c => max n (followingId c.leftTable.id)) n := by
  induction cs generalizing n with
  | nil => exact Nat.le_refl n
  | cons c cs ih => exact Nat.le_trans (Nat.le_max_left _ _) (ih _)

theorem Query.firstDynamicId_le_unusedId (q : Query) : firstDynamicId ≤ q.unusedId :=
  le_foldl_followingId q.criteria firstDynamicId

/-- Whether a criterion is where the policy `p` puts those that it requires of `q`. -/
def Criterion.AddedBy (p : Policy) (q : Query) (c : Criterion) : Prop :=
  c.Reads [q.domain] (.plain q.domain.table) ∨
    p = .readScope ∧ c.Reads [q.domain, .items] ⟨.nodes, q.unusedId⟩

theorem Criterion.AddedBy.added {p : Policy} {q : Query} {c : Criterion} (h : c.AddedBy p q) :
    c.Added q.domain := by
  rcases h with h | ⟨-, h⟩
  · exact .inl h
  · exact .inr ⟨_, q.firstDynamicId_le_unusedId, h⟩

/-- Where a query reads the repository of its items. -/
theorem Query.repoPlace?_eq_some {q : Query} {path : List Domain} {o : Occurrence}
    (h : q.repoPlace? = some (path, o)) :
    (q.domain = .items ∧ path = [.items] ∧ o = .plain .nodes) ∨
      ((q.domain = .properties ∨ q.domain = .statistics) ∧ path = [q.domain, .items] ∧
        o = ⟨.nodes, q.unusedId⟩) := by
  rw [repoPlace?] at h
  split at h <;> cases h
  · rename_i hd
    exact .inl ⟨hd, rfl, rfl⟩
  · rename_i hd
    exact .inr ⟨.inl hd, by rw [hd], rfl⟩
  · rename_i hd
    exact .inr ⟨.inr hd, by rw [hd], rfl⟩

namespace ReadScope

/-- The criteria that hold of items in the repositories. -/
theorem criteria_elements (d : Domain) (path : List Domain) (o : Occurrence) (keys : List String) :
    Element.criteria (elements d path o keys) =
      if keys = [] then [.never [d] (.plain d.table)]
      else keys.map fun k => .simple path .itemRepo o .equals (.text k) := by
  rw [elements]
  split
  · rfl
  · exact Element.criteria_joined rfl _

/-- The condition that an item is in one of the repositories. -/
theorem means_elements (v : Criterion → Bool) (d : Domain) (path : List Domain) (o : Occurrence)
    (keys : List String) : Element.Means v .operand (elements d path o keys)
      (if keys = [] then v (.never [d] (.plain d.table))
        else keys.any fun k => v (.simple path .itemRepo o .equals (.text k))) := by
  rw [elements]
  split
  · exact .criterion _
  · rename_i hkeys
    have hne : (keys.map fun k => Criterion.simple path .itemRepo o .equals (.text k)) ≠ [] :=
      fun h => hkeys (List.map_eq_nil_iff.1 h)
    have hany := Element.means_joined_or v hne
    rw [List.any_map] at hany
    exact hany

theorem addedBy_of_mem_elements {q : Query} {path : List Domain} {o : Occurrence}
    (hplace : q.repoPlace? = some (path, o)) {keys : List String} {c : Criterion}
    (h : c ∈ Element.criteria (elements q.domain path o keys)) : c.AddedBy .readScope q := by
  rw [criteria_elements] at h
  split at h
  · rw [List.mem_singleton] at h
    rw [h]
    exact .inl ⟨rfl, rfl, fun t ht => by cases ht⟩
  · obtain ⟨k, -, rfl⟩ := List.mem_map.1 h
    rcases Query.repoPlace?_eq_some hplace with ⟨hd, rfl, rfl⟩ | ⟨-, rfl, rfl⟩
    · rw [Criterion.AddedBy, hd]
      exact .inl ⟨rfl, rfl, fun t ht => by cases ht; rfl⟩
    · exact .inr ⟨rfl, rfl, rfl, fun t ht => by cases ht; rfl⟩

end ReadScope

/-! ## Policies -/

/-- What a policy does to a query: it requires elements, which form an operand of criteria of its
own, or replaces criteria, or leaves the query alone. -/
theorem Policy.apply_cases (s : Surroundings) (q : Query) (p : Policy) :
    (∃ extra, p.apply s q = q.andAlso extra ∧ (∀ v, ∃ b, Element.Means v .operand extra b) ∧
      ∀ c ∈ Element.criteria extra, c.AddedBy p q) ∨
    (∃ f, p.apply s q = q.replaced f ∧ ∀ c, Element.StandsFor (f c) c) ∨ p.apply s q = q := by
  -- Three policies require further elements, each only where its own test says so, and expanding
  -- virtual repositories is the one that replaces criteria.
  cases p with
  | itemTypes =>
    rw [apply, Query.filesByDefault]
    split
    · rename_i h
      refine .inl ⟨_, rfl, fun v => ⟨_, .criterion _⟩, fun c hc => ?_⟩
      rw [Element.criteria_cons_criterion, Element.criteria_nil, List.mem_singleton] at hc
      rw [hc, Criterion.AddedBy, h.1]
      exact .inl ⟨rfl, rfl, fun t ht => by cases ht; rfl⟩
    · exact .inr (.inr rfl)
  | trashcan =>
    rw [apply, Query.withoutTrash]
    split
    · exact .inr (.inr rfl)
    split
    · rename_i hd
      split
      · exact .inr (.inr rfl)
      · refine .inl ⟨_, rfl, fun v => ⟨_, .criterion _⟩, fun c hc => ?_⟩
        rw [Element.criteria_cons_criterion, Element.criteria_nil, List.mem_singleton] at hc
        rw [hc, Criterion.AddedBy, hd]
        exact .inl ⟨rfl, rfl, fun t ht => by cases ht; rfl⟩
    · rename_i hd
      refine .inl ⟨_, rfl, fun v => ⟨_, .criterion _⟩, fun c hc => ?_⟩
      rw [Element.criteria_cons_criterion, Element.criteria_nil, List.mem_singleton] at hc
      rw [hc, Criterion.AddedBy, hd]
      exact .inl ⟨rfl, rfl, fun t ht => by cases ht; rfl⟩
    · exact .inr (.inr rfl)
  | virtualRepos =>
    exact .inr (.inl ⟨s.repos.expand, q.overMembers_eq s.repos, s.repos.expand_standsFor⟩)
  | readScope =>
    rw [apply]
    unfold Query.within
    split
    · rename_i hplace
      exact .inl ⟨_, rfl, fun v => ⟨_, ReadScope.means_elements v _ _ _ _⟩,
        fun c hc => ReadScope.addedBy_of_mem_elements hplace hc⟩
    · exact .inr (.inr rfl)

namespace Query

variable {s : Surroundings} {q : Query}

theorem apply_domain (s : Surroundings) (q : Query) (p : Policy) :
    (p.apply s q).domain = q.domain := by
  rcases p.apply_cases s q with ⟨extra, h, -⟩ | ⟨f, h, -⟩ | h <;> rw [h]
  · exact andAlso_domain
  · rfl

/-- Policies change nothing but elements. -/
theorem apply_eq (s : Surroundings) (q : Query) (p : Policy) :
    ∃ es, p.apply s q = { q with elements := es } := by
  rcases p.apply_cases s q with ⟨extra, h, -⟩ | ⟨f, h, -⟩ | h <;> rw [h]
  · rw [andAlso]
    split
    · exact ⟨q.elements, rfl⟩
    split <;> exact ⟨_, rfl⟩
  · exact ⟨_, rfl⟩
  · exact ⟨q.elements, rfl⟩

theorem decorate_eq (s : Surroundings) (ps : List Policy) (q : Query) :
    ∃ es, q.decorate s ps = { q with elements := es } := by
  rw [decorate]
  induction ps generalizing q with
  | nil => exact ⟨q.elements, rfl⟩
  | cons p ps ih =>
    obtain ⟨es, hes⟩ := q.apply_eq s p
    obtain ⟨es', hes'⟩ := ih (p.apply s q)
    exact ⟨es', by rw [List.foldl_cons, hes', hes]⟩

theorem check_apply (p : Policy) (h : q.checkElements = .ok ()) :
    (p.apply s q).checkElements = .ok () := by
  rcases p.apply_cases s q with ⟨extra, hp, hmeans, hadded⟩ | ⟨f, hp, hf⟩ | hp <;> rw [hp]
  · obtain ⟨b, hb⟩ := hmeans fun _ => true
    exact check_andAlso h (hb.check (fun c hc => (hadded c hc).added.mainDomain) 0)
  · exact check_replaced hf h
  · exact h

/-- Under a policy, a criterion reads what one of the query read before, or is required by the
policy. -/
theorem inPlaceOf_of_mem_apply {p : Policy} {c : Criterion} (h : c ∈ (p.apply s q).criteria) :
    (∃ c' ∈ q.criteria, c.InPlaceOf c') ∨ c.AddedBy p q := by
  rcases p.apply_cases s q with ⟨extra, hp, hmeans, hadded⟩ | ⟨f, hp, hf⟩ | hp <;> rw [hp] at h
  · rw [criteria_andAlso, List.mem_append] at h
    rcases h with h | h
    · exact .inl ⟨c, h, .refl c⟩
    · exact .inr (hadded c h)
  · exact .inl (inPlaceOf_of_mem_replaced hf h)
  · exact .inl ⟨c, h, .refl c⟩

theorem decorate_domain (s : Surroundings) (ps : List Policy) (q : Query) :
    (q.decorate s ps).domain = q.domain := by
  rw [decorate]
  induction ps generalizing q with
  | nil => rfl
  | cons p ps ih => rw [List.foldl_cons, ih, apply_domain]

/-- An accepted query is accepted under all policies. -/
theorem check_decorate (ps : List Policy) (h : q.checkElements = .ok ()) :
    (q.decorate s ps).checkElements = .ok () := by
  rw [decorate]
  induction ps generalizing q with
  | nil => exact h
  | cons p ps ih => exact ih (check_apply p h)

/-- Under policies, a criterion reads what one of the query read before, or is required. -/
theorem inPlaceOf_of_mem_decorate {ps : List Policy} {c : Criterion}
    (h : c ∈ (q.decorate s ps).criteria) :
    (∃ c' ∈ q.criteria, c.InPlaceOf c') ∨ c.Added q.domain := by
  rw [decorate] at h
  induction ps generalizing q with
  | nil => exact .inl ⟨c, h, .refl c⟩
  | cons p ps ih =>
    rcases ih h with ⟨c', hc', hplace⟩ | hadded
    · rcases inPlaceOf_of_mem_apply hc' with ⟨c'', hc'', hplace'⟩ | hadded
      · exact .inl ⟨c'', hc'', hplace.trans hplace'⟩
      · exact .inr (hadded.added.of_inPlaceOf hplace)
    · rw [apply_domain] at hadded
      exact .inr hadded

/-! ## Dialects -/

theorem tuned_domain (q : Query) (d : Dialect) : (q.tuned d).domain = q.domain := by
  rw [tuned]
  split <;> rfl

theorem tuned_eq (q : Query) (d : Dialect) : ∃ es, q.tuned d = { q with elements := es } := by
  rw [tuned]
  split
  · exact ⟨_, rfl⟩
  · exact ⟨q.elements, rfl⟩

theorem check_tuned (d : Dialect) (h : q.checkElements = .ok ()) :
    (q.tuned d).checkElements = .ok () := by
  rw [tuned]
  split
  · rw [byHeads_eq]
    exact check_replaced Criterion.byHead_standsFor h
  · exact h

theorem inPlaceOf_of_mem_tuned {d : Dialect} {c : Criterion} (h : c ∈ (q.tuned d).criteria) :
    ∃ c' ∈ q.criteria, c.InPlaceOf c' := by
  rw [tuned] at h
  split at h
  · rw [byHeads_eq] at h
    exact inPlaceOf_of_mem_replaced Criterion.byHead_standsFor h
  · exact ⟨c, h, .refl c⟩

end Query

end ArtifactQuery
