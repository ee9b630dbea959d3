import ArtifactQuery.Proofs.Policies

/-!
# Queries that survive their policies

Policies may run in any order and any number of times, with the comparison of heads behind them or
without it. Whatever they do, they leave an accepted query with what it asked for.

* `Criterion.StaysUnder`: the criteria that nothing is put in place of.
* `filter_sublist_apply`, `filter_sublist_decorate`: criteria that a policy, or a run of policies,
  puts nothing in place of stay where they are among each other.
* `decorated_keeps`: what comes out is accepted, differs in its elements only, and has these
  criteria in their order.
-/

namespace ArtifactQuery

/-! ## Criteria that stay -/

/-- Whether nothing is put in place of a criterion: not members of virtual repositories, if they are
among the policies, and no comparison of heads, if the dialect makes them. -/
def Criterion.StaysUnder (s : Surroundings) (ps : List Policy) (d : Dialect) (c : Criterion) :
    Prop :=
  (.virtualRepos ∈ ps → s.repos.expand c = [.criterion c]) ∧
    (d = .postgresql → c.byHead = [.criterion c])

instance (s : Surroundings) (ps : List Policy) (d : Dialect) :
    DecidablePred (Criterion.StaysUnder s ps d) :=
  fun _ => inferInstanceAs (Decidable (_ ∧ _))

/-- Members that give way to themselves alone stay in a list, in their order. -/
theorem filter_sublist_flatMap {α : Type} {keep : α → Bool} {f : α → List α}
    (h : ∀ a, keep a = true → f a = [a]) (as : List α) :
    (as.filter keep).Sublist ((as.flatMap f).filter keep) := by
  induction as with
  | nil => exact List.Sublist.slnil
  | cons a as ih =>
    rw [List.flatMap_cons, List.filter_append]
    by_cases ha : keep a = true
    · rw [List.filter_cons_of_pos ha, h a ha, List.filter_cons_of_pos ha]
      exact ih.cons_cons a
    · rw [List.filter_cons_of_neg ha]
      exact ih.trans (List.sublist_append_right _ _)

namespace Query

variable {s : Surroundings} {q : Query} {keep : Criterion → Bool}

/-- The criteria of a query with others in place of its criteria. -/
theorem criteria_replaced (q : Query) (f : Criterion → List Element) :
    (q.replaced f).criteria = q.criteria.flatMap fun c => Element.criteria (f c) := by
  show Element.criteria (q.elements.flatMap _) = (Element.criteria q.elements).flatMap _
  induction q.elements with
  | nil => rfl
  | cons e es ih =>
    rw [List.flatMap_cons, Element.criteria_append, ih]
    cases e with
    | criterion c => rfl
    | and | or | openParen | closeParen => rfl

theorem filter_sublist_replaced {f : Criterion → List Element}
    (h : ∀ c, keep c = true → f c = [.criterion c]) :
    (q.criteria.filter keep).Sublist ((q.replaced f).criteria.filter keep) := by
  rw [criteria_replaced]
  refine filter_sublist_flatMap (fun c hc => ?_) q.criteria
  rw [h c hc]
  rfl

/-- A policy other than that on virtual repositories only requires more. -/
theorem exists_andAlso_of_apply {p : Policy} (hp : p ≠ .virtualRepos) :
    ∃ extra, p.apply s q = q.andAlso extra := by
  have hsame : ∃ extra, q = q.andAlso extra := ⟨[], by rw [andAlso, if_pos rfl]⟩
  cases p with
  | virtualRepos => exact absurd rfl hp
  | itemTypes =>
    rw [Policy.apply, filesByDefault]
    split
    · exact ⟨_, rfl⟩
    · exact hsame
  | trashcan =>
    rw [Policy.apply, withoutTrash]
    split
    · exact hsame
    split
    · split
      · exact hsame
      · exact ⟨_, rfl⟩
    · exact ⟨_, rfl⟩
    · exact hsame
  | readScope =>
    rw [Policy.apply]
    unfold within
    split
    · exact ⟨_, rfl⟩
    · exact hsame

/-- A policy leaves criteria in their order that it puts nothing in place of. -/
theorem filter_sublist_apply {p : Policy}
    (h : ∀ c, keep c = true → p = .virtualRepos → s.repos.expand c = [.criterion c]) :
    (q.criteria.filter keep).Sublist ((p.apply s q).criteria.filter keep) := by
  by_cases hp : p = .virtualRepos
  · have happly : p.apply s q = q.replaced s.repos.expand := by
      rw [hp]
      exact q.overMembers_eq s.repos
    rw [happly]
    exact filter_sublist_replaced fun c hc => h c hc hp
  · obtain ⟨extra, hextra⟩ := exists_andAlso_of_apply (s := s) (q := q) hp
    rw [hextra, criteria_andAlso, List.filter_append]
    exact List.sublist_append_left _ _

/-- A run of policies leaves criteria in their order that none of them puts anything in place of. -/
theorem filter_sublist_decorate {ps : List Policy}
    (h : ∀ c, keep c = true → .virtualRepos ∈ ps → s.repos.expand c = [.criterion c]) :
    (q.criteria.filter keep).Sublist ((q.decorate s ps).criteria.filter keep) := by
  rw [decorate]
  induction ps generalizing q with
  | nil => exact List.Sublist.refl _
  | cons p ps ih =>
    have hfirst : (q.criteria.filter keep).Sublist ((p.apply s q).criteria.filter keep) :=
      filter_sublist_apply fun c hc hp => h c hc (hp ▸ List.mem_cons_self)
    have hrest := ih (q := p.apply s q) fun c hc hmem => h c hc (List.mem_cons_of_mem _ hmem)
    exact hfirst.trans hrest

theorem filter_sublist_tuned {d : Dialect}
    (h : ∀ c, keep c = true → d = .postgresql → c.byHead = [.criterion c]) :
    (q.criteria.filter keep).Sublist ((q.tuned d).criteria.filter keep) := by
  rw [tuned]
  split
  · rename_i hd
    rw [byHeads_eq]
    exact filter_sublist_replaced fun c hc => h c hc hd
  · exact List.Sublist.refl _

end Query

/-! ## Queries under policies -/

/-- An accepted query under any run of policies, with heads compared behind them or not, is accepted
and differs in nothing but its elements. The criteria that nothing is put in place of are there, in
their order. -/
theorem decorated_keeps {q : Query} (hq : q.checkElements = .ok ()) (s : Surroundings)
    (ps : List Policy) (d : Dialect) :
    ∃ q', q' = (q.decorate s ps).tuned d ∧ q'.checkElements = .ok () ∧
      q'.domain = q.domain ∧ q'.resultFields = q.resultFields ∧ q'.sort = q.sort ∧
      q'.offset = q.offset ∧ q'.limit = q.limit ∧ q'.action = q.action ∧
      (q.criteria.filter fun c => c.StaysUnder s ps d).Sublist q'.criteria := by
  obtain ⟨es, hes⟩ := q.decorate_eq s ps
  obtain ⟨es', hes'⟩ := (q.decorate s ps).tuned_eq d
  have hrest : (q.decorate s ps).tuned d = { q with elements := es' } := by
    rw [hes', hes]
  have haccepted : ((q.decorate s ps).tuned d).checkElements = .ok () :=
    Query.check_tuned d (Query.check_decorate ps hq)
  have hstays : ∀ c, decide (Criterion.StaysUnder s ps d c) = true → c.StaysUnder s ps d :=
    fun c hc => of_decide_eq_true hc
  -- Policies and heads each leave what they put nothing in place of, one behind the other.
  have hpolicies : (q.criteria.filter fun c => c.StaysUnder s ps d).Sublist
      ((q.decorate s ps).criteria.filter fun c => c.StaysUnder s ps d) :=
    Query.filter_sublist_decorate fun c hc => (hstays c hc).1
  have htuned := Query.filter_sublist_tuned (q := q.decorate s ps) (d := d)
    fun c hc => (hstays c hc).2
  have hkept := (hpolicies.trans htuned).trans List.filter_sublist
  refine ⟨_, rfl, haccepted, ?_⟩
  rw [hrest] at hkept ⊢
  exact ⟨rfl, rfl, rfl, rfl, rfl, rfl, hkept⟩

/-- Properties with a key and a value, or of items in a virtual repository. -/
def Query.licensedOrStored : Query where
  domain := .properties
  resultFields := [.main .propertyValue .properties]
  elements := [
    .criterion (.simple [.properties] .propertyKey (.plain .nodeProps) .equals (.text "license")),
    .and,
    .criterion (.simple [.properties] .propertyValue (.plain .nodeProps) .equals (.text "MIT")),
    .or,
    .criterion (.simple [.properties, .items] .itemRepo ⟨.nodes, 100⟩ .notEquals (.text "virt"))]
  limit := 5

theorem decorated_keeps_licensedOrStored :
    Query.licensedOrStored.checkElements = .ok () ∧
      ∃ q', q' = (Query.licensedOrStored.decorate
          { repos := .ofTable [("virt", ["libs", "plugins"])], readScope := .repos [] }
          [.readScope, .virtualRepos, .trashcan, .virtualRepos, .readScope]).tuned .postgresql ∧
        q'.checkElements = .ok () ∧ q'.limit = 5 ∧ q'.criteria.length = 7 ∧
        .simple [.properties] .propertyKey (.plain .nodeProps) .equals (.text "license") ∈
          q'.criteria := by
  obtain ⟨q', hq', haccepted, -, -, -, -, hlimit, -, hkept⟩ :=
    decorated_keeps (q := .licensedOrStored) rfl
      { repos := .ofTable [("virt", ["libs", "plugins"])], readScope := .repos [] }
      [.readScope, .virtualRepos, .trashcan, .virtualRepos, .readScope] .postgresql
  refine ⟨rfl, q', hq', haccepted, hlimit, ?_, hkept.subset (by decide)⟩
  rw [hq']
  decide

end ArtifactQuery
