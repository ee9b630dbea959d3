import ArtifactQuery.Proofs.Policies

/-!
# Readable repositories only

A query that is restricted to some repositories finds what it found before, in these repositories
and nowhere else, whatever its condition looks like and whichever dialect it is tuned for.

* `lt_unusedId`: the number given to a further occurrence is above all others in use.
* `tuned_andAlso`: tuning a query leaves the further condition alone.
* `Query.ReadsRepos`: the place where a query reads the repository of its items is its own.
* `readScope_exact`: the restricted query holds of a row exactly if the query does and the row is in
  one of the repositories.
-/

namespace ArtifactQuery

/-! ## Numbers not in use -/

theorem followingId_of_lt {n : Nat} (h : n + 1 < idCount) : followingId n = n + 1 :=
  Nat.mod_eq_of_lt h

theorem lt_foldl_followingId {c : Criterion} (h : c.leftTable.id + 1 < idCount)
    {cs : List Criterion} (hc : c ∈ cs) (n : Nat) :
    c.leftTable.id < cs.foldl (fun n c => max n (followingId c.leftTable.id)) n := by
  induction cs generalizing n with
  | nil => cases hc
  | cons c' cs ih =>
    rw [List.foldl_cons]
    rcases List.mem_cons.1 hc with rfl | hc
    · have hnext : c.leftTable.id < max n (followingId c.leftTable.id) := by
        rw [followingId_of_lt h]
        exact Nat.lt_of_lt_of_le (Nat.lt_succ_self _) (Nat.le_max_right _ _)
      exact Nat.lt_of_lt_of_le hnext (le_foldl_followingId cs _)
    · exact ih hc _

/-- The number of a further occurrence is above those of all criteria. -/
theorem Query.lt_unusedId {q : Query} {c : Criterion} (hc : c ∈ q.criteria)
    (h : c.leftTable.id + 1 < idCount) : c.leftTable.id < q.unusedId :=
  lt_foldl_followingId h hc firstDynamicId

/-! ## Tuning beside a further condition -/

namespace Query

/-- Tuning a query leaves a further condition alone whose criteria compare no property values. -/
theorem tuned_andAlso {d : Dialect} {q : Query} {extra : List Element}
    (hfixed : ∀ c ∈ Element.criteria extra, c.byHead = [.criterion c]) :
    ((q.andAlso extra).tuned d).elements = ((q.tuned d).andAlso extra).elements := by
  have hextra : ∀ es : List Element, (∀ c ∈ Element.criteria es, c.byHead = [.criterion c]) →
      es.flatMap (Element.replaced Criterion.byHead) = es := by
    intro es hes
    induction es with
    | nil => rfl
    | cons e es ih =>
      rw [List.flatMap_cons]
      cases e with
      | criterion c =>
        rw [Element.replaced, hes c (by simp), ih fun c' hc' => hes c' (by simp [hc'])]
        rfl
      | and | or | openParen | closeParen =>
        rw [ih hes]
        rfl
  rw [tuned, tuned]
  split
  · rw [byHeads_eq, byHeads_eq]
    refine (andAlso_flatMap fun c => (Criterion.byHead_standsFor c).ne_nil).trans ?_
    rw [hextra extra hfixed]
    rfl
  · rfl

end Query

/-- A criterion on repositories looks the same in every dialect. -/
theorem ReadScope.byHead_of_mem_elements {d : Domain} {path : List Domain} {n : Nat}
    {keys : List String} {c : Criterion}
    (h : c ∈ Element.criteria (ReadScope.elements d path ⟨.nodes, n⟩ keys)) :
    c.byHead = [.criterion c] := by
  rw [criteria_elements] at h
  split at h
  · rw [List.mem_singleton] at h
    rw [h]
    rfl
  · obtain ⟨k, -, rfl⟩ := List.mem_map.1 h
    rfl

/-! ## The place of repositories -/

/-- Whether a query reads the repository of its items along `path` in `o`: items have it in their
own table, properties and statistics in an occurrence that belongs to no criterion of the query. -/
def Query.ReadsRepos (q : Query) (path : List Domain) (o : Occurrence) : Prop :=
  (q.domain = .items ∧ path = [.items] ∧ o = .plain .nodes) ∨
  (q.domain ≠ .items ∧ path = [q.domain, .items] ∧ o.table = .nodes ∧ o.isDynamic ∧
    ∀ c ∈ q.criteria, c.leftTable.id ≠ o.id)

/-- The policies in front of the read scope. -/
def Policy.beforeScope : List Policy := [itemTypes, trashcan, virtualRepos]

theorem Query.decorate_all (s : Surroundings) (q : Query) :
    q.decorate s Policy.all = (q.decorate s Policy.beforeScope).within s.readScope := rfl

theorem Query.within_repos {q : Query} {path : List Domain} {o : Occurrence}
    (hplace : q.repoPlace? = some (path, o)) (keys : List String) :
    q.within (.repos keys) = q.andAlso (ReadScope.elements q.domain path o keys) := by
  unfold within
  rw [hplace]

/-- A policy other than the read scope needs no number above those in use. -/
theorem Query.id_lt_of_mem_apply {s : Surroundings} {q : Query} {p : Policy} (hp : p ≠ .readScope)
    (h : ∀ c ∈ q.criteria, c.leftTable.id + 1 < idCount) :
    ∀ c ∈ (p.apply s q).criteria, c.leftTable.id + 1 < idCount := by
  intro c hc
  rcases inPlaceOf_of_mem_apply hc with ⟨c', hc', hplace⟩ | hadded | ⟨hscope, -⟩
  · rw [hplace.leftTable]
    exact h c' hc'
  · rw [hadded.leftTable]
    show 0 + 1 < idCount
    decide
  · exact absurd hscope hp

theorem Query.id_lt_of_mem_beforeScope {s : Surroundings} {q : Query}
    (h : ∀ c ∈ q.criteria, c.leftTable.id + 1 < idCount) :
    ∀ c ∈ (q.decorate s Policy.beforeScope).criteria, c.leftTable.id + 1 < idCount :=
  id_lt_of_mem_apply (p := .virtualRepos) (by decide) <|
    id_lt_of_mem_apply (p := .trashcan) (by decide) <|
      id_lt_of_mem_apply (p := .itemTypes) (by decide) h

/-- Where a query on items, properties or statistics reads their repositories. -/
theorem Query.exists_readsRepos {q : Query}
    (hd : q.domain = .items ∨ q.domain = .properties ∨ q.domain = .statistics)
    (hids : ∀ c ∈ q.criteria, c.leftTable.id + 1 < idCount) (d : Dialect) :
    ∃ path o, q.repoPlace? = some (path, o) ∧ o.table = .nodes ∧ (q.tuned d).ReadsRepos path o := by
  -- Items have their own repository. The other domains join it under an unused number.
  have hown : q.domain ≠ .items →
      (q.tuned d).ReadsRepos [q.domain, .items] ⟨.nodes, q.unusedId⟩ := by
    intro hne
    refine .inr ⟨by rwa [tuned_domain], by rw [tuned_domain], rfl, ?_, fun c hc => ?_⟩
    · exact decide_eq_true q.firstDynamicId_le_unusedId
    · obtain ⟨c', hc', hplace⟩ := inPlaceOf_of_mem_tuned hc
      rw [hplace.leftTable]
      exact Nat.ne_of_lt (lt_unusedId hc' (hids c' hc'))
  rcases hd with hd | hd | hd
  · refine ⟨[.items], .plain .nodes, by rw [repoPlace?, hd], rfl, .inl ⟨?_, rfl, rfl⟩⟩
    rw [tuned_domain, hd]
  · have hown := hown (by rw [hd]; decide)
    rw [hd] at hown
    exact ⟨_, _, by rw [repoPlace?, hd], rfl, hown⟩
  · have hown := hown (by rw [hd]; decide)
    rw [hd] at hown
    exact ⟨_, _, by rw [repoPlace?, hd], rfl, hown⟩

/-! ## The restricted query -/

/-- A query on items, properties or statistics that is restricted to the repositories `keys` holds
of a row exactly if it held before and the row's repository is one of them. Without repositories it
never holds. The place where the repository is read is used by no other criterion. -/
theorem readScope_exact (d : Dialect) {s : Surroundings} {keys : List String}
    (hs : s.readScope = .repos keys) {q : Query}
    (hd : q.domain = .items ∨ q.domain = .properties ∨ q.domain = .statistics)
    (hq : q.checkElements = .ok ()) (hids : ∀ c ∈ q.criteria, c.leftTable.id + 1 < idCount) :
    ∃ path o before after, before = (q.decorate s Policy.beforeScope).tuned d ∧
      after = (q.decorate s Policy.all).tuned d ∧ after.checkElements = .ok () ∧
      before.ReadsRepos path o ∧
      (keys ≠ [] → after.criteria =
        before.criteria ++ keys.map fun k => .simple path .itemRepo o .equals (.text k)) ∧
      ∀ v, v (.never [q.domain] (.plain q.domain.table)) = false →
        (Element.satisfied v after.elements = true ↔ Element.satisfied v before.elements = true ∧
          ∃ k ∈ keys, v (.simple path .itemRepo o .equals (.text k)) = true) ∧
        (∀ repo, (∀ k, v (.simple path .itemRepo o .equals (.text k)) = decide (repo = k)) →
          (Element.satisfied v after.elements = true ↔
            Element.satisfied v before.elements = true ∧ repo ∈ keys)) ∧
        (keys = [] → Element.satisfied v after.elements = false) := by
  obtain ⟨path, o, hplace, htable, hreads⟩ := Query.exists_readsRepos
    (q := q.decorate s Policy.beforeScope) (by rwa [Query.decorate_domain])
    (Query.id_lt_of_mem_beforeScope hids) d
  have hbefore := Query.check_tuned d (Query.check_decorate (s := s) Policy.beforeScope hq)
  -- The scope is the last policy, so it stands behind all that the others leave. What it adds does
  -- not depend on the dialect.
  have hafter : ((q.decorate s Policy.all).tuned d).elements =
      (((q.decorate s Policy.beforeScope).tuned d).andAlso
        (ReadScope.elements q.domain path o keys)).elements := by
    have hwithin : q.decorate s Policy.all = (q.decorate s Policy.beforeScope).andAlso
        (ReadScope.elements q.domain path o keys) := by
      rw [Query.decorate_all, hs, Query.within_repos hplace, Query.decorate_domain]
    obtain ⟨t, n⟩ := o
    cases htable
    rw [hwithin]
    exact Query.tuned_andAlso fun c hc => ReadScope.byHead_of_mem_elements hc
  refine ⟨path, o, _, _, rfl, rfl, Query.check_tuned d (Query.check_decorate _ hq), hreads, ?_, ?_⟩
  · intro hkeys
    have hcriteria := Query.criteria_andAlso ((q.decorate s Policy.beforeScope).tuned d)
      (ReadScope.elements q.domain path o keys)
    rw [ReadScope.criteria_elements, if_neg hkeys, Query.criteria, ← hafter] at hcriteria
    exact hcriteria
  intro v hnever
  have hiff : Element.satisfied v ((q.decorate s Policy.all).tuned d).elements = true ↔
      Element.satisfied v ((q.decorate s Policy.beforeScope).tuned d).elements = true ∧
        ∃ k ∈ keys, v (.simple path .itemRepo o .equals (.text k)) = true := by
    rw [hafter, Query.satisfied_andAlso hbefore (ReadScope.means_elements v q.domain path o keys),
      Bool.and_eq_true]
    by_cases hkeys : keys = []
    -- Without repositories the scope is the criterion that never holds.
    · rw [if_pos hkeys, hnever, hkeys]
      simp
    · rw [if_neg hkeys, List.any_eq_true]
  refine ⟨hiff, fun repo hrepo => ?_, fun hkeys => ?_⟩
  · rw [hiff]
    simp [hrepo]
  · rw [hkeys] at hiff
    simpa using hiff

/-- Properties with a key or in a repository, whichever holds. -/
def Query.keyOrRepo : Query where
  domain := .properties
  elements := [
    .criterion (.simple [.properties] .propertyKey (.plain .nodeProps) .equals (.text "a")), .or,
    .criterion (.simple [.properties, .items] .itemRepo ⟨.nodes, 100⟩ .equals (.text "virt"))]

/-- One readable repository, which is a member of a virtual one. -/
def Surroundings.libsOnly : Surroundings where
  repos := .ofTable [("virt", ["libs", "plugins"])]
  readScope := .repos ["libs"]

theorem readScope_exact_keyOrRepo :
    Surroundings.libsOnly.readScope = .repos ["libs"] ∧
    Query.keyOrRepo.checkElements = .ok () ∧
    (∀ c ∈ Query.keyOrRepo.criteria, c.leftTable.id + 1 < idCount) ∧
    ∃ o after, after = (Query.keyOrRepo.decorate .libsOnly Policy.all).tuned .postgresql ∧
      after.checkElements = .ok () ∧ o.isDynamic ∧
      ∀ v, v (.never [.properties] (.plain .nodeProps)) = false →
        Element.satisfied v after.elements = true →
          v (.simple [.properties, .items] .itemRepo o .equals (.text "libs")) = true := by
  have hids : ∀ c ∈ Query.keyOrRepo.criteria, c.leftTable.id + 1 < idCount := by decide
  have hscope : Surroundings.libsOnly.readScope = .repos ["libs"] := rfl
  refine ⟨hscope, rfl, hids, ?_⟩
  obtain ⟨path, o, before, after, hbefore, hafter, hcheck, hreads, -, hsat⟩ :=
    readScope_exact .postgresql hscope (.inr (.inl rfl)) rfl hids
  obtain ⟨hitems, -⟩ | ⟨-, rfl, -, hdynamic, -⟩ := hreads
  · rw [hbefore, Query.tuned_domain, Query.decorate_domain] at hitems
    cases hitems
  have hpath : before.domain = .properties := by
    rw [hbefore, Query.tuned_domain, Query.decorate_domain]
    rfl
  refine ⟨o, after, hafter, hcheck, hdynamic, fun v hnever hafter => ?_⟩
  obtain ⟨-, k, hk, hv⟩ := (hsat v hnever).1.1 hafter
  rw [List.mem_singleton] at hk
  rwa [hk, hpath] at hv

end ArtifactQuery
