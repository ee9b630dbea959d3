import ArtifactQuery.FluentQuery
import ArtifactQuery.Proofs.RepoMembers

/-!
# Content of the trashcan

A query on items with a condition does not find what is in the trashcan, unless one of its criteria
asks for a repository. Which repository that is does not matter, nor where the criterion stands.

* `inRepo`: valuations that judge criteria on the repository of the items searched by a repository.
* `withoutTrash_of_asksForRepo`, `withoutTrash_of_not_asksForRepo`: what the policy does.
* `withoutTrash_exact`: which items are found under the policy.
* `not_hidden_besideOtherRepo`: deleted content that is found by a query which does not ask for the
  trashcan.
-/

namespace ArtifactQuery

/-! ## Items in a repository -/

/-- The valuation `w`, with the criteria on the repository of the items searched judged by `repo`.
Denials are the complements of what they deny. -/
def inRepo (repo : String) (w : Criterion → Bool) (c : Criterion) : Bool :=
  match c.repoKey? with
  | some key =>
    if c.path = [.items] then
      RepoResolver.selects c.comparator key repo != c.comparator.isNegative
    else w c
  | none => w c

/-- An item is outside of a repository if it is in another one. -/
theorem inRepo_repoIsNot (repo key : String) (w : Criterion → Bool) :
    inRepo repo w (.repoIsNot key) = !decide (repo = key) :=
  Bool.bne_true _

/-! ## The policy -/

namespace Query

variable {t : TrashcanSettings} {q : Query}

/-- A query that asks for some repository is left alone. -/
theorem withoutTrash_of_asksForRepo (hd : q.domain = .items)
    (hasks : ∃ c ∈ q.criteria, c.asksForRepo = true) : q.withoutTrash t = q := by
  rw [withoutTrash]
  split
  · rfl
  · rw [hd]
    exact if_pos (List.any_eq_true.2 hasks)

/-- Any other query on items must find them outside of the trashcan. -/
theorem withoutTrash_of_not_asksForRepo (ht : t.enabled = true) (hd : q.domain = .items)
    (hne : q.elements ≠ []) (hasks : ¬ ∃ c ∈ q.criteria, c.asksForRepo = true) :
    q.withoutTrash t = q.andAlso [.criterion (.repoIsNot t.repoKey)] := by
  have hcondition : ¬ (¬ t.enabled = true ∨ q.elements = []) := by
    rintro (hoff | hnil)
    · exact hoff ht
    · exact hne hnil
  rw [withoutTrash, if_neg hcondition, hd]
  exact if_neg fun hany => hasks (List.any_eq_true.1 hany)

end Query

/-! ## What is found -/

/-- Under the policy, an accepted query on items with a condition finds what it found before,
outside of the trashcan; inside only if one of its criteria, wherever it stands, is an equality with
the repository of an item, whichever repository that is. -/
theorem withoutTrash_exact {t : TrashcanSettings} (ht : t.enabled = true) {q : Query}
    (hd : q.domain = .items) (hq : q.checkElements = .ok ()) (hne : q.elements ≠ [])
    (repo : String) (w : Criterion → Bool) :
    (q.withoutTrash t).checkElements = .ok () ∧
    (Element.satisfied (inRepo repo w) (q.withoutTrash t).elements = true ↔
      Element.satisfied (inRepo repo w) q.elements = true ∧
        (repo = t.repoKey → ∃ c ∈ q.criteria, c.asksForRepo = true)) := by
  by_cases hasks : ∃ c ∈ q.criteria, c.asksForRepo = true
  · rw [Query.withoutTrash_of_asksForRepo hd hasks]
    exact ⟨hq, fun h => ⟨h, fun _ => hasks⟩, And.left⟩
  rw [Query.withoutTrash_of_not_asksForRepo ht hd hne hasks]
  have hmain : (Criterion.repoIsNot t.repoKey).mainDomain? = some q.domain := by
    rw [hd]
    rfl
  refine ⟨Query.check_andAlso hq (ElementCheck.run_criterion hmain 0 []), ?_⟩
  have houtside : (repo = t.repoKey → ∃ c ∈ q.criteria, c.asksForRepo = true) ↔
      ¬ repo = t.repoKey :=
    ⟨fun h hrepo => hasks (h hrepo), fun h hrepo => absurd hrepo h⟩
  rw [Query.satisfied_andAlso hq (.criterion (Criterion.repoIsNot t.repoKey)), inRepo_repoIsNot,
    Bool.and_eq_true, Bool.not_eq_true', decide_eq_false_iff_not, houtside]

/-- Items with a name, which asks for no repository. -/
def FluentQuery.named : FluentQuery where
  domain := .items
  filters := [.test ⟨"name", .equals, .text "a.jar"⟩]

theorem withoutTrash_exact_named :
    ∃ q, Query.ofFluent 0 .named = .ok q ∧ ({} : TrashcanSettings).enabled = true ∧
      q.domain = .items ∧ q.checkElements = .ok () ∧ q.elements ≠ [] ∧
      ∀ w, Element.satisfied (inRepo "auto-trashcan" w) (q.withoutTrash {}).elements = false := by
  obtain ⟨q, hq⟩ : ∃ q, Query.ofFluent 0 .named = .ok q := ⟨_, rfl⟩
  cases hq
  refine ⟨_, rfl, rfl, rfl, rfl, by decide, fun w => ?_⟩
  rw [← Bool.not_eq_true]
  intro h
  obtain ⟨-, hasks⟩ :=
    (withoutTrash_exact (t := {}) rfl rfl rfl (by decide) "auto-trashcan" w).2.1 h
  exact absurd (hasks rfl) (by decide)

/-- Items in a repository that is not the trashcan, or with a name. -/
def FluentQuery.inLibsOrNamed : FluentQuery where
  domain := .items
  filters := [.group .or [.test ⟨"repo", .equals, .text "libs"⟩,
    .test ⟨"name", .equals, .text "a.jar"⟩]]

/-- A deleted item is found by its name, beside a repository that is not the trashcan. -/
theorem not_hidden_besideOtherRepo :
    ∃ q t w, Query.ofFluent 0 .inLibsOrNamed = .ok q ∧ t.enabled = true ∧ q.domain = .items ∧
      q.checkElements = .ok () ∧ q.elements ≠ [] ∧
      (∀ c ∈ q.criteria, c.repoKey? = some t.repoKey → c.comparator ≠ .equals) ∧
      Element.satisfied (inRepo t.repoKey w) (q.withoutTrash t).elements = true :=
  ⟨_, {}, fun _ => true, rfl, rfl, rfl, rfl, by decide, by decide, rfl⟩

end ArtifactQuery
