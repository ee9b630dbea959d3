import ArtifactQuery.Language.Token
import ArtifactQuery.Proofs.Acceptance

/-!
# Flat forms

The filters of a query are a tree; its condition is a flat run of elements. What relates them is the
flat form of a tree, in which groups stand in parentheses and empty ones have no place.

* `Filter`: a tree of criteria, with its criteria from left to right and its value under a
  valuation. Members without any criterion do not count.
* `Filter.flat`: the flat form.
* `criteria_flat`: the flat form lists the criteria of the tree in their order.
* `means_flat`: the grammar gives the flat form the value of the tree.
* `satisfied_flatOfAll_and`: a condition made of filters is satisfied if they hold.
-/

namespace ArtifactQuery

/-! ## Filters -/

/-- A clause whose tests have become criteria. -/
inductive Filter
  | criterion (c : Criterion)
  | group (c : Connective) (members : List Filter)

/-- What joins two operands of a clause. -/
def Connective.joiner : Connective → Element
  | .or => .or
  | .and | .sameProperty => .and

theorem Connective.criterion?_joiner (c : Connective) : c.joiner.criterion? = none := by
  cases c <;> rfl

namespace Filter

mutual

/-- The criteria from left to right. -/
def criteria : Filter → List Criterion
  | .criterion c => [c]
  | .group _ ms => criteriaOfAll ms

/-- The criteria of filters from left to right. -/
def criteriaOfAll : List Filter → List Criterion
  | [] => []
  | m :: ms => m.criteria ++ criteriaOfAll ms

end

mutual

/-- The value under a valuation of the criteria. -/
def value (v : Criterion → Bool) : Filter → Bool
  | .criterion c => v c
  | .group .or ms => someHolds v ms
  | .group .and ms | .group .sameProperty ms => allHold v ms

/-- Whether one of the filters holds. A filter without criteria does not. -/
def someHolds (v : Criterion → Bool) : List Filter → Bool
  | [] => false
  | m :: ms => (m.criteria ≠ [] && m.value v) || someHolds v ms

/-- Whether all filters hold that have criteria. -/
def allHold (v : Criterion → Bool) : List Filter → Bool
  | [] => true
  | m :: ms => (m.criteria = [] || m.value v) && allHold v ms

end

end Filter

/-! ## The flat form -/

namespace Element

/-- Two runs of elements with `j` between them, unless one is empty. -/
def joinedBy (j : Element) (es fs : List Element) : List Element :=
  if es = [] then fs else if fs = [] then es else es ++ j :: fs

/-- Elements in parentheses, unless there are none. -/
def wrapped (es : List Element) : List Element :=
  if es = [] then [] else .openParen :: es ++ [.closeParen]

end Element

namespace Filter

mutual

/-- The flat form of a filter. -/
def flat : Filter → List Element
  | .criterion c => [.criterion c]
  | .group c ms => Element.wrapped (flatOfAll c.joiner ms)

/-- The flat forms of filters with `j` between them. -/
def flatOfAll (j : Element) : List Filter → List Element
  | [] => []
  | m :: ms => Element.joinedBy j m.flat (flatOfAll j ms)

end

end Filter

/-! ## The meaning of the flat form -/

namespace Filter

mutual

/-- The flat form lists the criteria from left to right. -/
theorem criteria_flat : ∀ f : Filter, Element.criteria f.flat = f.criteria
  | .criterion c => rfl
  | .group c ms => by
    rw [flat, criteria, ← criteria_flatOfAll ms c.joiner c.criterion?_joiner, Element.wrapped]
    split
    · rename_i h
      rw [h]
    · rw [List.cons_append, Element.criteria_cons_of_none rfl, Element.criteria_append,
        Element.criteria_cons_of_none rfl, Element.criteria_nil, List.append_nil]

theorem criteria_flatOfAll : ∀ (ms : List Filter) (j : Element), j.criterion? = none →
    Element.criteria (flatOfAll j ms) = criteriaOfAll ms
  | [], _, _ => rfl
  | m :: ms, j, hj => by
    rw [flatOfAll, criteriaOfAll, ← criteria_flat m, ← criteria_flatOfAll ms j hj,
      Element.joinedBy]
    split
    · rename_i h
      rw [h]
      rfl
    · split
      · rename_i h
        rw [h, Element.criteria_nil, List.append_nil]
      · rw [Element.criteria_append, Element.criteria_cons_of_none hj]

end

mutual

/-- A filter without criteria has an empty flat form. -/
theorem flat_eq_nil : ∀ f : Filter, f.criteria = [] → f.flat = []
  | .criterion c, h => by simp [criteria] at h
  | .group c ms, h => by
    rw [flat, flatOfAll_eq_nil ms c.joiner h]
    rfl

theorem flatOfAll_eq_nil : ∀ (ms : List Filter) (j : Element), criteriaOfAll ms = [] →
    flatOfAll j ms = []
  | [], _, _ => rfl
  | m :: ms, j, h => by
    rw [criteriaOfAll, List.append_eq_nil_iff] at h
    rw [flatOfAll, flat_eq_nil m h.1, flatOfAll_eq_nil ms j h.2]
    rfl

end

theorem flat_ne_nil {f : Filter} (h : f.criteria ≠ []) : f.flat ≠ [] := by
  intro hf
  rw [← criteria_flat, hf] at h
  exact h rfl

theorem flatOfAll_ne_nil {ms : List Filter} (j : Element) (hj : j.criterion? = none)
    (h : criteriaOfAll ms ≠ []) : flatOfAll j ms ≠ [] := by
  intro hms
  rw [← criteria_flatOfAll ms j hj, hms] at h
  exact h rfl

section Values

variable (v : Criterion → Bool)

theorem someHolds_of_criteria_eq_nil : ∀ ms : List Filter, criteriaOfAll ms = [] →
    someHolds v ms = false
  | [], _ => rfl
  | m :: ms, h => by
    rw [criteriaOfAll, List.append_eq_nil_iff] at h
    simp [someHolds, h.1, someHolds_of_criteria_eq_nil ms h.2]

theorem allHold_of_criteria_eq_nil : ∀ ms : List Filter, criteriaOfAll ms = [] →
    allHold v ms = true
  | [], _ => rfl
  | m :: ms, h => by
    rw [criteriaOfAll, List.append_eq_nil_iff] at h
    simp [allHold, h.1, allHold_of_criteria_eq_nil ms h.2]

mutual

/-- The grammar gives the flat form the value of the filter. -/
theorem means_flat : ∀ f : Filter, f.criteria ≠ [] → Element.Means v .operand f.flat (f.value v)
  | .criterion c, _ => .criterion c
  | .group .or ms, h => by
    rw [flat, Element.wrapped, if_neg (flatOfAll_ne_nil _ (Connective.criterion?_joiner _) h)]
    exact .paren (means_flatOfAll_or ms h)
  | .group .and ms, h => by
    rw [flat, Element.wrapped, if_neg (flatOfAll_ne_nil _ (Connective.criterion?_joiner _) h)]
    exact .paren (.only (means_flatOfAll_and ms h))
  | .group .sameProperty ms, h => by
    rw [flat, Element.wrapped, if_neg (flatOfAll_ne_nil _ (Connective.criterion?_joiner _) h)]
    exact .paren (.only (means_flatOfAll_and ms h))

theorem means_flatOfAll_or : ∀ ms : List Filter, criteriaOfAll ms ≠ [] →
    Element.Means v .disjunction (flatOfAll .or ms) (someHolds v ms)
  | [], h => absurd rfl h
  | m :: ms, h => by
    rw [flatOfAll, someHolds, Element.joinedBy]
    by_cases hm : m.criteria = []
    · rw [criteriaOfAll, hm, List.nil_append] at h
      rw [if_pos (flat_eq_nil m hm)]
      simpa [hm] using means_flatOfAll_or ms h
    · rw [if_neg (flat_ne_nil hm)]
      by_cases hms : criteriaOfAll ms = []
      · rw [if_pos (flatOfAll_eq_nil ms _ hms), someHolds_of_criteria_eq_nil v ms hms]
        simpa [hm] using (means_flat m hm).toDisjunction
      · rw [if_neg (flatOfAll_ne_nil .or rfl hms)]
        simpa [hm] using (Element.Means.one (means_flat m hm)).or_right (means_flatOfAll_or ms hms)

theorem means_flatOfAll_and : ∀ ms : List Filter, criteriaOfAll ms ≠ [] →
    Element.Means v .conjunction (flatOfAll .and ms) (allHold v ms)
  | [], h => absurd rfl h
  | m :: ms, h => by
    rw [flatOfAll, allHold, Element.joinedBy]
    by_cases hm : m.criteria = []
    · rw [criteriaOfAll, hm, List.nil_append] at h
      rw [if_pos (flat_eq_nil m hm)]
      simpa [hm] using means_flatOfAll_and ms h
    · rw [if_neg (flat_ne_nil hm)]
      by_cases hms : criteriaOfAll ms = []
      · rw [if_pos (flatOfAll_eq_nil ms _ hms), allHold_of_criteria_eq_nil v ms hms]
        simpa [hm] using Element.Means.one (means_flat m hm)
      · rw [if_neg (flatOfAll_ne_nil .and rfl hms)]
        simpa [hm] using (means_flat m hm).and_right (means_flatOfAll_and ms hms)

end

/-- The flat form of filters is satisfied if all hold that have criteria. -/
theorem satisfied_flatOfAll_and (fs : List Filter) :
    Element.satisfied v (flatOfAll .and fs) = allHold v fs := by
  by_cases hfs : criteriaOfAll fs = []
  · rw [flatOfAll_eq_nil fs .and hfs, allHold_of_criteria_eq_nil v fs hfs]
    rfl
  · exact (means_flatOfAll_and v fs hfs).satisfied_eq

end Values

end Filter

/-! ## How elements end -/

namespace Element

/-- Whether elements may be followed by a connective or an operand: they do not end with a
connective. -/
def Settled (es : List Element) : Prop := es.getLast?.any isConnective = false

/-- Whether elements end with an operand. -/
def Ended (es : List Element) : Prop := es.getLast?.any endsOperand = true

theorem ended_append (es : List Element) {fs : List Element} (h : Ended fs) :
    Ended (es ++ fs) := by
  obtain ⟨e, he, -⟩ := (Option.any_eq_true _ _).1 h
  rwa [Ended, List.getLast?_append, he, Option.some_or, ← he]

theorem settled_of_ended {es : List Element} (h : Ended es) : Settled es := by
  obtain ⟨e, he, hends⟩ := (Option.any_eq_true _ _).1 h
  rw [Settled, he]
  cases e with
  | criterion _ | closeParen => rfl
  | and | or | openParen => cases hends

theorem Means.ended {v : Criterion → Bool} {r : Rank} {es : List Element} {b : Bool}
    (h : Means v r es b) : Ended es := by
  induction h with
  | criterion c => rfl
  | paren _ _ => exact ended_append _ rfl
  | one _ ih => exact ih
  | and _ h' _ ih' => exact ended_append _ (ended_append [.and] ih')
  | only _ ih => exact ih
  | or _ h' _ ih' => exact ended_append _ (ended_append [.or] ih')

end Element

theorem Filter.ended_flat {f : Filter} (h : f.flat ≠ []) : Element.Ended f.flat := by
  have hc : f.criteria ≠ [] := fun hc => h (f.flat_eq_nil hc)
  exact (f.means_flat (fun _ => true) hc).ended

theorem Filter.ended_flatOfAll {c : Connective} {fs : List Filter}
    (h : Filter.flatOfAll c.joiner fs ≠ []) : Element.Ended (Filter.flatOfAll c.joiner fs) := by
  have hc : Filter.criteriaOfAll fs ≠ [] := fun hc => h (Filter.flatOfAll_eq_nil fs c.joiner hc)
  cases c with
  | or => exact (Filter.means_flatOfAll_or (fun _ => true) fs hc).ended
  | and | sameProperty => exact (Filter.means_flatOfAll_and (fun _ => true) fs hc).ended

end ArtifactQuery
