import ArtifactQuery.Proofs.Writing

/-!
# Values of clauses

The clauses of a fluent query have a value where that of their tests is known.

* `Clause.value`: the value of a clause.
* `Clause.mapped`: the filter of a clause whose tests become given criteria.
* `value_mapped`: the filter has the value of the clause.
* `value_congr`, `value_eq_false`: what the values of the tests decide.
-/

namespace ArtifactQuery

namespace Clause

/-! ## Values -/

mutual

/-- The value of a clause, by the values of its tests. Members without tests do not count. -/
def value (v : Test → Bool) : Clause → Bool
  | .test t => v t
  | .group .or ms => someHolds v ms
  | .group .and ms | .group .sameProperty ms => allHold v ms

/-- Whether one of the clauses holds. A clause without tests does not. -/
def someHolds (v : Test → Bool) : List Clause → Bool
  | [] => false
  | m :: ms => (m.tests ≠ [] && m.value v) || someHolds v ms

/-- Whether all clauses hold that have tests. -/
def allHold (v : Test → Bool) : List Clause → Bool
  | [] => true
  | m :: ms => (m.tests = [] || m.value v) && allHold v ms

end

/-! ## Filters -/

mutual

/-- The filter of a clause whose tests become the criteria that `g` gives. -/
def mapped (g : Test → Criterion) : Clause → Filter
  | .test t => .criterion (g t)
  | .group c ms => .group c (mappedAll g ms)

/-- The filters of clauses whose tests become the criteria that `g` gives. -/
def mappedAll (g : Test → Criterion) : List Clause → List Filter
  | [] => []
  | m :: ms => m.mapped g :: mappedAll g ms

end

section Mapped

variable (g : Test → Criterion) (v : Criterion → Bool)

mutual

theorem criteria_mapped : ∀ m : Clause, (m.mapped g).criteria = m.tests.map g
  | .test _ => rfl
  | .group c ms => by
    rw [mapped, Filter.criteria, tests, criteria_mappedAll ms]

theorem criteria_mappedAll : ∀ ms : List Clause,
    Filter.criteriaOfAll (mappedAll g ms) = (testsOfAll ms).map g
  | [] => rfl
  | m :: ms => by
    rw [mappedAll, Filter.criteriaOfAll, testsOfAll, List.map_append, criteria_mapped m,
      criteria_mappedAll ms]

end

theorem criteria_mapped_eq_nil (m : Clause) : (m.mapped g).criteria = [] ↔ m.tests = [] := by
  rw [criteria_mapped, List.map_eq_nil_iff]

mutual

/-- The filter has the value of the clause. -/
theorem value_mapped : ∀ m : Clause, (m.mapped g).value v = m.value fun t => v (g t)
  | .test _ => rfl
  | .group .or ms => someHolds_mapped ms
  | .group .and ms => allHold_mapped ms
  | .group .sameProperty ms => allHold_mapped ms

theorem someHolds_mapped : ∀ ms : List Clause,
    Filter.someHolds v (mappedAll g ms) = someHolds (fun t => v (g t)) ms
  | [] => rfl
  | m :: ms => by
    rw [mappedAll, Filter.someHolds, someHolds, value_mapped m, someHolds_mapped ms]
    simp only [ne_eq, criteria_mapped_eq_nil]

theorem allHold_mapped : ∀ ms : List Clause,
    Filter.allHold v (mappedAll g ms) = allHold (fun t => v (g t)) ms
  | [] => rfl
  | m :: ms => by
    rw [mappedAll, Filter.allHold, allHold, value_mapped m, allHold_mapped ms]
    simp only [criteria_mapped_eq_nil]

end

end Mapped

/-! ## What decides about a value -/

section Congr

variable {v w : Test → Bool}

mutual

/-- Only the values of its own tests decide about a clause. -/
theorem value_congr : ∀ m : Clause, (∀ t ∈ m.tests, v t = w t) → m.value v = m.value w
  | .test t, h => h t (List.mem_singleton_self t)
  | .group .or ms, h => someHolds_congr ms h
  | .group .and ms, h => allHold_congr ms h
  | .group .sameProperty ms, h => allHold_congr ms h

theorem someHolds_congr : ∀ ms : List Clause, (∀ t ∈ testsOfAll ms, v t = w t) →
    someHolds v ms = someHolds w ms
  | [], _ => rfl
  | m :: ms, h => by
    rw [someHolds, someHolds, value_congr m fun t ht => h t (List.mem_append_left _ ht),
      someHolds_congr ms fun t ht => h t (List.mem_append_right _ ht)]

theorem allHold_congr : ∀ ms : List Clause, (∀ t ∈ testsOfAll ms, v t = w t) →
    allHold v ms = allHold w ms
  | [], _ => rfl
  | m :: ms, h => by
    rw [allHold, allHold, value_congr m fun t ht => h t (List.mem_append_left _ ht),
      allHold_congr ms fun t ht => h t (List.mem_append_right _ ht)]

end

mutual

/-- No clause holds without a test that does, unless it has no tests. -/
theorem value_eq_false : ∀ m : Clause, (∀ t ∈ m.tests, v t = false) → m.tests ≠ [] →
    m.value v = false
  | .test t, h, _ => h t (List.mem_singleton_self t)
  | .group .or ms, h, _ => someHolds_eq_false ms h
  | .group .and ms, h, hne => allHold_eq_false ms h hne
  | .group .sameProperty ms, h, hne => allHold_eq_false ms h hne

theorem someHolds_eq_false : ∀ ms : List Clause, (∀ t ∈ testsOfAll ms, v t = false) →
    someHolds v ms = false
  | [], _ => rfl
  | m :: ms, h => by
    rw [someHolds, someHolds_eq_false ms fun t ht => h t (List.mem_append_right _ ht),
      Bool.or_false]
    by_cases hm : m.tests = []
    · simp [hm]
    · rw [value_eq_false m (fun t ht => h t (List.mem_append_left _ ht)) hm, Bool.and_false]

theorem allHold_eq_false : ∀ ms : List Clause, (∀ t ∈ testsOfAll ms, v t = false) →
    testsOfAll ms ≠ [] → allHold v ms = false
  | [], _, hne => absurd rfl hne
  | m :: ms, h, hne => by
    rw [allHold]
    by_cases hm : m.tests = []
    · have hms : testsOfAll ms ≠ [] := by
        rw [testsOfAll, hm, List.nil_append] at hne
        exact hne
      rw [allHold_eq_false ms (fun t ht => h t (List.mem_append_right _ ht)) hms, Bool.and_false]
    · rw [value_eq_false m (fun t ht => h t (List.mem_append_left _ ht)) hm]
      simp [hm]

end

end Congr

end Clause

end ArtifactQuery
