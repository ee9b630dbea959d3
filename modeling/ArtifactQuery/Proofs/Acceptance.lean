import ArtifactQuery.Policy.Conjunction
import ArtifactQuery.Proofs.Truth

/-!
# Accepted conditions

`ElementCheck` reads the elements of a query once and refuses what is no condition on its domain.

* `checkElements_eq_ok_iff`: a query is accepted if it has no elements, or if they are read as one
  operand.
* `Means.check`: what the grammar derives on criteria of the domain is read as one operand.
* `readAll_append_of_run`: the pass over accepted elements does not look below the parentheses that
  they open themselves.
* `run_flatMap`, `readAll_flatMap`: criteria may be replaced by operands, which count with their
  values.
* `check_andAlso`, `satisfied_andAlso`: a further condition is a conjunct of the condition so far.
-/

namespace ArtifactQuery

namespace ElementCheck

/-- Before an operand, inside `n` open parentheses. -/
abbrev before (n : Nat) : ElementCheck := ⟨n, true⟩

/-- Behind an operand, inside `n` open parentheses. -/
abbrev behind (n : Nat) : ElementCheck := ⟨n, false⟩

variable {d : Domain}

@[simp] theorem run_nil (s : ElementCheck) : run d s [] = .ok s := rfl

theorem run_cons (s : ElementCheck) (e : Element) (es : List Element) :
    run d s (e :: es) = (s.step d e).bind fun s' => run d s' es := rfl

theorem run_append (s : ElementCheck) (es fs : List Element) :
    run d s (es ++ fs) = (run d s es).bind fun s' => run d s' fs := by
  induction es generalizing s with
  | nil => rfl
  | cons e es ih =>
    rw [List.cons_append, run_cons, run_cons]
    cases s.step d e with
    | error _ => rfl
    | ok s' => exact ih s'

theorem run_append_of {s s' : ElementCheck} {es : List Element} (h : run d s es = .ok s')
    (fs : List Element) : run d s (es ++ fs) = run d s' fs := by
  rw [run_append, h]
  rfl

/-! ## Single steps -/

theorem run_criterion {c : Criterion} (hc : c.mainDomain? = some d) (n : Nat)
    (es : List Element) : run d (before n) (.criterion c :: es) = run d (behind n) es := by
  simp [run_cons, step, hc, Except.bind]

theorem run_openParen (n : Nat) (es : List Element) :
    run d (before n) (.openParen :: es) = run d (before (n + 1)) es := by
  simp [run_cons, step, Except.bind]

theorem run_closeParen (n : Nat) (es : List Element) :
    run d (behind (n + 1)) (.closeParen :: es) = run d (behind n) es := by
  simp [run_cons, step, Except.bind]

theorem run_connective {e : Element} (he : e.isConnective) (n : Nat) (es : List Element) :
    run d (behind n) (e :: es) = run d (before n) es := by
  cases e <;> simp [Element.isConnective] at he <;> simp [run_cons, step, Except.bind]

/-- What a step that succeeds has read. -/
theorem step_cases {s s' : ElementCheck} {e : Element} (h : s.step d e = .ok s') :
    (∃ c n, e = .criterion c ∧ c.mainDomain? = some d ∧ s = before n ∧ s' = behind n) ∨
    (∃ n, e = .openParen ∧ s = before n ∧ s' = before (n + 1)) ∨
    (∃ n, e = .closeParen ∧ s = behind (n + 1) ∧ s' = behind n) ∨
    (∃ n, e.isConnective ∧ s = behind n ∧ s' = before n) := by
  obtain ⟨n, w⟩ := s
  cases e with
  | criterion c =>
    refine .inl ⟨c, n, rfl, ?_⟩
    cases w <;> simp [step] at h
    split at h
    · rename_i hc
      cases h
      exact ⟨hc, rfl, rfl⟩
    · cases h
  | openParen =>
    refine .inr (.inl ⟨n, rfl, ?_⟩)
    cases w <;> simp [step] at h
    exact ⟨rfl, h.symm⟩
  | closeParen =>
    cases w <;> simp [step] at h
    cases n with
    | zero => simp at h
    | succ n =>
      simp at h
      exact .inr (.inr (.inl ⟨n, rfl, rfl, h.symm⟩))
  | and =>
    cases w <;> simp [step] at h
    exact .inr (.inr (.inr ⟨n, rfl, rfl, h.symm⟩))
  | or =>
    cases w <;> simp [step] at h
    exact .inr (.inr (.inr ⟨n, rfl, rfl, h.symm⟩))

/-- A step and a run behind it. -/
theorem run_cons_eq_ok {s s' : ElementCheck} {e : Element} {es : List Element}
    (h : run d s (e :: es) = .ok s') : ∃ s₁, s.step d e = .ok s₁ ∧ run d s₁ es = .ok s' := by
  rw [run_cons] at h
  cases hs : s.step d e with
  | error _ => rw [hs] at h; cases h
  | ok s₁ => exact ⟨s₁, rfl, by rw [hs] at h; exact h⟩

/-- Further parentheses around what is read change nothing. -/
theorem run_deeper {n n' : Nat} {w w' : Bool} {es : List Element}
    (h : run d ⟨n, w⟩ es = .ok ⟨n', w'⟩) (k : Nat) : run d ⟨n + k, w⟩ es = .ok ⟨n' + k, w'⟩ := by
  induction es generalizing n w with
  | nil =>
    cases h
    rfl
  | cons e es ih =>
    obtain ⟨s₁, hstep, hrun⟩ := run_cons_eq_ok h
    rcases step_cases hstep with ⟨c, m, rfl, hc, hs, rfl⟩ | ⟨m, rfl, hs, rfl⟩ | ⟨m, rfl, hs, rfl⟩ |
      ⟨m, he, hs, rfl⟩ <;> cases hs
    · rw [run_criterion hc]
      exact ih hrun
    · have := ih hrun
      rw [Nat.add_right_comm] at this
      rw [run_openParen]
      exact this
    · rw [Nat.add_right_comm, run_closeParen]
      exact ih hrun
    · rw [run_connective he]
      exact ih hrun

end ElementCheck

/-! ## Accepted queries -/

open ElementCheck

/-- The criteria among some elements. -/
def Element.criteria (es : List Element) : List Criterion := es.filterMap Element.criterion?

@[simp] theorem Element.criteria_nil : Element.criteria [] = [] := rfl

@[simp] theorem Element.criteria_append (es fs : List Element) :
    Element.criteria (es ++ fs) = Element.criteria es ++ Element.criteria fs :=
  List.filterMap_append

@[simp] theorem Element.criteria_cons_criterion (c : Criterion) (es : List Element) :
    Element.criteria (.criterion c :: es) = c :: Element.criteria es := rfl

theorem Element.criteria_cons_of_none {e : Element} (he : e.criterion? = none)
    (es : List Element) : Element.criteria (e :: es) = Element.criteria es := by
  rw [Element.criteria, List.filterMap_cons_none he]
  rfl

theorem Element.mem_criteria {c : Criterion} {es : List Element} :
    c ∈ Element.criteria es ↔ .criterion c ∈ es := by
  constructor
  · intro h
    obtain ⟨e, he, hc⟩ := List.mem_filterMap.1 h
    cases e with
    | criterion c' =>
      cases hc
      exact he
    | and | or | openParen | closeParen => cases hc
  · intro h
    exact List.mem_filterMap.2 ⟨_, h, rfl⟩

/-- A query is accepted if it has no elements, or if they are read as one operand. -/
theorem Query.checkElements_eq_ok_iff (q : Query) :
    q.checkElements = .ok () ↔
      q.elements = [] ∨ run q.domain (before 0) q.elements = .ok (behind 0) := by
  rw [checkElements]
  show ((run q.domain (before 0) q.elements).bind _ = _) ↔ _
  cases hrun : run q.domain (before 0) q.elements with
  | error e =>
    have hne : q.elements ≠ [] := by
      intro h
      rw [h] at hrun
      cases hrun
    simp [Except.bind, hne]
  | ok s =>
    obtain ⟨n, w⟩ := s
    by_cases hnil : q.elements = []
    · rw [hnil] at hrun
      cases hrun
      simp [Except.bind, hnil]
    · cases w <;> cases n <;> simp [Except.bind, hnil]

/-- What the grammar derives on criteria of the domain is read as one operand. -/
theorem Element.Means.check {v : Criterion → Bool} {r : Rank} {es : List Element} {b : Bool}
    (h : Element.Means v r es b) {d : Domain}
    (hd : ∀ c ∈ Element.criteria es, c.mainDomain? = some d) (n : Nat) :
    run d (before n) es = .ok (behind n) := by
  induction h generalizing n with
  | criterion c => exact run_criterion (hd c (by simp)) n []
  | paren _ ih =>
    rw [List.cons_append, run_openParen, run_append_of (ih ?_ (n + 1)), run_closeParen, run_nil]
    intro c hc
    refine hd c ?_
    rw [List.cons_append, Element.criteria_cons_of_none rfl]
    simp [hc]
  | one _ ih => exact ih hd n
  | @and es fs _ _ _ _ ih ih' =>
    rw [Element.criteria_append, Element.criteria_cons_of_none rfl] at hd
    rw [run_append_of (ih (fun c hc => hd c (by simp [hc])) n), run_connective rfl]
    exact ih' (fun c hc => hd c (by simp [hc])) n
  | only _ ih => exact ih hd n
  | @or es fs _ _ _ _ ih ih' =>
    rw [Element.criteria_append, Element.criteria_cons_of_none rfl] at hd
    rw [run_append_of (ih (fun c hc => hd c (by simp [hc])) n), run_connective rfl]
    exact ih' (fun c hc => hd c (by simp [hc])) n

/-- The pass over what is accepted reaches only the parentheses that were open at its start, and
leaves what lies below them alone. -/
theorem Element.readAll_append_of_run {d : Domain} {s s' : ElementCheck} {es : List Element}
    (h : run d s es = .ok s') (v : Criterion → Bool) (as : List Alternatives)
    (has : as.length = s.depth + 1) :
    (readAll v as es).length = s'.depth + 1 ∧
      ∀ bs, readAll v (as ++ bs) es = readAll v as es ++ bs := by
  induction es generalizing s as with
  | nil =>
    cases h
    exact ⟨has, fun _ => rfl⟩
  | cons e es ih =>
    obtain ⟨s₁, hstep, hrun⟩ := run_cons_eq_ok h
    obtain ⟨a, as, rfl⟩ := List.exists_cons_of_length_eq_add_one has
    -- One entry on the stack for each open parenthesis, and one for the whole. A check that goes
    -- through never takes off more than were put on.
    rcases step_cases hstep with ⟨c, m, rfl, hc, rfl, rfl⟩ | ⟨m, rfl, rfl, rfl⟩ |
      ⟨m, rfl, rfl, rfl⟩ | ⟨m, he, rfl, rfl⟩
    · exact ih hrun (a.meet (v c) :: as) has
    · refine ih hrun ({} :: a :: as) ?_
      simpa using has
    · obtain ⟨a', as, rfl⟩ := List.exists_cons_of_length_eq_add_one (n := m) (by simpa using has)
      refine ih hrun (a'.meet a.value :: as) ?_
      simpa using has
    · cases e with
      | and =>
        have := ih hrun (a :: as) has
        simpa using this
      | or => exact ih hrun (a.next :: as) has
      | _ => simp [Element.isConnective] at he

/-! ## Replacing criteria -/

/-- The elements in place of an element, where a criterion gives way to what `f` says. -/
def Element.replaced (f : Criterion → List Element) : Element → List Element
  | .criterion c => f c
  | e => [e]

/-- Criteria may be replaced by what is read as one operand. -/
theorem ElementCheck.run_flatMap {f : Criterion → List Element} {d : Domain}
    {s s' : ElementCheck} {es : List Element}
    (hf : ∀ c ∈ Element.criteria es, c.mainDomain? = some d →
      ∀ n, run d (before n) (f c) = .ok (behind n))
    (h : run d s es = .ok s') : run d s (es.flatMap (Element.replaced f)) = .ok s' := by
  induction es generalizing s with
  | nil => exact h
  | cons e es ih =>
    obtain ⟨s₁, hstep, hrun⟩ := run_cons_eq_ok h
    rw [List.flatMap_cons]
    -- Only where a criterion stands something else is read, and it leads to the same state.
    rcases step_cases hstep with ⟨c, m, rfl, hc, rfl, rfl⟩ | ⟨m, rfl, rfl, rfl⟩ |
      ⟨m, rfl, rfl, rfl⟩ | ⟨m, he, rfl, rfl⟩
    · rw [Element.replaced, run_append_of (hf c (by simp) hc m)]
      exact ih (fun c' hc' => hf c' (by simp [hc'])) hrun
    · rw [Element.replaced, List.singleton_append, run_openParen]
      · exact ih hf hrun
      · simp
    · rw [Element.replaced, List.singleton_append, run_closeParen]
      · exact ih hf hrun
      · simp
    · have hone : Element.replaced f e = [e] := by
        cases e <;> simp [Element.isConnective] at he <;> rfl
      rw [hone, List.singleton_append, run_connective he]
      refine ih (fun c hc => hf c ?_) hrun
      cases e <;> simp [Element.isConnective] at he <;> exact hc

/-- The pass over accepted elements whose criteria gave way to operands: each operand counts with
its value. -/
theorem Element.readAll_flatMap {f : Criterion → List Element} {v w : Criterion → Bool}
    {d : Domain} {s s' : ElementCheck} {es : List Element}
    (hf : ∀ c ∈ Element.criteria es, Means v .operand (f c) (w c)) (h : run d s es = .ok s')
    (as : List Alternatives) (has : as.length = s.depth + 1) :
    readAll v as (es.flatMap (replaced f)) = readAll w as es := by
  induction es generalizing s as with
  | nil => rfl
  | cons e es ih =>
    obtain ⟨s₁, hstep, hrun⟩ := run_cons_eq_ok h
    obtain ⟨a, as, rfl⟩ := List.exists_cons_of_length_eq_add_one has
    rw [List.flatMap_cons, readAll_append]
    rcases step_cases hstep with ⟨c, m, rfl, hc, rfl, rfl⟩ | ⟨m, rfl, rfl, rfl⟩ |
      ⟨m, rfl, rfl, rfl⟩ | ⟨m, he, rfl, rfl⟩
    · have hread : readAll v (a :: as) (f c) = a.meet (w c) :: as :=
        (hf c (by simp)).readAll_operand a as
      rw [replaced, hread]
      exact ih (fun c' hc' => hf c' (by simp [hc'])) hrun _ has
    · exact ih hf hrun ({} :: a :: as) (by simpa using has)
    · obtain ⟨a', as, rfl⟩ := List.exists_cons_of_length_eq_add_one (n := m) (by simpa using has)
      exact ih hf hrun (a'.meet a.value :: as) (by simpa using has)
    · cases e with
      | and => exact ih hf hrun (a :: as) has
      | or => exact ih hf hrun (a.next :: as) has
      | _ => simp [Element.isConnective] at he

/-! ## Further conditions -/

theorem Element.Means.ne_nil {v : Criterion → Bool} {r : Rank} {es : List Element} {b : Bool}
    (h : Element.Means v r es b) : es ≠ [] := by
  induction h with
  | one _ ih => exact ih
  | only _ ih => exact ih
  | _ => simp

namespace Query

variable {q : Query} {extra : List Element}

theorem andAlso_of_elements_eq_nil (h : q.elements = []) :
    (q.andAlso extra).elements = extra := by
  rw [andAlso, if_pos h]
  split
  · rename_i he
    rw [he, h]
  · rfl

theorem andAlso_of_elements_ne_nil (h : q.elements ≠ []) (he : extra ≠ []) :
    (q.andAlso extra).elements = .openParen :: q.elements ++ [.closeParen, .and] ++ extra := by
  rw [andAlso, if_neg he, if_neg h]

@[simp] theorem andAlso_domain : (q.andAlso extra).domain = q.domain := by
  rw [andAlso]
  split
  · rfl
  · split <;> rfl

/-- A further condition that is read as one operand is accepted. -/
theorem check_andAlso (hq : q.checkElements = .ok ())
    (he : run q.domain (before 0) extra = .ok (behind 0)) :
    (q.andAlso extra).checkElements = .ok () := by
  have hne : extra ≠ [] := by
    rintro rfl
    cases he
  rw [checkElements_eq_ok_iff] at hq ⊢
  right
  rw [andAlso_domain]
  by_cases hnil : q.elements = []
  · rw [andAlso_of_elements_eq_nil hnil, he]
  · have hrun := hq.resolve_left hnil
    rw [andAlso_of_elements_ne_nil hnil hne, List.cons_append, List.cons_append, run_openParen,
      List.append_assoc, run_append_of (run_deeper hrun 1)]
    rw [List.cons_append, run_closeParen, List.cons_append, run_connective rfl]
    exact he

/-- The condition of an accepted query under a further one: both have to hold. -/
theorem satisfied_andAlso (hq : q.checkElements = .ok ()) {v : Criterion → Bool} {b : Bool}
    (he : Element.Means v .operand extra b) :
    Element.satisfied v (q.andAlso extra).elements = (Element.satisfied v q.elements && b) := by
  by_cases hnil : q.elements = []
  · rw [andAlso_of_elements_eq_nil hnil, he.satisfied_eq, hnil]
    rfl
  · have hrun := ((checkElements_eq_ok_iff q).1 hq).resolve_left hnil
    obtain ⟨hlen, hframe⟩ := Element.readAll_append_of_run hrun v [{}] rfl
    obtain ⟨a, ha⟩ := List.length_eq_one_iff.1 hlen
    have hread : Element.readAll v [{}, {}] q.elements = [a, {}] := by
      have := hframe [{}]
      rw [ha] at this
      exact this
    rw [Element.satisfied_eq_value v ha, andAlso_of_elements_ne_nil hnil he.ne_nil]
    have hall : Element.readAll v [{}] (.openParen :: q.elements ++ [.closeParen, .and] ++ extra) =
        [(Alternatives.meet {} a.value).meet b] := by
      rw [List.cons_append, List.cons_append, Element.readAll_cons, Element.read_openParen,
        List.append_assoc, Element.readAll_append, hread]
      exact he.readAll_operand _ _
    exact Element.satisfied_eq_value v hall

/-- Replacing criteria in both parts of a conjunction. -/
theorem andAlso_flatMap {f : Criterion → List Element} (hf : ∀ c, f c ≠ []) :
    (q.andAlso extra).elements.flatMap (Element.replaced f) =
      ({ q with elements := q.elements.flatMap (Element.replaced f) }.andAlso
        (extra.flatMap (Element.replaced f))).elements := by
  have hmap : ∀ es : List Element, es.flatMap (Element.replaced f) = [] ↔ es = [] := by
    intro es
    cases es with
    | nil => simp
    | cons e es => cases e <;> simp [Element.replaced, hf]
  by_cases hextra : extra = []
  · simp [andAlso, hextra]
  by_cases hnil : q.elements = []
  · simp [andAlso, hnil]
    split <;> simp_all
  · rw [andAlso_of_elements_ne_nil hnil hextra,
      andAlso_of_elements_ne_nil (by simpa [hmap] using hnil) (by simpa [hmap] using hextra)]
    simp [Element.replaced]

end Query

end ArtifactQuery
