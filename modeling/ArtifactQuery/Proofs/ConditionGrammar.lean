import ArtifactQuery.Proofs.Formulas
import ArtifactQuery.Proofs.Outcome

/-!
# The grammar of conditions

The check of elements keeps a depth and one flag. It accepts what a grammar derives, and where it
refuses, the element at fault ends the shortest run of first elements that nothing can complete.

* `Element.Derives`: the grammar, terms and expressions that join terms by connectives.
* `Element.Accepted`, `Element.Extendable`: elements that are a condition on a domain, and elements
  that become one with others behind them.
* `Element.FirstFault`: the shortest run of first elements that nothing can complete.
* `Derives.run`, `derives_of_run`: the check reads what the grammar derives, and nothing else.
* `extendable_iff_run`: what can be completed is what is read without an error.
* `checkElements_exact`: which queries are accepted, and with which error all others are refused.
-/

namespace ArtifactQuery

open ElementCheck

/-! ## The grammar -/

namespace Element

/-- What a run of elements is. -/
inductive Part
  | term
  | expression
  deriving DecidableEq, Repr

/-- The elements form a term, a criterion or an expression in parentheses, or an expression, terms
with connectives between them. -/
inductive Derives : Part → List Element → Prop
  | criterion (c : Criterion) : Derives .term [.criterion c]
  | paren {es : List Element} (h : Derives .expression es) :
      Derives .term (.openParen :: es ++ [.closeParen])
  | single {es : List Element} (h : Derives .term es) : Derives .expression es
  | joined {es fs : List Element} {op : Element} (h : Derives .term es) (hop : op.isConnective)
      (h' : Derives .expression fs) : Derives .expression (es ++ op :: fs)

/-- The elements are none, or a condition whose criteria start at the domain `d`. -/
def Accepted (d : Domain) (es : List Element) : Prop :=
  (es = [] ∨ Derives .expression es) ∧ ∀ c ∈ criteria es, c.mainDomain? = some d

/-- The elements are accepted with some others behind them. -/
def Extendable (d : Domain) (es : List Element) : Prop := ∃ more, Accepted d (es ++ more)

/-- Of the runs of first elements of `es`, `front` is the shortest that nothing can complete. -/
structure FirstFault (d : Domain) (es front : List Element) : Prop where
  starts : front <+: es
  stuck : ¬ Extendable d front
  shortest : ∀ other, other <+: es → ¬ Extendable d other → front.length ≤ other.length

end Element

/-- The criterion, with a path that starts at `d`. -/
def Criterion.startingAt (c : Criterion) (d : Domain) : Criterion :=
  { c with path := d :: c.path.drop 1 }

theorem Criterion.mainDomain?_startingAt (c : Criterion) (d : Domain) :
    (c.startingAt d).mainDomain? = some d := rfl

/-! ## What is derived is read -/

namespace Element

variable {d : Domain} {p : Part} {es fs : List Element}

/-- A connective may also stand between two expressions. -/
theorem Derives.join {op : Element} (h : Derives .expression es) (hop : op.isConnective)
    (h' : Derives .expression fs) : Derives .expression (es ++ op :: fs) := by
  generalize hp : Part.expression = p at h
  induction h with
  | single h => exact .joined h hop h'
  | @joined es es' op' h hop' _ _ ih' =>
    rw [List.append_assoc, List.cons_append]
    exact .joined h hop' (ih' rfl)
  | criterion c => cases hp
  | paren h => cases hp

/-- What is derived is read as one operand, inside any number of parentheses. -/
theorem Derives.run (h : Derives p es) (hd : ∀ c ∈ criteria es, c.mainDomain? = some d) (n : Nat) :
    ElementCheck.run d (before n) es = .ok (behind n) := by
  induction h generalizing n with
  | criterion c => exact run_criterion (hd c (by simp)) n []
  | @paren es _ ih =>
    have hinner : ∀ c ∈ criteria es, c.mainDomain? = some d := by
      intro c hc
      refine hd c ?_
      rw [List.cons_append, criteria_cons_of_none rfl, criteria_append]
      exact List.mem_append_left _ hc
    rw [List.cons_append, run_openParen, run_append_of (ih hinner (n + 1)), run_closeParen, run_nil]
  | single _ ih => exact ih hd n
  | @joined es fs op _ hop _ ih ih' =>
    have hnone : op.criterion? = none := by cases op <;> first | rfl | cases hop
    rw [criteria_append, criteria_cons_of_none hnone] at hd
    have hleft := ih (fun c hc => hd c (List.mem_append_left _ hc)) n
    have hright := ih' (fun c hc => hd c (List.mem_append_right _ hc)) n
    rw [run_append_of hleft, run_connective hop, hright]

/-! ## What is read is derived -/

theorem mark_injective : Function.Injective mark := by
  intro e e' h
  cases e <;> cases e' <;> first | rfl | cases h
  rfl

/-- A rank as a part of the grammar. -/
def Part.ofRank : Rank → Part
  | .operand => .term
  | .conjunction | .disjunction => .expression

open Formula in
/-- Elements that spell a formula are derived. -/
theorem derives_of_spells {r : Rank} {ms : List (Mark Criterion)} {f : Formula Criterion}
    (h : Spells r ms f) (hes : es.map mark = ms) : Derives (.ofRank r) es := by
  induction h generalizing es with
  | leaf c =>
    obtain rfl : es = [.criterion c] := List.map_injective_iff.2 mark_injective hes
    exact .criterion c
  | paren _ ih =>
    rw [List.cons_append] at hes
    obtain ⟨e, rest, rfl, he, hrest⟩ := List.map_eq_cons_iff.1 hes
    obtain ⟨inner, last, rfl, hinner, hlast⟩ := List.map_eq_append_iff.1 hrest
    obtain rfl : e = .openParen := mark_injective he
    obtain rfl : last = [.closeParen] := List.map_injective_iff.2 mark_injective hlast
    exact .paren (ih hinner)
  | one _ ih => exact .single (ih hes)
  | and _ _ ih ih' =>
    obtain ⟨left, rest, rfl, hleft, hrest⟩ := List.map_eq_append_iff.1 hes
    obtain ⟨op, right, rfl, hop, hright⟩ := List.map_eq_cons_iff.1 hrest
    obtain rfl : op = .and := mark_injective hop
    exact (ih hleft).join rfl (.single (ih' hright))
  | only _ ih => exact ih hes
  | or _ _ ih ih' =>
    obtain ⟨left, rest, rfl, hleft, hrest⟩ := List.map_eq_append_iff.1 hes
    obtain ⟨op, right, rfl, hop, hright⟩ := List.map_eq_cons_iff.1 hrest
    obtain rfl : op = .or := mark_injective hop
    exact (ih hleft).join rfl (ih' hright)

/-- What is read as one operand is derived. -/
theorem derives_of_run (h : ElementCheck.run d (before 0) es = .ok (behind 0)) :
    Derives .expression es := by
  obtain ⟨f, hf⟩ := Formula.exists_spells_of_run h
  exact derives_of_spells hf rfl

/-- Criteria that are read start at the domain. -/
theorem mainDomain_of_run {s s' : ElementCheck} (h : ElementCheck.run d s es = .ok s') :
    ∀ c ∈ criteria es, c.mainDomain? = some d := by
  induction es generalizing s with
  | nil => simp
  | cons e es ih =>
    obtain ⟨s₁, hstep, hrun⟩ := run_cons_eq_ok h
    intro c hc
    rcases step_cases hstep with ⟨c', n, rfl, hc', -, -⟩ | ⟨n, rfl, -, -⟩ | ⟨n, rfl, -, -⟩ |
      ⟨n, he, -, -⟩
    · rcases List.mem_cons.1 hc with rfl | hc
      · exact hc'
      · exact ih hrun c hc
    · exact ih hrun c hc
    · exact ih hrun c hc
    · have hnone : e.criterion? = none := by cases e <;> first | rfl | cases he
      rw [criteria_cons_of_none hnone] at hc
      exact ih hrun c hc

theorem accepted_iff_run : Accepted d es ↔
    es = [] ∨ ElementCheck.run d (before 0) es = .ok (behind 0) := by
  constructor
  · rintro ⟨hnil | h, hd⟩
    · exact .inl hnil
    · exact .inr (h.run hd 0)
  · rintro (rfl | h)
    · exact ⟨.inl rfl, by simp⟩
    · exact ⟨.inr (derives_of_run h), mainDomain_of_run h⟩

/-! ## What can be completed -/

/-- Open parentheses can be closed behind an operand. -/
theorem run_closeParens (n : Nat) :
    ElementCheck.run d (behind n) (List.replicate n .closeParen) = .ok (behind 0) := by
  induction n with
  | zero => rfl
  | succ n ih => rw [List.replicate_succ, run_closeParen, ih]

/-- From wherever the check stands, some elements lead to its end. -/
theorem exists_run_to_end (d : Domain) (s : ElementCheck) :
    ∃ more, ElementCheck.run d s more = .ok (behind 0) := by
  obtain ⟨n, w⟩ := s
  cases w with
  | false => exact ⟨_, run_closeParens n⟩
  | true =>
    have hc : (Criterion.never [d] (.plain d.table)).mainDomain? = some d := rfl
    exact ⟨.criterion (.never [d] (.plain d.table)) :: List.replicate n .closeParen, by
      rw [run_criterion hc, run_closeParens]⟩

/-- Elements can be completed if the check reads them without an error. -/
theorem extendable_iff_run :
    Extendable d es ↔ ∃ s, ElementCheck.run d (before 0) es = .ok s := by
  constructor
  · rintro ⟨more, h⟩
    rcases accepted_iff_run.1 h with hnil | hrun
    · obtain rfl := (List.append_eq_nil_iff.1 hnil).1
      exact ⟨_, run_nil _⟩
    · cases hes : ElementCheck.run d (before 0) es with
      | ok s => exact ⟨s, rfl⟩
      | error e =>
        rw [run_append, hes] at hrun
        cases hrun
  · rintro ⟨s, hs⟩
    obtain ⟨more, hmore⟩ := exists_run_to_end d s
    refine ⟨more, accepted_iff_run.2 (.inr ?_)⟩
    rw [run_append_of hs, hmore]

theorem Extendable.of_append (h : Extendable d (es ++ fs)) : Extendable d es := by
  obtain ⟨more, hmore⟩ := h
  exact ⟨fs ++ more, by rwa [← List.append_assoc]⟩

/-- There is one first fault at most. -/
theorem FirstFault.unique {front front' : List Element} (h : FirstFault d es front)
    (h' : FirstFault d es front') : front = front' := by
  have hlength : front.length = front'.length :=
    Nat.le_antisymm (h.shortest _ h'.starts h'.stuck) (h'.shortest _ h.starts h.stuck)
  exact (List.prefix_of_prefix_length_le h.starts h'.starts
    (Nat.le_of_eq hlength)).eq_of_length hlength

/-- The fault is at the first element that the check cannot read. -/
theorem firstFault_of_error {s : ElementCheck} {front back : List Element} {e : Element}
    {err : QueryError} (hfront : ElementCheck.run d (before 0) front = .ok s)
    (hstep : s.step d e = .error err) : FirstFault d (front ++ e :: back) (front ++ [e]) where
  starts := ⟨back, by simp⟩
  stuck h := by
    obtain ⟨s', hs'⟩ := extendable_iff_run.1 h
    rw [run_append_of hfront, run_cons, hstep] at hs'
    cases hs'
  shortest other hother hstuck := by
    by_contra hlt
    -- Anything shorter is a start of what was read without an error.
    have hle : other.length ≤ front.length := by
      rw [List.length_append, List.length_singleton] at hlt
      omega
    obtain ⟨rest, hrest⟩ :=
      List.prefix_of_prefix_length_le hother (List.prefix_append front (e :: back)) hle
    have hread : Extendable d (other ++ rest) := by
      rw [hrest]
      exact extendable_iff_run.2 ⟨s, hfront⟩
    exact hstuck hread.of_append

end Element

/-! ## Which error -/

namespace ElementCheck

variable {d : Domain} {s : ElementCheck} {e : Element} {es : List Element} {err : QueryError}

/-- A run that fails does so at an element. -/
theorem exists_step_of_run_eq_error (h : run d s es = .error err) :
    ∃ front e back s', es = front ++ e :: back ∧ run d s front = .ok s' ∧
      s'.step d e = .error err := by
  induction es generalizing s with
  | nil => cases h
  | cons e es ih =>
    rw [run_cons] at h
    cases hstep : s.step d e with
    | error err' =>
      rw [hstep] at h
      cases h
      exact ⟨[], e, es, s, rfl, rfl, hstep⟩
    | ok s₁ =>
      rw [hstep] at h
      obtain ⟨front, e', back, s', rfl, hfront, hfails⟩ := ih h
      refine ⟨e :: front, e', back, s', rfl, ?_, hfails⟩
      rw [run_cons, hstep]
      exact hfront

/-- A criterion in the place of an operand is refused for its domain, all else for its place. -/
theorem step_eq_error (h : s.step d e = .error err) :
    (∃ c, e = .criterion c ∧ s.wantsOperand = true ∧ err = .domainMismatch c d) ∨
      ((∀ c, e = .criterion c → s.wantsOperand = false) ∧ ∃ cause, err = .malformed cause) := by
  obtain ⟨n, w⟩ := s
  -- A criterion can be refused in two ways, and its place is looked at first.
  cases e with
  | criterion c =>
    cases w with
    | false =>
      simp [step] at h
      exact .inr ⟨fun _ _ => rfl, _, h.symm⟩
    | true =>
      by_cases hc : c.mainDomain? = some d
      · simp [step, hc] at h
      · simp [step, hc] at h
        exact .inl ⟨c, rfl, rfl, h.symm⟩
  | openParen =>
    cases w with
    | false =>
      simp [step] at h
      exact .inr ⟨fun c hc => (by cases hc), _, h.symm⟩
    | true => simp [step] at h
  | closeParen =>
    rw [step] at h
    split at h
    · exact .inr ⟨fun c hc => (by cases hc), _, (Except.error.inj h).symm⟩
    · cases h
  | and | or =>
    cases w with
    | false => simp [step] at h
    | true =>
      simp [step] at h
      exact .inr ⟨fun c hc => (by cases hc), _, h.symm⟩

/-- Where an operand is wanted, a criterion can be read. -/
theorem wantsOperand_of_step {s' : ElementCheck} {c : Criterion}
    (h : s.step d (.criterion c) = .ok s') : s.wantsOperand = true := by
  rcases step_cases h with ⟨c', n, hc, -, rfl, rfl⟩ | ⟨n, hc, -, -⟩ | ⟨n, hc, -, -⟩ | ⟨n, hc, -, -⟩
  · rfl
  · cases hc
  · cases hc
  · cases hc

end ElementCheck

/-- A query that is refused stops at an element that cannot be read, or ends too early. -/
theorem Query.checkElements_eq_error {q : Query} {err : QueryError}
    (h : q.checkElements = .error err) :
    ElementCheck.run q.domain (before 0) q.elements = .error err ∨
      (∃ s, ElementCheck.run q.domain (before 0) q.elements = .ok s) ∧
        ∃ cause, err = .malformed cause := by
  rw [checkElements] at h
  rcases bind_eq_error.1 h with hrun | ⟨s, hrun, h⟩
  · exact .inl hrun
  refine .inr ⟨⟨s, hrun⟩, ?_⟩
  split at h
  · exact ⟨_, (Except.error.inj h).symm⟩
  · split at h
    · exact ⟨_, (Except.error.inj h).symm⟩
    · cases h

open Element in
/-- A query is accepted exactly if its elements are none or are derived by the grammar, and its
criteria start at its domain. It is refused for the domain of a criterion exactly if this criterion
ends the shortest run of first elements that nothing can complete, and would not if it started at
the domain of the query; in all other cases its elements are malformed. -/
theorem checkElements_exact (q : Query) :
    (q.checkElements = .ok () ↔ (q.elements = [] ∨ Derives .expression q.elements) ∧
      ∀ c ∈ q.criteria, c.mainDomain? = some q.domain) ∧
    ∀ err, q.checkElements = .error err →
      (∀ c, err = .domainMismatch c q.domain ↔ ∃ front,
        FirstFault q.domain q.elements (front ++ [.criterion c]) ∧
          Extendable q.domain (front ++ [.criterion (c.startingAt q.domain)])) ∧
      ((∃ c, err = .domainMismatch c q.domain) ∨ ∃ cause, err = .malformed cause) := by
  refine ⟨?_, fun err herr => ?_⟩
  · rw [Query.checkElements_eq_ok_iff, ← accepted_iff_run]
    rfl
  rcases Query.checkElements_eq_error herr with hrun | ⟨hrun, cause, rfl⟩
  -- The run stops at an element. What was read up to there and that element are the first fault.
  · obtain ⟨front, e, back, s, hsplit, hfront, hstep⟩ := exists_step_of_run_eq_error hrun
    have hfault : FirstFault q.domain q.elements (front ++ [e]) := by
      rw [hsplit]
      exact firstFault_of_error hfront hstep
    rcases step_eq_error hstep with ⟨c, rfl, hwants, rfl⟩ | ⟨hplace, cause, rfl⟩
    · refine ⟨fun c' => ⟨fun h => ?_, fun h => ?_⟩, .inl ⟨c, rfl⟩⟩
      · cases h
        refine ⟨front, hfault, extendable_iff_run.2 ⟨behind s.depth, ?_⟩⟩
        obtain ⟨n, w⟩ := s
        cases hwants
        rw [run_append_of hfront, run_criterion (c.mainDomain?_startingAt q.domain), run_nil]
      · obtain ⟨front', hfault', -⟩ := h
        obtain ⟨-, hlast⟩ := List.append_inj' (hfault.unique hfault') rfl
        cases hlast
        rfl
    · refine ⟨fun c => ⟨nofun, fun h => ?_⟩, .inr ⟨cause, rfl⟩⟩
      obtain ⟨front', hfault', hread⟩ := h
      obtain ⟨rfl, hlast⟩ := List.append_inj' (hfault.unique hfault') rfl
      cases hlast
      -- A criterion can be read there, so that its place is not at fault.
      obtain ⟨s', hs'⟩ := extendable_iff_run.1 hread
      rw [run_append_of hfront] at hs'
      obtain ⟨s₁, hs₁, -⟩ := run_cons_eq_ok hs'
      have hwants := wantsOperand_of_step hs₁
      rw [hplace c rfl] at hwants
      cases hwants
  · refine ⟨fun c => ⟨nofun, fun h => ?_⟩, .inr ⟨cause, rfl⟩⟩
    obtain ⟨front, hfault, -⟩ := h
    obtain ⟨back, hback⟩ := hfault.starts
    -- Everything was read, so nothing in it is a fault.
    have hwhole := extendable_iff_run.2 hrun
    rw [← hback] at hwhole
    exact absurd hwhole.of_append hfault.stuck

/-- The name of an item compared with a text. -/
def Criterion.named (name : String) : Criterion :=
  .simple [.items] .itemName (.plain .nodes) .equals (.text name)

/-- The name of a build compared with a text. -/
def Criterion.ofBuild (name : String) : Criterion :=
  .simple [.builds] .buildName (.plain .builds) .equals (.text name)

/-- Items with a name, or, in the same parentheses, of a build. -/
def Query.straying : Query where
  domain := .items
  elements := [.openParen, .criterion (.named "a.jar"), .or, .criterion (.ofBuild "app"),
    .closeParen]

/-- Items with a name, in parentheses that stay open. -/
def Query.unclosed : Query where
  domain := .items
  elements := [.openParen, .criterion (.named "a.jar")]

open Element in
theorem checkElements_exact_straying :
    Query.straying.checkElements = .error (.domainMismatch (.ofBuild "app") .items) ∧
    (∃ front, FirstFault .items Query.straying.elements (front ++ [.criterion (.ofBuild "app")]) ∧
      Extendable .items (front ++ [.criterion ((Criterion.ofBuild "app").startingAt .items)])) ∧
    Query.unclosed.checkElements = .error (.malformed .unbalanced) ∧
    ∀ front c, FirstFault .items Query.unclosed.elements (front ++ [.criterion c]) →
      ¬ Extendable .items (front ++ [.criterion (c.startingAt .items)]) := by
  have hstraying : Query.straying.checkElements =
      .error (.domainMismatch (.ofBuild "app") .items) := rfl
  have hunclosed : Query.unclosed.checkElements = .error (.malformed .unbalanced) := rfl
  refine ⟨hstraying, ?_, hunclosed, fun front c hfault hread => ?_⟩
  · exact (((checkElements_exact Query.straying).2 _ hstraying).1 _).1 rfl
  · have herr := (((checkElements_exact Query.unclosed).2 _ hunclosed).1 c).2 ⟨front, hfault, hread⟩
    cases herr

end ArtifactQuery
