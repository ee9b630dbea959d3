import ArtifactQuery.Proofs.FrontEnds
import ArtifactQuery.Proofs.Numbering
import ArtifactQuery.Proofs.Scoping
import Mathlib.Data.List.Nodup
import Mathlib.Order.Nat

/-!
# Shared numbers

One counter numbers the clauses on one property and the criteria that are reached over several
tables. A criterion on a property table takes the number of the innermost clause on one property
around it, any other one a number of its own.

* `Phrase.placedTests`: the tests among phrases, each with the clause on one property around it.
* `IdOwner`: what a number is for; `Criterion.idOwner`: what the number of a criterion is for.
* `IdOwner.Distinct`: numbers were handed out to different owners.
* `Draft.Numbered`: the numbers of a draft and of its criteria are those handed out to their owners.
* `Numbered.addTest`, `Numbered.openClause`, `Numbered.closeClause`: each step of writing keeps
  this, and with `numbered_writeCriteria` whole conditions do.
* `QuerySource`: what queries are read from.
* `Query.ScopedApart`: a read scope joins repositories under a number of its own.
* `sharedIds_exact`: which criteria of a query have the same number, for every source.
-/

namespace ArtifactQuery

/-! ## Tests in their clauses -/

/-- A test, and where the innermost clause on one property around it begins. -/
structure PlacedTest where
  test : Test
  around : Option Nat
  deriving DecidableEq, Repr

namespace Phrase

/-- Where the innermost clause on one property begins, among clauses with their positions. -/
def innermost? (opened : List (Connective × Nat)) : Option Nat :=
  (opened.find? fun o => o.1 = .sameProperty).map Prod.snd

/-- The tests among phrases that stand from position `i` on, inside the clauses `opened`. -/
def placedTests (opened : List (Connective × Nat)) (i : Nat) : List Phrase → List PlacedTest
  | clauseBegin c :: rest => placedTests ((c, i) :: opened) (i + 1) rest
  | clauseEnd :: rest => placedTests opened.tail (i + 1) rest
  | field p :: comparator sig :: value v :: rest =>
    ((Comparator.signed? sig).toList.map fun c => ⟨⟨p, c, v⟩, innermost? opened⟩) ++
      placedTests opened (i + 3) rest
  | _ :: rest => placedTests opened (i + 1) rest
  | [] => []

end Phrase

/-! ## Owners of numbers -/

/-- What a number is for: a clause on one property, by its position, or a criterion, by the index of
its test. -/
inductive IdOwner
  | clause (position : Nat)
  | test (index : Nat)
  deriving DecidableEq, Repr

namespace IdOwner

variable {w w' : IdOwner} {ws : List IdOwner} {n n' : Nat}

/-- Whether `n` is the number for `w`, where numbers are handed out to `ws` in turn. -/
def Gets (w : IdOwner) (ws : List IdOwner) (n : Nat) : Prop :=
  ∃ k, ws[k]? = some w ∧ n = firstDynamicId + k

theorem gets_concat (ws : List IdOwner) (w : IdOwner) :
    w.Gets (ws ++ [w]) (firstDynamicId + ws.length) :=
  ⟨ws.length, List.getElem?_concat_length, rfl⟩

theorem Gets.append (h : w.Gets ws n) (ws' : List IdOwner) : w.Gets (ws ++ ws') n := by
  obtain ⟨k, hk, hn⟩ := h
  obtain ⟨hlt, -⟩ := List.getElem?_eq_some_iff.1 hk
  exact ⟨k, (List.getElem?_append_left hlt).trans hk, hn⟩

theorem Gets.le (h : w.Gets ws n) : firstDynamicId ≤ n := by
  obtain ⟨k, -, rfl⟩ := h
  exact Nat.le_add_right _ _

theorem Gets.lt (h : w.Gets ws n) : n < firstDynamicId + ws.length := by
  obtain ⟨k, hk, rfl⟩ := h
  obtain ⟨hlt, -⟩ := List.getElem?_eq_some_iff.1 hk
  exact Nat.add_lt_add_left hlt _

/-- Different owners have different numbers. -/
theorem Gets.eq_iff (hws : ws.Nodup) (h : w.Gets ws n) (h' : w'.Gets ws n') :
    n = n' ↔ w = w' := by
  obtain ⟨k, hk, rfl⟩ := h
  obtain ⟨k', hk', rfl⟩ := h'
  obtain ⟨hlt, -⟩ := List.getElem?_eq_some_iff.1 hk
  rw [Nat.add_left_cancel_iff, ← List.getElem?_inj hlt hws, hk, hk', Option.some_inj]

/-- Whether `ws` are different owners among the clauses that begin in the first `i` phrases and the
first `j` tests. A phrase takes one number at most. -/
structure Distinct (i j : Nat) (ws : List IdOwner) : Prop where
  nodup : ws.Nodup
  count : ws.length ≤ i
  clauses : ∀ k, .clause k ∈ ws → k < i
  tests : ∀ k, .test k ∈ ws → k < j

theorem distinct_nil : Distinct 0 0 [] where
  nodup := .nil
  count := Nat.le_refl 0
  clauses _ hk := absurd hk List.not_mem_nil
  tests _ hk := absurd hk List.not_mem_nil

variable {i i' j j' : Nat}

theorem Distinct.mono (h : Distinct i j ws) (hi : i ≤ i') (hj : j ≤ j') : Distinct i' j' ws where
  nodup := h.nodup
  count := Nat.le_trans h.count hi
  clauses k hk := Nat.lt_of_lt_of_le (h.clauses k hk) hi
  tests k hk := Nat.lt_of_lt_of_le (h.tests k hk) hj

/-- One more number, for an owner that is not yet among the others. -/
theorem Distinct.concat (h : Distinct i j ws) (hw : w ∉ ws) (hclause : ∀ k, w = .clause k → k ≤ i)
    (htest : ∀ k, w = .test k → k < j') (hj : j ≤ j') : Distinct (i + 1) j' (ws ++ [w]) where
  nodup := List.concat_eq_append ▸ List.Nodup.concat hw h.nodup
  count := by
    rw [List.length_append]
    exact Nat.succ_le_succ h.count
  clauses k hk := by
    rcases List.mem_append.1 hk with hk | hk
    · exact Nat.lt_succ_of_lt (h.clauses k hk)
    · exact Nat.lt_succ_of_le (hclause k (List.mem_singleton.1 hk).symm)
  tests k hk := by
    rcases List.mem_append.1 hk with hk | hk
    · exact Nat.lt_of_lt_of_le (h.tests k hk) hj
    · exact htest k (List.mem_singleton.1 hk).symm

theorem Distinct.concat_clause (h : Distinct i j ws) : Distinct (i + 1) j (ws ++ [.clause i]) := by
  refine h.concat (fun hi => Nat.lt_irrefl i (h.clauses i hi)) ?_ ?_ (Nat.le_refl j)
  · rintro k ⟨⟩
    exact Nat.le_refl i
  · rintro k ⟨⟩

theorem Distinct.concat_test (h : Distinct i j ws) :
    Distinct (i + 1) (j + 1) (ws ++ [.test j]) := by
  refine h.concat (fun hj => Nat.lt_irrefl j (h.tests j hj)) ?_ ?_ (Nat.le_succ j)
  · rintro k ⟨⟩
  · rintro k ⟨⟩
    exact Nat.lt_succ_self j

end IdOwner

namespace Criterion

variable {c c' : Criterion} {i j : Nat} {a a' : Option Nat}

/-- Whether a criterion is reached over several tables. -/
def Joined (c : Criterion) : Prop := 1 < (tableChain c.path c.leftTable.table).length

/-- Whether a criterion compares in a property table. -/
def OnProperties (c : Criterion) : Prop := c.leftTable.table.holdsProperties = true

instance (c : Criterion) : Decidable c.OnProperties := inferInstanceAs (Decidable (_ = _))

/-- Whether a criterion is the one of a test on `d`. -/
def MadeOf (now : Int) (d : Domain) (t : Test) (c : Criterion) : Prop :=
  ∃ s s' : Draft, s.query.domain = d ∧ s.criterionOf now t = .ok (c, s')

/-- What the number of a criterion is for, if its test has the index `i` and the clause on one
property around it begins at `a`. -/
def idOwner (c : Criterion) (i : Nat) (a : Option Nat) : IdOwner :=
  if c.OnProperties then a.elim (.test i) .clause else .test i

theorem idOwner_cases (c : Criterion) (i : Nat) (a : Option Nat) :
    (∃ k, a = some k ∧ c.OnProperties ∧ c.idOwner i a = .clause k) ∨
      ((c.OnProperties → a = none) ∧ c.idOwner i a = .test i) := by
  rw [idOwner]
  split
  · rename_i hc
    cases a with
    | none => exact .inr ⟨fun _ => rfl, rfl⟩
    | some k => exact .inl ⟨k, rfl, hc, rfl⟩
  · rename_i hc
    exact .inr ⟨fun h => absurd h hc, rfl⟩

/-- Different criteria have an owner in common only on properties in the same clause. -/
theorem idOwner_eq_iff (hij : i ≠ j) : c.idOwner i a = c'.idOwner j a' ↔
    c.OnProperties ∧ c'.OnProperties ∧ ∃ k, a = some k ∧ a' = some k := by
  -- A clause owns what it shares, and any other number is owned by its test. Tests at different
  -- places are different owners, so only two clauses can agree.
  rcases c.idOwner_cases i a with ⟨k, rfl, hc, hw⟩ | ⟨hc, hw⟩
  · rcases c'.idOwner_cases j a' with ⟨k', rfl, hc', hw'⟩ | ⟨hc', hw'⟩
    · rw [hw, hw', IdOwner.clause.injEq]
      constructor
      · rintro rfl
        exact ⟨hc, hc', k, rfl, rfl⟩
      · rintro ⟨-, -, l, hk, hk'⟩
        exact Option.some.inj (hk.trans hk'.symm)
    · rw [hw, hw']
      refine iff_of_false (fun h => by cases h) ?_
      rintro ⟨-, hproperties, l, -, hl⟩
      rw [hc' hproperties] at hl
      cases hl
  · refine iff_of_false (fun h => ?_) ?_
    · rw [hw] at h
      rcases c'.idOwner_cases j a' with ⟨k', -, -, hw'⟩ | ⟨-, hw'⟩
      · cases h.trans hw'
      · exact hij (IdOwner.test.inj (h.trans hw'))
    · rintro ⟨hproperties, -, l, hl, -⟩
      rw [hc hproperties] at hl
      cases hl

end Criterion

/-! ## Numbered drafts -/

/-- Whether an open clause is the one that begins at a position, with the number for it. -/
inductive OpenClause.BegunAt (ws : List IdOwner) : Connective × Nat → OpenClause → Prop
  | and (k : Nat) : BegunAt ws (.and, k) .and
  | or (k : Nat) : BegunAt ws (.or, k) .or
  | sameProperty (k n : Nat) (hn : (IdOwner.clause k).Gets ws n) :
      BegunAt ws (.sameProperty, k) (.sameProperty n)

namespace OpenClause

variable {ws : List IdOwner} {o : OpenClause} {b : Connective × Nat}

theorem BegunAt.append (h : BegunAt ws b o) (ws' : List IdOwner) : BegunAt (ws ++ ws') b o := by
  cases h with
  | and k => exact .and k
  | or k => exact .or k
  | sameProperty k n hn => exact .sameProperty k n (hn.append ws')

/-- The number shared inside open clauses is that of the innermost clause on one property. -/
theorem innermost?_of_begunAt {opened : List (Connective × Nat)} {os : List OpenClause}
    (h : List.Forall₂ (BegunAt ws) opened os) :
    (os.findSome? id? = none → Phrase.innermost? opened = none) ∧
      ∀ n, os.findSome? id? = some n →
        ∃ k, Phrase.innermost? opened = some k ∧ (IdOwner.clause k).Gets ws n := by
  induction h with
  | nil => exact ⟨fun _ => rfl, fun n hn => (by cases hn)⟩
  | cons hfirst _ ih =>
    cases hfirst with
    | and k => exact ih
    | or k => exact ih
    | sameProperty k n hn =>
      refine ⟨fun hnone => (by cases hnone), fun n' hn' => ?_⟩
      cases hn'
      exact ⟨k, rfl, hn⟩

end OpenClause

theorem eq_some_of_getElem?_concat {α : Type} {l : List α} {a b : α} {j : Nat}
    (h : (l ++ [a])[j]? = some b) : l[j]? = some b ∨ j = l.length ∧ a = b := by
  rcases Nat.lt_or_ge j l.length with hj | hj
  · rw [List.getElem?_append_left hj] at h
    exact .inl h
  · rw [List.getElem?_append_right hj] at h
    obtain ⟨hlt, heq⟩ := List.getElem?_eq_some_iff.1 h
    rw [List.getElem_singleton] at heq
    have hlt : j - l.length < 1 := hlt
    exact .inr ⟨by omega, heq⟩

namespace Draft

variable {now : Int} {s s' : Draft} {opened : List (Connective × Nat)} {i i' : Nat}
  {tests : List PlacedTest} {ws : List IdOwner} {t : Test} {c : Criterion}

/-- Whether a draft holds the criteria of `tests`, behind `i` phrases and inside the clauses
`opened`, where numbers were handed out to `ws` in turn. -/
structure Numbered (now : Int) (s : Draft) (opened : List (Connective × Nat)) (i : Nat)
    (tests : List PlacedTest) (ws : List IdOwner) : Prop where
  distinct : IdOwner.Distinct i tests.length ws
  nextId : s.nextId = firstDynamicId + ws.length
  clauses : List.Forall₂ (OpenClause.BegunAt ws) opened s.clauses
  made : List.Forall₂ (fun t c => c.MadeOf now s.query.domain t.test) tests s.query.criteria
  below : ∀ c ∈ s.query.criteria, c.leftTable.id < s.nextId
  owned : ∀ j (t : PlacedTest) (c : Criterion), (tests.zip s.query.criteria)[j]? = some (t, c) →
    c.Joined → (c.idOwner j t.around).Gets ws c.leftTable.id

theorem numbered_of_agrees {d : Domain} (h : s.Agrees (start d)) (hempty : s.query.elements = []) :
    s.Numbered now [] 0 [] [] := by
  have hcriteria : s.query.criteria = [] := by
    rw [Query.criteria, hempty]
    rfl
  refine ⟨IdOwner.distinct_nil, h.nextId, ?_, ?_, ?_, ?_⟩
  · rw [h.clauses]
    exact .nil
  · rw [hcriteria]
    exact .nil
  · rw [hcriteria]
    exact fun c hc => absurd hc List.not_mem_nil
  · exact fun j t c h => by cases h

theorem Numbered.later (h : s.Numbered now opened i tests ws) (hi : i ≤ i') :
    s.Numbered now opened i' tests ws :=
  { h with distinct := h.distinct.mono hi (Nat.le_refl _) }

/-- A draft of fewer phrases than there are numbers stays within these, with one more left. -/
theorem Numbered.id_lt_idCount (h : s.Numbered now opened i tests ws)
    (hsize : firstDynamicId + i < idCount) :
    ∀ c ∈ s.query.criteria, c.leftTable.id + 1 < idCount := by
  intro c hc
  have hbelow := h.below c hc
  have hcount := h.distinct.count
  rw [h.nextId] at hbelow
  omega

/-- The criterion of a further test has the number of its owner. -/
theorem Numbered.criterionOf (h : s.Numbered now opened i tests ws)
    (hc : s.criterionOf now t = .ok (c, s')) :
    ∃ ws', (ws' = [] ∨ ws' = [.test tests.length]) ∧ s'.nextId = s.nextId + ws'.length ∧
      c.leftTable.id < s'.nextId ∧
      (c.Joined → (c.idOwner tests.length (Phrase.innermost? opened)).Gets (ws ++ ws')
        c.leftTable.id) := by
  obtain ⟨hnone, hsome⟩ := OpenClause.innermost?_of_begunAt h.clauses
  have hbelow : ∀ n, s.sharedId? = some n → n < s.nextId := by
    intro n hn
    obtain ⟨k, -, hgets⟩ := hsome n hn
    rw [h.nextId]
    exact hgets.lt
  -- A static number is handed out to nobody, and its criterion is not joined.
  rcases supplies_of_criterionOf hc with ⟨hone, rfl, hid⟩ | hsupplies
  · refine ⟨[], .inl rfl, rfl, ?_, fun hjoined => absurd hjoined (Nat.not_lt.2 hone.le)⟩
    rcases hid with hid | hid
    · rw [hid, h.nextId]
      exact Nat.lt_of_lt_of_le (by decide) (Nat.le_add_right _ _)
    · exact hbelow _ hid
  -- The owner is the clause exactly where its number is shared, so the cases follow the supply.
  rw [Criterion.idOwner]
  generalize c.leftTable.id = n at hsupplies ⊢
  cases hsupplies with
  | shared n hproperties hn =>
    obtain ⟨k, hk, hgets⟩ := hsome n hn
    refine ⟨[], .inl rfl, rfl, hbelow n hn, fun _ => ?_⟩
    have hproperties : c.OnProperties := hproperties
    rw [if_pos hproperties, hk, List.append_nil]
    exact hgets
  | new hnew =>
    refine ⟨[.test tests.length], .inr rfl, rfl, Nat.lt_succ_self _, fun _ => ?_⟩
    have hgets := IdOwner.gets_concat ws (.test tests.length)
    rw [← h.nextId] at hgets
    split
    · rename_i hproperties
      rw [hnone (hnew hproperties)]
      exact hgets
    · exact hgets

/-- Behind a further test, its criterion is the last one. -/
theorem Numbered.addTest (h : s.Numbered now opened i tests ws) (htest : s.addTest now t = .ok s') :
    ∃ ws', s'.Numbered now opened (i + 1) (tests ++ [⟨t, Phrase.innermost? opened⟩]) ws' := by
  obtain ⟨c, s₁, n, es, hc, rfl, rfl, hes⟩ := addTest_eq_ok htest
  obtain ⟨ws', hws', hnext, hid, hown⟩ := h.criterionOf hc
  have hlength : tests.length = s.query.criteria.length := h.made.length_eq
  -- Whoever got a number before still has it when more are handed out, and no number is handed out
  -- twice because the counter only grows.
  refine ⟨ws ++ ws', ?_, ?_, ?_, ?_, fun c' hc' => ?_, fun j t' c' hj hjoined => ?_⟩
  · rw [List.length_append]
    rcases hws' with rfl | rfl
    · rw [List.append_nil]
      exact h.distinct.mono (Nat.le_succ i) (Nat.le_succ _)
    · exact h.distinct.concat_test
  · rw [List.length_append, ← Nat.add_assoc, ← h.nextId]
    exact hnext
  · exact h.clauses.imp fun _ _ ho => ho.append ws'
  · show List.Forall₂ _ _ (Element.criteria es)
    rw [hes]
    exact List.rel_append h.made (.cons ⟨s, s₁, rfl, hc⟩ .nil)
  · change c' ∈ Element.criteria es at hc'
    rw [hes, List.mem_append, List.mem_singleton] at hc'
    rcases hc' with hc' | rfl
    · have hle : s.nextId ≤ s₁.nextId := hnext ▸ Nat.le_add_right _ _
      exact Nat.lt_of_lt_of_le (h.below c' hc') hle
    · exact hid
  · change ((tests ++ [_]).zip (Element.criteria es))[j]? = _ at hj
    rw [hes, List.zip_append hlength] at hj
    -- The pair is an earlier one, or the one that was just added.
    rcases eq_some_of_getElem?_concat hj with hj | ⟨rfl, hlast⟩
    · exact (h.owned j t' c' hj hjoined).append ws'
    · cases hlast
      rw [List.length_zip, ← hlength, Nat.min_self]
      exact hown hjoined

/-- The same criteria inside other clauses, and perhaps further numbers. -/
theorem Numbered.reopened (h : s.Numbered now opened i tests ws) {ws' : List IdOwner}
    {opened' : List (Connective × Nat)} (hdomain : s'.query.domain = s.query.domain)
    (hcriteria : s'.query.criteria = s.query.criteria)
    (hdistinct : IdOwner.Distinct i' tests.length (ws ++ ws'))
    (hnext : s'.nextId = s.nextId + ws'.length)
    (hclauses : List.Forall₂ (OpenClause.BegunAt (ws ++ ws')) opened' s'.clauses) :
    s'.Numbered now opened' i' tests (ws ++ ws') := by
  refine ⟨hdistinct, ?_, hclauses, ?_, ?_, ?_⟩
  · rw [hnext, h.nextId, List.length_append, Nat.add_assoc]
  · rw [hdomain, hcriteria]
    exact h.made
  · rw [hcriteria, hnext]
    exact fun c hc => Nat.lt_of_lt_of_le (h.below c hc) (Nat.le_add_right _ _)
  · rw [hcriteria]
    exact fun j t c hj hjoined => (h.owned j t c hj hjoined).append ws'

/-- Opening a clause on one property takes a number for it. -/
theorem Numbered.openClause (h : s.Numbered now opened i tests ws) (k : Connective) :
    ∃ ws', (s.openClause k).Numbered now ((k, i) :: opened) (i + 1) tests ws' := by
  have hdomain : (s.openClause k).query.domain = s.query.domain := by
    rw [openClause_query]
  have hcriteria := criteria_openClause s k
  have hclauses : ∀ ws', List.Forall₂ (OpenClause.BegunAt (ws ++ ws')) opened s.clauses :=
    fun ws' => h.clauses.imp fun _ _ ho => ho.append ws'
  have hsame : IdOwner.Distinct (i + 1) tests.length (ws ++ []) := by
    rw [List.append_nil]
    exact h.distinct.mono (Nat.le_succ i) (Nat.le_refl _)
  rw [openClause_eq] at hdomain hcriteria ⊢
  cases k with
  | and => exact ⟨_, h.reopened hdomain hcriteria hsame rfl (.cons (.and i) (hclauses []))⟩
  | or => exact ⟨_, h.reopened hdomain hcriteria hsame rfl (.cons (.or i) (hclauses []))⟩
  | sameProperty =>
    have hgets := IdOwner.gets_concat ws (.clause i)
    rw [← h.nextId] at hgets
    exact ⟨_, h.reopened hdomain hcriteria h.distinct.concat_clause rfl
      (.cons (.sameProperty i s.nextId hgets) (hclauses _))⟩

/-- Closing a clause leaves the others open. -/
theorem Numbered.closeClause (h : s.Numbered now opened i tests ws)
    (hclose : s.closeClause = .ok s') :
    ∃ ws', s'.Numbered now opened.tail (i + 1) tests ws' := by
  obtain ⟨o, es, hclauses, hnext, hquery, hes⟩ := closeClause_eq_ok hclose
  have hopened := h.clauses
  rw [hclauses] at hopened
  cases hopened with
  | cons _ hrest =>
    refine ⟨ws ++ [], h.reopened ?_ ?_ ?_ hnext ?_⟩
    · rw [hquery]
    · rw [hquery]
      exact hes
    · rw [List.append_nil]
      exact h.distinct.mono (Nat.le_succ i) (Nat.le_refl _)
    · rw [List.append_nil]
      exact hrest

end Draft

/-! ## Whole conditions -/

namespace Phrase

open Draft

variable {now : Int}

theorem signed?_of_comparatorOf {sig : String} {cmp : Comparator}
    (h : comparatorOf sig = .ok cmp) : Comparator.signed? sig = some cmp := by
  rw [comparatorOf] at h
  split at h <;> cases h
  assumption

/-- Behind phrases, a draft holds the criteria of their tests. -/
theorem numbered_writeCriteria (ps : List Phrase) {s s' : Draft}
    {opened : List (Connective × Nat)} {i : Nat} {tests : List PlacedTest} {ws : List IdOwner}
    (hs : s.Numbered now opened i tests ws) (h : writeCriteria now s ps = .ok s') :
    ∃ opened' ws', s'.Numbered now opened' (i + ps.length) (tests ++ placedTests opened i ps)
      ws' := by
  have hlength : ∀ (n : Nat) (p : Phrase) (rest : List Phrase),
      n + (p :: rest).length = n + 1 + rest.length := by
    intro n p rest
    rw [List.length_cons, Nat.add_right_comm, Nat.add_assoc]
  -- The induction follows the writer: phrases that open or close a clause, that state a test, that
  -- end in the middle of one (where writing fails), and all others. What it carries is the
  -- invariant on the draft, with the open clauses, the tests and the owners so far left free.
  induction s, ps using writeCriteria.induct generalizing opened i tests ws with
  | case1 s c rest ih =>
    rw [writeCriteria] at h
    obtain ⟨ws', hopen⟩ := hs.openClause c
    rw [placedTests, hlength]
    exact ih hopen h
  | case2 s rest ih =>
    rw [writeCriteria] at h
    obtain ⟨s₁, hclose, h⟩ := bind_eq_ok.1 h
    obtain ⟨ws', hclosed⟩ := hs.closeClause hclose
    rw [placedTests, hlength]
    exact ih s₁ hclosed h
  | case3 s p sig v rest ih =>
    rw [writeCriteria] at h
    obtain ⟨cmp, hcmp, h⟩ := bind_eq_ok.1 h
    obtain ⟨s₁, htest, h⟩ := bind_eq_ok.1 h
    obtain ⟨ws', htested⟩ := hs.addTest htest
    -- A test is three phrases long, and only the first one can own a number.
    have hbehind : s₁.Numbered now opened (i + 3)
        (tests ++ [⟨⟨p, cmp, v⟩, innermost? opened⟩]) ws' :=
      htested.later (Nat.le_add_right (i + 1) 2)
    rw [placedTests, signed?_of_comparatorOf hcmp, hlength, hlength, hlength, ← List.append_assoc]
    exact ih s₁ hbehind h
  | case4 s p sig rest hrest =>
    rw [writeCriteria] at h
    · obtain ⟨cmp, -, h⟩ := bind_eq_ok.1 h
      cases h
    · exact hrest
  | case5 s p rest hrest hrest' =>
    rw [writeCriteria] at h
    · cases h
    · exact hrest
    · exact hrest'
  | case6 s p rest hbegin hend htest hcomparator hfield ih =>
    rw [writeCriteria] at h
    · rw [placedTests, hlength]
      · exact ih (hs.later (Nat.le_succ i)) h
      all_goals assumption
    all_goals assumption
  | case7 s =>
    rw [writeCriteria] at h
    cases h
    rw [placedTests, List.append_nil]
    exact ⟨opened, ws, hs⟩

end Phrase

/-! ## Sources -/

mutual

/-- The phrases that say a clause. -/
def Clause.phrases : Clause → List Phrase
  | .test t => Phrase.test t.path t.comparator.signature t.value
  | .group c ms => Phrase.clause c (Clause.phrasesOfAll ms)

/-- The phrases that say clauses, one after the other. -/
def Clause.phrasesOfAll : List Clause → List Phrase
  | [] => []
  | c :: cs => c.phrases ++ Clause.phrasesOfAll cs

end

namespace Clause

open Phrase

mutual

/-- The phrases of a clause write it. -/
theorem writes_phrases (now : Int) : ∀ c : Clause, Writes now c.phrases [c]
  | .test t => writes_test t.path t.comparator t.value
  | .group c ms => (writes_phrasesOfAll now ms).clause c

theorem writes_phrasesOfAll (now : Int) : ∀ cs : List Clause, Writes now (phrasesOfAll cs) cs
  | [] => .nil
  | c :: cs => (writes_phrases now c).append (writes_phrasesOfAll now cs)

end

theorem writeCriteria_phrasesOfAll (now : Int) (s : Draft) (cs : List Clause) :
    writeCriteria now s (phrasesOfAll cs) = writeAll now s cs := by
  have hwrites := writes_phrasesOfAll now cs s []
  rw [List.append_nil] at hwrites
  rw [hwrites]
  cases writeAll now s cs with
  | error e => rfl
  | ok s => rfl

end Clause

/-- What queries are read from. -/
inductive QuerySource
  | text (s : String)
  | fluent (f : FluentQuery)

namespace QuerySource

/-- The query of a source; spans of time end at `now`. -/
def query (now : Int) : QuerySource → Except QueryError Query
  | text s => Query.ofText now s
  | fluent f => Query.ofFluent now f

/-- The phrases that say the criteria of a source. -/
def phrases : QuerySource → Except QueryError (List Phrase)
  | text s => Phrase.ofText s
  | fluent f => .ok (Clause.phrasesOfAll f.filters)

/-- A query completes what the phrases of its source write into an empty draft. -/
theorem exists_draft {now : Int} {src : QuerySource} {q : Query} (h : src.query now = .ok q) :
    ∃ ps d s s' c, src.phrases = .ok ps ∧ Draft.Agrees s (.start d) ∧ s.query.elements = [] ∧
      Phrase.writeCriteria now s ps = .ok s' ∧ s'.complete c = .ok q := by
  cases src with
  | text text =>
    rw [query, Query.ofText] at h
    obtain ⟨ps, hps, h⟩ := bind_eq_ok.1 h
    obtain ⟨d, s, s', c, hagrees, hempty, hwrite, hcomplete⟩ := Query.exists_draft_of_ofPhrases h
    exact ⟨ps, d, s, s', c, hps, hagrees, hempty, hwrite, hcomplete⟩
  | fluent f =>
    obtain ⟨s, s', c, hagrees, hempty, hwrite, hcomplete⟩ := Query.exists_draft_of_ofFluent h
    rw [← Clause.writeCriteria_phrasesOfAll] at hwrite
    exact ⟨_, f.domain, s, s', c, rfl, hagrees, hempty, hwrite, hcomplete⟩

end QuerySource

/-! ## Numbers of queries -/

/-- Whether the criteria of a query are those of `tests`, in their order, and have dynamic numbers
where they are joined. Two of these have the same number exactly if both compare on properties and
the innermost clause on one property around them is the same. -/
structure Query.SharesIds (now : Int) (q : Query) (tests : List PlacedTest) : Prop where
  made : List.Forall₂ (fun t c => c.MadeOf now q.domain t.test) tests q.criteria
  dynamic : ∀ c ∈ q.criteria, c.Joined → firstDynamicId ≤ c.leftTable.id
  shared : (tests.zip q.criteria).Pairwise fun x y => x.2.Joined → y.2.Joined →
    (x.2.leftTable.id = y.2.leftTable.id ↔
      x.2.OnProperties ∧ y.2.OnProperties ∧ ∃ k, x.1.around = some k ∧ y.1.around = some k)

namespace Draft

variable {now : Int} {s : Draft} {opened : List (Connective × Nat)} {i : Nat}
  {tests : List PlacedTest} {ws : List IdOwner} {q : Query}

/-- The numbers in a query are those of the draft that it completes. -/
theorem Numbered.sharesIds (h : s.Numbered now opened i tests ws) (hq : q.Alike s.query) :
    q.SharesIds now tests := by
  have hcriteria : q.criteria = s.query.criteria := by
    rw [Query.criteria, hq.elements]
    rfl
  constructor
  · rw [hq.domain, hcriteria]
    exact h.made
  · intro c hc hjoined
    rw [hcriteria] at hc
    obtain ⟨j, hj⟩ := List.getElem?_of_mem hc
    obtain ⟨hlt, -⟩ := List.getElem?_eq_some_iff.1 hj
    rw [← h.made.length_eq] at hlt
    have hzip : (tests.zip s.query.criteria)[j]? = some (tests[j], c) :=
      List.getElem?_zip_eq_some.2 ⟨List.getElem?_eq_getElem hlt, hj⟩
    exact (h.owned j tests[j] c hzip hjoined).le
  · rw [hcriteria, List.pairwise_iff_getElem]
    intro j j' hj hj' hlt hjoined hjoined'
    -- Both numbers have an owner, and each owner has one number.
    have hgets := h.owned j _ _ (List.getElem?_eq_getElem hj) hjoined
    have hgets' := h.owned j' _ _ (List.getElem?_eq_getElem hj') hjoined'
    exact (hgets.eq_iff h.distinct.nodup hgets').trans
      (Criterion.idOwner_eq_iff (Nat.ne_of_lt hlt))

end Draft

/-- Whether the read scope `keys` adds criteria to a query that read repositories in one joined
occurrence, with a number that no criterion has under the policies before. -/
def Query.ScopedApart (q : Query) (s : Surroundings) (keys : List String) : Prop :=
  ∃ o : Occurrence, o.table = .nodes ∧ o.isDynamic ∧
    (q.decorate s Policy.all).criteria = (q.decorate s Policy.beforeScope).criteria ++
      keys.map (fun k => .simple [q.domain, .items] .itemRepo o .equals (.text k)) ∧
    ∀ c ∈ (q.decorate s Policy.beforeScope).criteria, c.leftTable.id ≠ o.id

theorem Query.scopedApart_of_lt {s : Surroundings} {keys : List String} {q : Query}
    (hs : s.readScope = .repos keys) (hkeys : keys ≠ [])
    (hd : q.domain = .properties ∨ q.domain = .statistics)
    (hids : ∀ c ∈ q.criteria, c.leftTable.id + 1 < idCount) : q.ScopedApart s keys := by
  have hplace : (q.decorate s Policy.beforeScope).repoPlace? =
      some ([q.domain, .items], ⟨.nodes, (q.decorate s Policy.beforeScope).unusedId⟩) := by
    rw [repoPlace?, decorate_domain]
    rcases hd with hd | hd <;> rw [hd]
  refine ⟨⟨.nodes, (q.decorate s Policy.beforeScope).unusedId⟩, rfl, ?_, ?_, fun c hc => ?_⟩
  · exact decide_eq_true (firstDynamicId_le_unusedId _)
  · rw [decorate_all, hs, within_repos hplace, criteria_andAlso, ReadScope.criteria_elements,
      if_neg hkeys]
  -- The number is beyond all that the criteria have, unless these reach the end of the range.
  · exact Nat.ne_of_lt (lt_unusedId hc (id_lt_of_mem_beforeScope hids c hc))

/-- Every query that is accepted, from whatever source, has dynamic numbers where criteria are
joined, and shares them exactly on properties inside the same innermost clause on one property. A
read scope on properties or statistics joins their repositories under a number of its own, as long
as the phrases of the source cannot use up the numbers, which have 32 bits. -/
theorem sharedIds_exact (now : Int) {src : QuerySource} {q : Query} (h : src.query now = .ok q) :
    ∃ ps, src.phrases = .ok ps ∧ q.SharesIds now (Phrase.placedTests [] 0 ps) ∧
      ∀ (s : Surroundings) (keys : List String), s.readScope = .repos keys → keys ≠ [] →
        (q.domain = .properties ∨ q.domain = .statistics) →
        firstDynamicId + ps.length < idCount → q.ScopedApart s keys := by
  obtain ⟨ps, d, s₀, s₁, c, hps, hagrees, hempty, hwrite, hcomplete⟩ := QuerySource.exists_draft h
  -- The draft is numbered from its start on, completing it changes no criterion, and decorating it
  -- only adds some.
  obtain ⟨opened, ws, hnumbered⟩ := Phrase.numbered_writeCriteria ps
    (Draft.numbered_of_agrees hagrees hempty) hwrite
  rw [Nat.zero_add, List.nil_append] at hnumbered
  have halike := (Draft.complete_eq_ok hcomplete).1
  refine ⟨ps, hps, hnumbered.sharesIds halike, fun s keys hs hkeys hd hsize => ?_⟩
  refine Query.scopedApart_of_lt hs hkeys hd fun c hc => hnumbered.id_lt_idCount hsize c ?_
  rw [Query.criteria, halike.elements] at hc
  exact hc

/-- Statistics of items with properties in clauses on one property, one inside the other and with an
alternative between them, and with a property outside. -/
def FluentQuery.propertiesAround : FluentQuery where
  domain := .statistics
  filters := [
    .group .sameProperty [.test ⟨"item.property.key", .equals, .text "a"⟩,
      .group .or [.test ⟨"item.property.value", .equals, .text "b"⟩,
        .test ⟨"item.repo", .equals, .text "libs"⟩,
        .group .sameProperty [.test ⟨"item.property.key", .equals, .text "c"⟩]]],
    .test ⟨"item.property.key", .equals, .text "d"⟩, .test ⟨"downloads", .greater, .number 3⟩]

/-- The domain of a query, the numbers of its criteria and whether they compare on properties. -/
def Query.numbersUsed (q : Query) : Domain × List (Nat × Bool) :=
  (q.domain, q.criteria.map fun c => (c.leftTable.id, decide c.OnProperties))

theorem sharedIds_exact_propertiesAround :
    ∃ q ps, (QuerySource.fluent .propertiesAround).query 0 = .ok q ∧
      q.numbersUsed = (.statistics,
        [(100, true), (100, true), (101, false), (102, true), (103, true), (0, false)]) ∧
      (Phrase.placedTests [] 0 ps).map (·.around) =
        [some 0, some 0, some 0, some 11, none, none] ∧
      q.SharesIds 0 (Phrase.placedTests [] 0 ps) ∧
      Surroundings.libsOnly.readScope = .repos ["libs"] ∧ firstDynamicId + ps.length < idCount ∧
      q.ScopedApart .libsOnly ["libs"] := by
  obtain ⟨q, hq, hnumbers⟩ := map_eq_ok.1 (by decide +kernel :
    ((QuerySource.fluent .propertiesAround).query 0).map Query.numbersUsed = .ok (.statistics,
      [(100, true), (100, true), (101, false), (102, true), (103, true), (0, false)]))
  obtain ⟨ps, hps, hshares, hscope⟩ := sharedIds_exact 0 hq
  cases hps
  have hscoped : Surroundings.libsOnly.readScope = .repos ["libs"] := rfl
  have hdomain : q.domain = .statistics := congrArg Prod.fst hnumbers
  have hsize : firstDynamicId + (Clause.phrasesOfAll FluentQuery.propertiesAround.filters).length <
      idCount := by decide
  exact ⟨q, _, hq, hnumbers, by decide +kernel, hshares, hscoped, hsize,
    hscope .libsOnly ["libs"] hscoped (List.cons_ne_nil _ _) (.inr hdomain) hsize⟩

end ArtifactQuery
