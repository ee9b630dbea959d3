import ArtifactQuery.Proofs.Acceptance

/-!
# Formulas

A flat run of marks, operands with connectives and parentheses between them, is a formula: in
parentheses first, then by `and`, then by `or`, and from the left among connectives of one kind.

* `Mark`, `Formula`: the marks, and the tree that they are read as.
* `Formula.Spells`: the grammar.
* `Spells.unique`: marks spell one tree at most.
* `Spells.bind`: operands may give way to marks that spell operands.
* `Spells.map`, `Spells.of_map`: what renamed marks spell is the renamed tree of the marks.
* `exists_spells_of_run`: accepted elements spell a tree of their criteria.
-/

namespace ArtifactQuery

/-- A piece of a flat expression. -/
inductive Mark (α : Type)
  | leaf (a : α)
  | and
  | or
  | openParen
  | closeParen
  deriving DecidableEq, Repr

/-- An expression as a tree. -/
inductive Formula (α : Type)
  | leaf (a : α)
  | both (f g : Formula α)
  | either (f g : Formula α)
  deriving DecidableEq, Repr

variable {α β : Type}

namespace Mark

/-- The mark with another operand. -/
def map (φ : α → β) : Mark α → Mark β
  | leaf a => leaf (φ a)
  | and => and
  | or => or
  | openParen => openParen
  | closeParen => closeParen

/-- The marks in place of a mark, where operands give way. -/
def bind (φ : α → List (Mark β)) : Mark α → List (Mark β)
  | leaf a => φ a
  | and => [and]
  | or => [or]
  | openParen => [openParen]
  | closeParen => [closeParen]

/-- The operand that a mark is. -/
def leaf? : Mark α → Option α
  | leaf a => some a
  | _ => none

end Mark

namespace Formula

/-- The tree with other operands. -/
def map (φ : α → β) : Formula α → Formula β
  | leaf a => leaf (φ a)
  | both f g => both (f.map φ) (g.map φ)
  | either f g => either (f.map φ) (g.map φ)

/-- The tree with trees in place of its operands. -/
def bind (φ : α → Formula β) : Formula α → Formula β
  | leaf a => φ a
  | both f g => both (f.bind φ) (g.bind φ)
  | either f g => either (f.bind φ) (g.bind φ)

/-- The operands from left to right. -/
def leaves : Formula α → List α
  | leaf a => [a]
  | both f g | either f g => f.leaves ++ g.leaves

/-! ## The grammar -/

/-- The marks form an operand, a conjunction or a disjunction, which is the tree. -/
inductive Spells : Rank → List (Mark α) → Formula α → Prop
  | leaf (a : α) : Spells .operand [.leaf a] (.leaf a)
  | paren {ms : List (Mark α)} {f : Formula α} (h : Spells .disjunction ms f) :
      Spells .operand (.openParen :: ms ++ [.closeParen]) f
  | one {ms : List (Mark α)} {f : Formula α} (h : Spells .operand ms f) : Spells .conjunction ms f
  | and {ms ms' : List (Mark α)} {f g : Formula α} (h : Spells .conjunction ms f)
      (h' : Spells .operand ms' g) : Spells .conjunction (ms ++ .and :: ms') (.both f g)
  | only {ms : List (Mark α)} {f : Formula α} (h : Spells .conjunction ms f) :
      Spells .disjunction ms f
  | or {ms ms' : List (Mark α)} {f g : Formula α} (h : Spells .disjunction ms f)
      (h' : Spells .conjunction ms' g) : Spells .disjunction (ms ++ .or :: ms') (.either f g)

/-! ## One tree at most -/

/-- What has been read since the last open parenthesis: the finished alternatives, and the one being
read as far as it goes. -/
structure Unfinished (α : Type) where
  earlier : Option (Formula α) := none
  current : Option (Formula α) := none

namespace Unfinished

/-- A further operand of the alternative being read. -/
def meet (u : Unfinished α) (f : Formula α) : Unfinished α :=
  { u with current := some (u.current.elim f (.both · f)) }

/-- The tree of all alternatives. -/
def value (u : Unfinished α) : Option (Formula α) :=
  u.current.map fun f => u.earlier.elim f (.either · f)

/-- A further alternative. -/
def next (u : Unfinished α) : Unfinished α := ⟨u.value, none⟩

/-- Reads one mark; the innermost open parenthesis comes first. -/
def step : List (Unfinished α) → Mark α → List (Unfinished α)
  | u :: us, .leaf a => u.meet (.leaf a) :: us
  | u :: us, .or => u.next :: us
  | us, .openParen => {} :: us
  | u :: u' :: us, .closeParen => u.value.elim u' u'.meet :: us
  | us, _ => us

/-- Reads marks from the front. -/
def run (us : List (Unfinished α)) (ms : List (Mark α)) : List (Unfinished α) := ms.foldl step us

@[simp] theorem run_nil (us : List (Unfinished α)) : run us [] = us := rfl

theorem run_cons (us : List (Unfinished α)) (m : Mark α) (ms : List (Mark α)) :
    run us (m :: ms) = run (step us m) ms := rfl

theorem run_append (us : List (Unfinished α)) (ms ms' : List (Mark α)) :
    run us (ms ++ ms') = run (run us ms) ms' :=
  List.foldl_append

theorem step_and (u : Unfinished α) (us : List (Unfinished α)) : step (u :: us) .and = u :: us := by
  cases us <;> rfl

theorem step_openParen (us : List (Unfinished α)) : step us .openParen = {} :: us := by
  cases us <;> rfl

theorem step_closeParen {u : Unfinished α} {f : Formula α} (h : u.value = some f)
    (u' : Unfinished α) (us : List (Unfinished α)) :
    step (u :: u' :: us) .closeParen = u'.meet f :: us := by
  rw [step, h]
  rfl

/-- What reading makes of marks that spell a tree: an operand is met, a conjunction is the whole
alternative being read, and a disjunction the whole of what stands in its parentheses. -/
def Settles (ms : List (Mark α)) (f : Formula α) : Rank → Prop
  | .operand => ∀ u us, run (u :: us) ms = u.meet f :: us
  | .conjunction => ∀ e us, run (⟨e, none⟩ :: us) ms = ⟨e, some f⟩ :: us
  | .disjunction => ∀ us, ∃ u, run ({} :: us) ms = u :: us ∧ u.value = some f

end Unfinished

open Unfinished

/-- The pass agrees with the grammar at every rank. -/
theorem Spells.settles {r : Rank} {ms : List (Mark α)} {f : Formula α} (h : Spells r ms f) :
    Settles ms f r := by
  -- The induction is on how the marks are spelled, and the frames of the open parentheses are left
  -- free. Each rank says how far reading leaves the innermost frame.
  induction h with
  | leaf a => exact fun u us => rfl
  | @paren ms f _ ih =>
    intro u us
    obtain ⟨u', hread, hvalue⟩ := ih (u :: us)
    rw [List.cons_append, run_cons, step_openParen, run_append, hread, run_cons,
      step_closeParen hvalue, run_nil]
  | one _ ih =>
    intro e us
    exact ih ⟨e, none⟩ us
  | @and ms ms' f g _ _ ih ih' =>
    intro e us
    rw [run_append, ih, run_cons, step_and, ih']
    rfl
  | @only ms f _ ih =>
    intro us
    exact ⟨⟨none, some f⟩, ih none us, rfl⟩
  | @or ms ms' f g _ _ ih ih' =>
    intro us
    obtain ⟨u, hread, hvalue⟩ := ih us
    refine ⟨⟨some f, some g⟩, ?_, rfl⟩
    have hnext : step (u :: us) .or = ⟨some f, none⟩ :: us := by
      rw [step, next, hvalue]
    rw [run_append, hread, run_cons, hnext, ih']

/-- The tree that marks spell, found in one pass. -/
def read (ms : List (Mark α)) : Option (Formula α) := (run [{}] ms).head?.bind value

theorem Spells.toDisjunction {r : Rank} {ms : List (Mark α)} {f : Formula α} (h : Spells r ms f) :
    Spells .disjunction ms f := by
  cases r with
  | operand => exact .only (.one h)
  | conjunction => exact .only h
  | disjunction => exact h

theorem Spells.read_eq {r : Rank} {ms : List (Mark α)} {f : Formula α} (h : Spells r ms f) :
    read ms = some f := by
  obtain ⟨u, hread, hvalue⟩ := h.toDisjunction.settles []
  rw [read, hread]
  exact hvalue

/-- No marks can be read in two ways. -/
theorem Spells.unique {r r' : Rank} {ms : List (Mark α)} {f g : Formula α} (h : Spells r ms f)
    (h' : Spells r' ms g) : f = g := by
  have hread := h.read_eq
  rw [h'.read_eq] at hread
  exact (Option.some.inj hread).symm

/-! ## Other operands -/

/-- Operands may give way to marks that spell operands. -/
theorem Spells.bind {r : Rank} {ms : List (Mark α)} {f : Formula α} (h : Spells r ms f)
    {φ : α → List (Mark β)} {ψ : α → Formula β}
    (hφ : ∀ a ∈ f.leaves, Spells .operand (φ a) (ψ a)) :
    Spells r (ms.flatMap (Mark.bind φ)) (f.bind ψ) := by
  induction h with
  | leaf a =>
    rw [List.flatMap_singleton]
    exact hφ a List.mem_cons_self
  | paren _ ih =>
    rw [List.cons_append, List.flatMap_cons, List.flatMap_append, List.flatMap_singleton]
    exact .paren (ih hφ)
  | one _ ih => exact .one (ih hφ)
  | and _ _ ih ih' =>
    rw [List.flatMap_append, List.flatMap_cons]
    exact .and (ih fun a ha => hφ a (List.mem_append_left _ ha))
      (ih' fun a ha => hφ a (List.mem_append_right _ ha))
  | only _ ih => exact .only (ih hφ)
  | or _ _ ih ih' =>
    rw [List.flatMap_append, List.flatMap_cons]
    exact .or (ih fun a ha => hφ a (List.mem_append_left _ ha))
      (ih' fun a ha => hφ a (List.mem_append_right _ ha))

/-- Renamed marks spell the renamed tree. -/
theorem Spells.map {r : Rank} {ms : List (Mark α)} {f : Formula α} (h : Spells r ms f)
    (φ : α → β) : Spells r (ms.map (Mark.map φ)) (f.map φ) := by
  induction h with
  | leaf a => exact .leaf (φ a)
  | paren _ ih =>
    rw [List.cons_append, List.map_cons, List.map_append, List.map_singleton]
    exact .paren ih
  | one _ ih => exact .one ih
  | and _ _ ih ih' =>
    rw [List.map_append, List.map_cons]
    exact .and ih ih'
  | only _ ih => exact .only ih
  | or _ _ ih ih' =>
    rw [List.map_append, List.map_cons]
    exact .or ih ih'

theorem Spells.leaves_eq {r : Rank} {ms : List (Mark α)} {f : Formula α} (h : Spells r ms f) :
    f.leaves = ms.filterMap Mark.leaf? := by
  induction h with
  | leaf a => rfl
  | paren _ ih =>
    rw [ih, List.cons_append, List.filterMap_cons_none rfl, List.filterMap_append]
    exact (List.append_nil _).symm
  | one _ ih => exact ih
  | and _ _ ih ih' =>
    rw [leaves, ih, ih', List.filterMap_append, List.filterMap_cons_none rfl]
  | only _ ih => exact ih
  | or _ _ ih ih' =>
    rw [leaves, ih, ih', List.filterMap_append, List.filterMap_cons_none rfl]

/-- What renamed marks spell is the renamed tree of the marks. -/
theorem Spells.of_map {φ : α → β} {r : Rank} {ms : List (Mark α)} {f : Formula β}
    (h : Spells r (ms.map (Mark.map φ)) f) : ∃ g, Spells r ms g ∧ g.map φ = f := by
  generalize hmarks : ms.map (Mark.map φ) = marks at h
  -- The marks are taken apart as the renamed ones were put together.
  induction h generalizing ms with
  | leaf b =>
    obtain ⟨m, rfl, hm⟩ := List.map_eq_singleton_iff.1 hmarks
    cases m <;> cases hm
    exact ⟨_, .leaf _, rfl⟩
  | paren _ ih =>
    rw [List.cons_append] at hmarks
    obtain ⟨m, rest, rfl, hm, hrest⟩ := List.map_eq_cons_iff.1 hmarks
    obtain ⟨inner, last, rfl, hinner, hlast⟩ := List.map_eq_append_iff.1 hrest
    obtain ⟨m', rfl, hm'⟩ := List.map_eq_singleton_iff.1 hlast
    cases m <;> cases hm
    cases m' <;> cases hm'
    obtain ⟨g, hg, rfl⟩ := ih hinner
    exact ⟨g, .paren hg, rfl⟩
  | one _ ih =>
    obtain ⟨g, hg, rfl⟩ := ih hmarks
    exact ⟨g, .one hg, rfl⟩
  | and _ _ ih ih' =>
    obtain ⟨front, rest, rfl, hfront, hrest⟩ := List.map_eq_append_iff.1 hmarks
    obtain ⟨m, back, rfl, hm, hback⟩ := List.map_eq_cons_iff.1 hrest
    cases m <;> cases hm
    obtain ⟨g, hg, rfl⟩ := ih hfront
    obtain ⟨g', hg', rfl⟩ := ih' hback
    exact ⟨_, .and hg hg', rfl⟩
  | only _ ih =>
    obtain ⟨g, hg, rfl⟩ := ih hmarks
    exact ⟨g, .only hg, rfl⟩
  | or _ _ ih ih' =>
    obtain ⟨front, rest, rfl, hfront, hrest⟩ := List.map_eq_append_iff.1 hmarks
    obtain ⟨m, back, rfl, hm, hback⟩ := List.map_eq_cons_iff.1 hrest
    cases m <;> cases hm
    obtain ⟨g, hg, rfl⟩ := ih hfront
    obtain ⟨g', hg', rfl⟩ := ih' hback
    exact ⟨_, .or hg hg', rfl⟩

/-! ## Accepted elements -/

/-- Whether an operand may follow marks: there may be alternatives with an `or` behind them, and
then operands of one more with an `and` behind them. -/
def Awaits (ms : List (Mark α)) : Prop :=
  ∃ ds cs, ms = ds ++ cs ∧
    (ds = [] ∨ ∃ front f, ds = front ++ [.or] ∧ Spells .disjunction front f) ∧
    (cs = [] ∨ ∃ front f, cs = front ++ [.and] ∧ Spells .conjunction front f)

theorem awaits_nil : Awaits ([] : List (Mark α)) := ⟨[], [], rfl, .inl rfl, .inl rfl⟩

/-- An operand ends a conjunction. -/
theorem exists_conjunction {cs ms : List (Mark α)} {f : Formula α}
    (hcs : cs = [] ∨ ∃ front f, cs = front ++ [.and] ∧ Spells .conjunction front f)
    (h : Spells .operand ms f) : ∃ g, Spells .conjunction (cs ++ ms) g := by
  rcases hcs with rfl | ⟨front, g, rfl, hg⟩
  · exact ⟨f, .one h⟩
  · rw [List.append_assoc]
    exact ⟨_, .and hg h⟩

/-- A conjunction ends a disjunction. -/
theorem exists_disjunction {ds ms : List (Mark α)} {f : Formula α}
    (hds : ds = [] ∨ ∃ front f, ds = front ++ [.or] ∧ Spells .disjunction front f)
    (h : Spells .conjunction ms f) : ∃ g, Spells .disjunction (ds ++ ms) g := by
  rcases hds with rfl | ⟨front, g, rfl, hg⟩
  · exact ⟨f, .only h⟩
  · rw [List.append_assoc]
    exact ⟨_, .or hg h⟩

namespace Awaits

variable {ms operand : List (Mark α)} {f : Formula α}

theorem disjunction (h : Awaits ms) (hf : Spells .operand operand f) :
    ∃ g, Spells .disjunction (ms ++ operand) g := by
  obtain ⟨ds, cs, rfl, hds, hcs⟩ := h
  obtain ⟨g, hg⟩ := exists_conjunction hcs hf
  rw [List.append_assoc]
  exact exists_disjunction hds hg

theorem and (h : Awaits ms) (hf : Spells .operand operand f) :
    Awaits (ms ++ operand ++ [.and]) := by
  obtain ⟨ds, cs, rfl, hds, hcs⟩ := h
  obtain ⟨g, hg⟩ := exists_conjunction hcs hf
  refine ⟨ds, cs ++ operand ++ [.and], ?_, hds, .inr ⟨cs ++ operand, g, rfl, hg⟩⟩
  rw [← List.append_assoc, ← List.append_assoc]

theorem or (h : Awaits ms) (hf : Spells .operand operand f) :
    Awaits (ms ++ operand ++ [.or]) := by
  obtain ⟨g, hg⟩ := h.disjunction hf
  exact ⟨ms ++ operand ++ [.or], [], (List.append_nil _).symm, .inr ⟨_, g, rfl, hg⟩, .inl rfl⟩

end Awaits

/-- Whether an operand may follow marks that leave `n` parentheses open. -/
inductive AwaitsInside : Nat → List (Mark α) → Prop
  | level {ms : List (Mark α)} (h : Awaits ms) : AwaitsInside 0 ms
  | paren {n : Nat} {outer ms : List (Mark α)} (h : AwaitsInside n outer) (h' : Awaits ms) :
      AwaitsInside (n + 1) (outer ++ .openParen :: ms)

/-- What may follow in the innermost parentheses may follow all marks. -/
theorem AwaitsInside.append {n : Nat} {ms more : List (Mark α)} (h : AwaitsInside n ms)
    (hmore : ∀ {ms : List (Mark α)}, Awaits ms → Awaits (ms ++ more)) :
    AwaitsInside n (ms ++ more) := by
  cases h with
  | level h => exact .level (hmore h)
  | paren h h' =>
    rw [List.append_assoc]
    exact .paren h (hmore h')

end Formula

/-- The mark of an element. -/
def Element.mark : Element → Mark Criterion
  | .criterion c => .leaf c
  | .and => .and
  | .or => .or
  | .openParen => .openParen
  | .closeParen => .closeParen

namespace Formula

/-- What the elements read so far are, where a check of elements stands. -/
def StandsAt (s : ElementCheck) (ms : List (Mark Criterion)) : Prop :=
  if s.wantsOperand then AwaitsInside s.depth ms
  else ∃ front operand f, ms = front ++ operand ∧ AwaitsInside s.depth front ∧
    Spells .operand operand f

open ElementCheck in
theorem standsAt_step {d : Domain} {s s' : ElementCheck} {e : Element}
    {ms : List (Mark Criterion)} (h : s.step d e = .ok s') (hs : StandsAt s ms) :
    StandsAt s' (ms ++ [e.mark]) := by
  -- The four steps are a criterion, an opening and a closing parenthesis, and a connective.
  rcases step_cases h with ⟨c, n, rfl, -, rfl, rfl⟩ | ⟨n, rfl, rfl, rfl⟩ | ⟨n, rfl, rfl, rfl⟩ |
    ⟨n, he, rfl, rfl⟩
  · exact ⟨ms, [.leaf c], .leaf c, rfl, hs, .leaf c⟩
  · exact .paren hs awaits_nil
  -- Closing makes an operand of everything behind the parenthesis that was opened last.
  · obtain ⟨front, operand, f, rfl, hfront, hf⟩ := hs
    cases hfront with
    | @paren _ outer inner houter hinner =>
      obtain ⟨g, hg⟩ := hinner.disjunction hf
      refine ⟨outer, .openParen :: (inner ++ operand) ++ [.closeParen], g, ?_, houter, .paren hg⟩
      simp [Element.mark]
  · obtain ⟨front, operand, f, rfl, hfront, hf⟩ := hs
    show AwaitsInside n (front ++ operand ++ [e.mark])
    rw [List.append_assoc]
    cases e with
    | and =>
      exact hfront.append fun hms => by
        rw [← List.append_assoc]
        exact hms.and hf
    | or =>
      exact hfront.append fun hms => by
        rw [← List.append_assoc]
        exact hms.or hf
    | criterion c | openParen | closeParen => cases he

theorem standsAt_run {d : Domain} {s s' : ElementCheck} {es : List Element}
    {ms : List (Mark Criterion)} (h : ElementCheck.run d s es = .ok s') (hs : StandsAt s ms) :
    StandsAt s' (ms ++ es.map Element.mark) := by
  induction es generalizing s ms with
  | nil =>
    cases h
    rwa [List.map_nil, List.append_nil]
  | cons e es ih =>
    obtain ⟨s₁, hstep, hrun⟩ := ElementCheck.run_cons_eq_ok h
    have hrest := ih hrun (standsAt_step hstep hs)
    rwa [List.append_assoc] at hrest

/-- Accepted elements spell a tree of their criteria. -/
theorem exists_spells_of_run {d : Domain} {es : List Element}
    (h : ElementCheck.run d (ElementCheck.before 0) es = .ok (ElementCheck.behind 0)) :
    ∃ f, Spells .disjunction (es.map Element.mark) f := by
  have hstart : StandsAt (ElementCheck.before 0) [] := AwaitsInside.level awaits_nil
  obtain ⟨front, operand, f, hmarks, hfront, hf⟩ := standsAt_run h hstart
  rw [List.nil_append] at hmarks
  rw [hmarks]
  cases hfront with
  | level hawaits => exact hawaits.disjunction hf

end Formula

end ArtifactQuery
