import ArtifactQuery.Proofs.Joins
import Mathlib.Data.List.Nodup

/-!
# The order of joins

A plan joins every occurrence once, and to one that it has already. Whatever result fields and
criteria ask for, what they read are occurrences of the plan.

* `JoinPlan.Ordered`: the occurrences of a plan are distinct, each is joined on linked columns to an
  earlier one, and the shared ones are those at the ends of their chains.
* `JoinPlan.Grown`: an ordered plan that keeps what another one has.
* `JoinPlan.Arrives`: a plan that grew by a walk along a chain, and the occurrence at its end.
* `arrives_shared`, `arrives_own`: walks for result fields and for criteria.
* `JoinPlan.Reads`: what a criterion reads, or the owner of what it denies, is in the plan.
* `reads_forCriterion`: planning for a criterion.
-/

namespace ArtifactQuery.Sql

/-! ## Chains of tables -/

section Chains

variable {path : List Domain} {d : Domain} {t : Table}

theorem head?_tableChain (h : path.head? = some d) (t : Table) :
    (tableChain path t).head? = some d.table := by
  obtain ⟨rest, rfl⟩ := List.head?_eq_some_iff.1 h
  rw [tableChain]
  split <;> rfl

theorem getLast?_tableChain (path : List Domain) (t : Table) :
    (tableChain path t).getLast? = some t := by
  rw [tableChain]
  split
  case isTrue h => exact h
  case isFalse => exact List.getLast?_concat

end Chains

namespace JoinPlan

variable {p p' p'' : JoinPlan} {a b z : Occurrence} {chain : List Table}

/-! ## Plans -/

/-- Whether the occurrences of a plan are distinct, each is joined on linked columns to one before
it, and chains lead to shared occurrences of their last tables. -/
structure Ordered (p : JoinPlan) : Prop where
  distinct : p.occurrences.Nodup
  inOrder : ∀ js j js', p.joins = js ++ j :: js' → j.onto ∈ p.main :: js.map Join.occurrence
  linked : ∀ j ∈ p.joins, j.onto.table.link? j.occurrence.table = some (j.ontoColumn, j.column)
  chains : ∀ e ∈ p.chains, e.2 ∈ p.occurrences ∧ e.1.getLast? = some e.2.table

/-- Whether `p'` is an ordered plan that grew from `p`. -/
structure Grown (p p' : JoinPlan) : Prop where
  ordered : p'.Ordered
  main : p'.main = p.main
  keeps : p.occurrences ⊆ p'.occurrences

/-- Whether `p'` is an ordered plan that grew from `p`, with the occurrence `z` at the end of a
chain. -/
structure Arrives (p : JoinPlan) (chain : List Table) (z : Occurrence) (p' : JoinPlan) : Prop
    extends p.Grown p' where
  reached : z ∈ p'.occurrences
  table : chain.getLast? = some z.table

theorem ordered_start (t : Table) : (start t).Ordered where
  distinct := List.nodup_singleton _
  inOrder js j js' h := by
    cases js <;> cases h
  linked _ hj := by cases hj
  chains _ he := by cases he

theorem Ordered.grown (hp : p.Ordered) : p.Grown p where
  ordered := hp
  main := rfl
  keeps := List.Subset.refl _

theorem Grown.trans (h : p.Grown p') (h' : p'.Grown p'') : p.Grown p'' where
  ordered := h'.ordered
  main := h'.main.trans h.main
  keeps := List.Subset.trans h.keeps h'.keeps

/-- An ordered plan arrives at what it has. -/
theorem Ordered.arrives (hp : p.Ordered) (hz : z ∈ p.occurrences)
    (hlast : chain.getLast? = some z.table) : p.Arrives chain z p where
  toGrown := hp.grown
  reached := hz
  table := hlast

/-- A walk may go on in a plan that has grown. -/
theorem Grown.arrives (h : p.Grown p') (h' : p'.Arrives chain z p'') : p.Arrives chain z p'' where
  toGrown := h.trans h'.toGrown
  reached := h'.reached
  table := h'.table

/-- The numbers given away so far do not matter to the order. -/
theorem Ordered.withNumbered (hp : p.Ordered) (n : Nat) :
    Ordered { p with numbered := n } where
  distinct := hp.distinct
  inOrder := hp.inOrder
  linked := hp.linked
  chains := hp.chains

/-- A chain may be recorded that leads to an occurrence of the plan. -/
theorem Ordered.withChain (hp : p.Ordered) (hz : z ∈ p.occurrences)
    (hlast : chain.getLast? = some z.table) :
    Ordered { p with chains := p.chains ++ [(chain, z)] } where
  distinct := hp.distinct
  inOrder := hp.inOrder
  linked := hp.linked
  chains e he := by
    rcases List.mem_append.1 he with he | he
    · exact hp.chains e he
    · rw [List.mem_singleton.1 he]
      exact ⟨hz, hlast⟩

/-- What a chain is recorded for is in the plan. -/
theorem Ordered.of_lookup (hp : p.Ordered) (h : p.chains.lookup chain = some z) :
    z ∈ p.occurrences ∧ chain.getLast? = some z.table := by
  obtain ⟨front, back, hchains, -⟩ := List.lookup_eq_some_iff.1 h
  exact hp.chains (chain, z) (hchains ▸ List.mem_append_right _ List.mem_cons_self)

/-! ## Steps -/

theorem occurrences_concat (p : JoinPlan) (j : Join) :
    occurrences { p with joins := p.joins ++ [j] } = p.occurrences ++ [j.occurrence] := by
  rw [occurrences, List.map_append]
  rfl

/-- An occurrence is joined to one of the plan. -/
theorem arrives_join (hp : p.Ordered) (ha : a ∈ p.occurrences) (h : p.join a b = .ok p')
    (hlast : chain.getLast? = some b.table) : p.Arrives chain b p' := by
  rcases join_eq_ok h with ⟨hb, rfl⟩ | ⟨hb, c, hc, rfl⟩
  · exact hp.arrives hb hlast
  have hoccurrences :
      occurrences { p with joins := p.joins ++ [⟨b, c.2, a, c.1⟩] } = p.occurrences ++ [b] :=
    occurrences_concat p _
  refine ⟨⟨⟨?_, ?_, ?_, ?_⟩, rfl, ?_⟩, ?_, hlast⟩
  · rw [hoccurrences]
    exact List.nodup_append.2 ⟨hp.distinct, List.nodup_singleton b, by
      rintro o ho _ hb' rfl
      exact hb (List.mem_singleton.1 hb' ▸ ho)⟩
  · intro js j js' hjs
    -- The join is the new one, which starts at an occurrence of the plan, or one of those before.
    rcases List.eq_nil_or_concat js' with rfl | ⟨js₁, j₁, rfl⟩
    · obtain ⟨rfl, hj⟩ := List.append_inj' hjs rfl
      cases hj
      exact ha
    · rw [List.concat_eq_append, ← List.cons_append, ← List.append_assoc] at hjs
      exact hp.inOrder js j js₁ (List.append_inj' hjs rfl).1
  · intro j hj
    rcases List.mem_append.1 hj with hj | hj
    · exact hp.linked j hj
    · rw [List.mem_singleton.1 hj]
      exact hc
  · intro e he
    rw [hoccurrences]
    obtain ⟨hmem, htable⟩ := hp.chains e he
    exact ⟨List.mem_append_left _ hmem, htable⟩
  · rw [hoccurrences]
    exact List.subset_append_left _ _
  · rw [hoccurrences]
    exact List.mem_append_right _ (List.mem_singleton_self b)

/-- A walk of a criterion. -/
theorem arrives_ownFrom {id : Nat} {ts : List Table} :
    ∀ {p : JoinPlan} {a : Occurrence} {done : List Table}, p.Ordered → a ∈ p.occurrences →
      done.getLast? = some a.table → p.ownFrom id a ts = .ok (z, p') →
      p.Arrives (done ++ ts) z p' := by
  induction ts with
  | nil =>
    intro p a done hp ha hlast h
    cases h
    rw [List.append_nil]
    exact hp.arrives ha hlast
  | cons t ts ih =>
    intro p a done hp ha _ h
    rw [ownFrom] at h
    obtain ⟨p₁, hjoin, h⟩ := bind_eq_ok.1 h
    have hstep : p.Arrives (done ++ [t]) ⟨t, id⟩ p₁ :=
      arrives_join hp ha hjoin List.getLast?_concat
    have hrest := ih hstep.ordered hstep.reached hstep.table h
    rw [List.append_assoc] at hrest
    exact hstep.toGrown.arrives hrest

/-- A walk of a result field. -/
theorem arrives_sharedFrom {ts : List Table} :
    ∀ {p : JoinPlan} {a : Occurrence} {done : List Table}, p.Ordered → a ∈ p.occurrences →
      done.getLast? = some a.table → p.sharedFrom a done ts = .ok (z, p') →
      p.Arrives (done ++ ts) z p' := by
  -- The walk stands at an occurrence of the plan at the end of the chain walked so far. From there
  -- the next one was reached before, or is joined now and recorded.
  induction ts with
  | nil =>
    intro p a done hp ha hlast h
    cases h
    rw [List.append_nil]
    exact hp.arrives ha hlast
  | cons t ts ih =>
    intro p a done hp ha _ h
    have happend : done ++ t :: ts = done ++ [t] ++ ts := by rw [List.append_assoc]; rfl
    rw [happend]
    rw [sharedFrom] at h
    dsimp only at h
    split at h
    · rename_i o ho
      obtain ⟨hmem, htable⟩ := hp.of_lookup ho
      exact ih hp hmem htable h
    · obtain ⟨⟨o, p₁⟩, hnew, h⟩ := bind_eq_ok.1 h
      obtain ⟨p₂, hjoin, h⟩ := bind_eq_ok.1 h
      obtain ⟨rfl, -, n, rfl⟩ := newShared_eq_ok hnew
      have hstep : Arrives { p with numbered := n } (done ++ [o.table]) o p₂ :=
        arrives_join (hp.withNumbered n) ha hjoin List.getLast?_concat
      have hrest := ih (hstep.ordered.withChain hstep.reached hstep.table) hstep.reached
        hstep.table h
      have hgrown : p.Grown p' :=
        ⟨hrest.ordered, hrest.main.trans hstep.main, List.Subset.trans hstep.keeps hrest.keeps⟩
      exact ⟨hgrown, hrest.reached, hrest.table⟩

/-! ## Walks from the main table -/

theorem arrives_own {id : Nat} (hp : p.Ordered) (hhead : chain.head? = some p.main.table)
    (h : p.own id chain = .ok (z, p')) : p.Arrives chain z p' := by
  obtain ⟨ts, rfl⟩ := List.head?_eq_some_iff.1 hhead
  have hwalk : p.Arrives ([p.main.table] ++ ts) z p' :=
    arrives_ownFrom hp List.mem_cons_self rfl h
  exact hwalk

theorem arrives_shared (hp : p.Ordered) (hhead : chain.head? = some p.main.table)
    (h : p.shared chain = .ok (z, p')) : p.Arrives chain z p' := by
  obtain ⟨ts, rfl⟩ := List.head?_eq_some_iff.1 hhead
  have hwalk : p.Arrives ([p.main.table] ++ ts) z p' :=
    arrives_sharedFrom hp List.mem_cons_self rfl h
  exact hwalk

/-- The occurrence that returns a result field is one of its table. -/
theorem arrives_forField {f : ResultField} {d : Domain} (hp : p.Ordered)
    (hmain : p.main.table = d.table) (hpath : f.path.head? = some d)
    (h : p.forField f = .ok (z, p')) :
    p.Arrives (tableChain f.path f.field.column.table) z p' :=
  arrives_shared hp (hmain ▸ head?_tableChain hpath _) h

/-! ## What a criterion reads -/

/-- Whether a plan has what a criterion reads in the table `t`. What a criterion denies is looked up
in a sub-select, so its owner is in the plan: a property itself, or the row that the chain reaches
it from. -/
structure Reads (p : JoinPlan) (c : Criterion) (t : Table) (r : Reading) : Prop where
  table : r.occurrence.table = t
  occurrence : ¬ DeniesProperty c → r.occurrence ∈ p.occurrences
  owner : DeniesProperty c → r.owner.getD r.occurrence ∈ p.occurrences
  ownerTable : (r.owner.getD r.occurrence).table = t ∨
    [(r.owner.getD r.occurrence).table, t] <:+ tableChain c.path t

theorem reads_alongChain {c : Criterion} {t : Table} {r : Reading} (hp : p.Ordered)
    (hhead : (tableChain c.path t).head? = some p.main.table)
    (hlength : (tableChain c.path t).length ≠ 1)
    (h : p.alongChain c (tableChain c.path t) = .ok (r, p')) : p.Grown p' ∧ p'.Reads c t r := by
  have hlast := getLast?_tableChain c.path t
  have hone : ∀ {z : Occurrence}, p.Arrives (tableChain c.path t) z p' →
      p'.Reads c t ⟨z, none⟩ := by
    intro z hz
    have htable : z.table = t := Option.some.inj (hz.table.symm.trans hlast)
    exact ⟨htable, fun _ => hz.reached, fun _ => hz.reached, .inl htable⟩
  rw [alongChain] at h
  split at h
  case isTrue =>
    obtain ⟨⟨z, p₁⟩, hshared, h⟩ := map_eq_ok.1 h
    cases h
    have hz := arrives_shared hp hhead hshared
    exact ⟨hz.toGrown, hone hz⟩
  case isFalse =>
    split at h
    case isFalse =>
      obtain ⟨⟨z, p₁⟩, hown, h⟩ := map_eq_ok.1 h
      cases h
      have hz := arrives_own hp hhead hown
      exact ⟨hz.toGrown, hone hz⟩
    case isTrue hdenies =>
      obtain ⟨⟨z, p₁⟩, hown, h⟩ := map_eq_ok.1 h
      cases h
      obtain ⟨front, hfront⟩ := List.getLast?_eq_some_iff.1 hlast
      have hdrop : (tableChain c.path t).dropLast = front := by rw [hfront, List.dropLast_concat]
      -- The walk of a denial ends at the owner, one table before the last.
      have hne : front ≠ [] := by
        rintro rfl
        rw [hfront] at hlength
        exact hlength rfl
      rw [hfront, List.head?_append_of_ne_nil _ hne] at hhead
      have hz := arrives_own hp (hdrop ▸ hhead) hown
      refine ⟨hz.toGrown, ?_, fun hnot => absurd hdenies hnot, fun _ => hz.reached, .inr ?_⟩
      · rw [hlast]
        rfl
      · obtain ⟨front', hfront'⟩ := List.getLast?_eq_some_iff.1 (hdrop ▸ hz.table)
        exact ⟨front', by rw [hfront, hfront', List.append_assoc]; rfl⟩

/-- What a criterion reads is in the plan. -/
theorem reads_forCriterion {c : Criterion} {d : Domain} {r : Reading} (hp : p.Ordered)
    (hmain : p.main.table = d.table) (hpath : c.path.head? = some d)
    (h : p.forCriterion c = .ok (r, p')) :
    p.Grown p' ∧ ∀ t ∈ comparedTable? c, p'.Reads c t r := by
  rw [forCriterion] at h
  split at h
  case h_1 hnone =>
    cases h
    refine ⟨hp.grown, fun t ht => ?_⟩
    rw [hnone] at ht
    cases ht
  case h_2 t ht =>
    have hhead : (tableChain c.path t).head? = some p.main.table :=
      hmain ▸ head?_tableChain hpath t
    have hreads : p.Grown p' ∧ p'.Reads c t r := by
      dsimp only at h
      split at h
      case isFalse hlength => exact reads_alongChain hp hhead hlength h
      case isTrue hlength =>
        cases h
        obtain ⟨t', hchain⟩ := List.length_eq_one_iff.1 hlength
        -- A chain of one table is both the first and the last one.
        have htable : p.main.table = t := by
          have hlast := getLast?_tableChain c.path t
          rw [hchain] at hhead hlast
          exact (Option.some.inj hhead).symm.trans (Option.some.inj hlast)
        exact ⟨hp.grown, htable, fun _ => List.mem_cons_self, fun _ => List.mem_cons_self,
          .inl htable⟩
    refine ⟨hreads.1, fun t' ht' => ?_⟩
    cases ht.symm.trans ht'
    exact hreads.2

end JoinPlan

end ArtifactQuery.Sql
