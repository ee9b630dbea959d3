import ArtifactQuery.Proofs.JoinOrder
import ArtifactQuery.Proofs.Walks

/-!
# Planning along linked tables

Where the tables of a chain are linked one to the next, all its joins can be planned; what remains
is that the numbers for shared occurrences may run out.

* `Planned`: an outcome, or the error that there are too many joins.
* `planned_shared`, `exists_own`: walks from the main table.
* `planned_forField`, `planned_forCriterion`: result fields and criteria.
-/

namespace ArtifactQuery.Sql

/-! ## Outcomes of planning -/

/-- Whether there is an outcome unless there are too many joins. -/
def Planned {α : Type} (x : Except QueryError α) : Prop :=
  (∃ a, x = .ok a) ∨ x = .error (.malformed .tooManyJoins)

section Planned

variable {α β : Type} {x : Except QueryError α}

theorem Planned.ok (a : α) : Planned (.ok a : Except QueryError α) := .inl ⟨a, rfl⟩

theorem Planned.bind {f : α → Except QueryError β} (h : Planned x)
    (hf : ∀ a, x = .ok a → Planned (f a)) : Planned (x >>= f) := by
  rcases h with ⟨a, rfl⟩ | rfl
  · exact hf a rfl
  · exact .inr rfl

theorem Planned.map (h : Planned x) (f : α → β) : Planned (x.map f) := by
  rcases h with ⟨a, rfl⟩ | rfl
  · exact .ok (f a)
  · exact .inr rfl

end Planned

namespace JoinPlan

variable {p : JoinPlan} {a b : Occurrence} {chain : List Table}

/-! ## Walks -/

theorem exists_join (h : a.table.Linked b.table) : ∃ p', p.join a b = .ok p' := by
  rw [join]
  split
  · exact ⟨_, rfl⟩
  · obtain ⟨c, hc⟩ := Option.isSome_iff_exists.1 h
    rw [Table.link, hc]
    exact ⟨_, rfl⟩

theorem exists_ownFrom {id : Nat} {ts : List Table} : ∀ {p : JoinPlan} {a : Occurrence},
    (a.table :: ts).IsChain Table.Linked → ∃ r, p.ownFrom id a ts = .ok r := by
  induction ts with
  | nil => exact fun _ => ⟨_, rfl⟩
  | cons t ts ih =>
    intro p a h
    obtain ⟨hfirst, hrest⟩ := List.isChain_cons_cons.1 h
    obtain ⟨p', hp'⟩ := exists_join (p := p) (b := ⟨t, id⟩) hfirst
    obtain ⟨r, hr⟩ := ih (p := p') (a := ⟨t, id⟩) hrest
    exact ⟨r, by rw [ownFrom, hp', ok_bind, hr]⟩

theorem planned_newShared (p : JoinPlan) (t : Table) : Planned (p.newShared t) := by
  rw [newShared]
  split
  · exact .ok _
  split
  · exact .ok _
  · exact .inr rfl

theorem planned_sharedFrom {ts : List Table} : ∀ {p : JoinPlan} {a : Occurrence}
    {done : List Table}, p.Ordered → a ∈ p.occurrences → done.getLast? = some a.table →
      (a.table :: ts).IsChain Table.Linked → Planned (p.sharedFrom a done ts) := by
  induction ts with
  | nil => exact fun _ _ _ _ => .ok _
  | cons t ts ih =>
    intro p a done hp ha _ h
    obtain ⟨hfirst, hrest⟩ := List.isChain_cons_cons.1 h
    rw [sharedFrom]
    dsimp only
    split
    · rename_i o ho
      obtain ⟨hmem, htable⟩ := hp.of_lookup ho
      rw [List.getLast?_concat] at htable
      obtain rfl : t = o.table := Option.some.inj htable
      exact ih hp hmem List.getLast?_concat hrest
    · refine (p.planned_newShared t).bind ?_
      rintro ⟨o, p₁⟩ hnew
      obtain ⟨rfl, -, n, rfl⟩ := newShared_eq_ok hnew
      obtain ⟨p₂, hjoin⟩ := exists_join (p := { p with numbered := n }) hfirst
      have hstep : Arrives { p with numbered := n } (done ++ [o.table]) o p₂ :=
        arrives_join (hp.withNumbered n) ha hjoin List.getLast?_concat
      refine Planned.bind (.inl ⟨p₂, hjoin⟩) fun p' hp' => ?_
      cases hjoin.symm.trans hp'
      exact ih (hstep.ordered.withChain hstep.reached hstep.table) hstep.reached hstep.table hrest

/-! ## Walks from the main table -/

theorem exists_own {id : Nat} (hhead : chain.head? = some p.main.table)
    (h : chain.IsChain Table.Linked) : ∃ r, p.own id chain = .ok r := by
  obtain ⟨ts, rfl⟩ := List.head?_eq_some_iff.1 hhead
  exact exists_ownFrom h

theorem planned_shared (hp : p.Ordered) (hhead : chain.head? = some p.main.table)
    (h : chain.IsChain Table.Linked) : Planned (p.shared chain) := by
  obtain ⟨ts, rfl⟩ := List.head?_eq_some_iff.1 hhead
  exact planned_sharedFrom hp List.mem_cons_self rfl h

/-- A reached field can be returned. -/
theorem planned_forField {f : ResultField} {d : Domain} (hp : p.Ordered)
    (hmain : p.main.table = d.table) (hf : f.Reached d) : Planned (p.forField f) :=
  planned_shared hp (hmain ▸ head?_tableChain hf.walk.start _) (linked_tableChain hf)

/-- What a criterion reads at the end of linked tables is found. -/
theorem planned_forCriterion {c : Criterion} {d : Domain} (hp : p.Ordered)
    (hmain : p.main.table = d.table) (hpath : c.path.head? = some d)
    (hlinked : ∀ t ∈ comparedTable? c, (tableChain c.path t).IsChain Table.Linked) :
    Planned (p.forCriterion c) := by
  rw [forCriterion]
  split
  case h_1 => exact .ok _
  case h_2 t ht =>
    have hchain := hlinked t ht
    have hhead : (tableChain c.path t).head? = some p.main.table :=
      hmain ▸ head?_tableChain hpath t
    dsimp only
    split
    case isTrue => exact .ok _
    case isFalse hlength =>
      rw [alongChain]
      split
      case isTrue => exact (planned_shared hp hhead hchain).map _
      case isFalse =>
        split
        case isFalse =>
          obtain ⟨r, hr⟩ : ∃ r, p.own c.leftTable.id (tableChain c.path t) = .ok r :=
            exists_own hhead hchain
          rw [hr]
          exact .ok _
        case isTrue =>
          have hdrop : (tableChain c.path t).dropLast.head? = some p.main.table := by
            rw [List.head?_dropLast, if_pos, hhead]
            have hpos := List.length_pos_iff.2 (tableChain_ne_nil c.path t)
            omega
          obtain ⟨r, hr⟩ : ∃ r, p.own c.leftTable.id (tableChain c.path t).dropLast = .ok r :=
            exists_own hdrop hchain.dropLast
          rw [hr]
          exact .ok _

end JoinPlan

end ArtifactQuery.Sql
