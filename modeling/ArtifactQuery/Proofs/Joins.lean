import ArtifactQuery.Proofs.Outcome
import ArtifactQuery.Sql.Statement
import Mathlib.Data.List.Basic

/-!
# Joins of a statement

A plan joins an occurrence once, to the occurrence from which it was reached first. What later
walks over it find is therefore decided by the first hop to it.

* `Hop`, `hops`: the single joins that a walk along tables asks for.
* `Along`: joins that lead from an occurrence along tables to another one.
* `JoinPlan.Follows`: the numbered joins of a plan are the first hops to their occurrences.
* `follows_join`, `follows_ownFrom`, `follows_sharedFrom`: what the steps of planning make of this.
* `along_iff`: the joins lead along a walk exactly if each of its hops is the first to its
  occurrence.
-/

namespace ArtifactQuery.Sql

/-! ## Walks -/

/-- One occurrence reached from another. -/
structure Hop where
  source : Occurrence
  target : Occurrence
  deriving DecidableEq, Repr

/-- The hops from `a` along tables, over occurrences with the number `id`. -/
def hops (id : Nat) : Occurrence → List Table → List Hop
  | _, [] => []
  | a, t :: ts => ⟨a, ⟨t, id⟩⟩ :: hops id ⟨t, id⟩ ts

/-- The end of a walk from `a` along tables. -/
def hopsEnd (id : Nat) : Occurrence → List Table → Occurrence
  | a, [] => a
  | _, t :: ts => hopsEnd id ⟨t, id⟩ ts

/-- The first of some hops to an occurrence. -/
def firstHop? (hs : List Hop) (b : Occurrence) : Option Hop := hs.find? (·.target = b)

theorem firstHop?_append (hs hs' : List Hop) (b : Occurrence) :
    firstHop? (hs ++ hs') b = (firstHop? hs b).or (firstHop? hs' b) :=
  List.find?_append

theorem target_of_firstHop? {hs : List Hop} {b : Occurrence} {h : Hop}
    (hfirst : firstHop? hs b = some h) : h.target = b := by
  have htarget := List.find?_some (p := fun h : Hop => decide (h.target = b)) hfirst
  exact of_decide_eq_true htarget

/-- A further hop to an occurrence that was reached before, or to another one, is no first hop. -/
theorem firstHop?_concat_of {hs : List Hop} {a b b' : Occurrence}
    (h : b' ≠ b ∨ (firstHop? hs b).isSome) : firstHop? (hs ++ [⟨a, b⟩]) b' = firstHop? hs b' := by
  rw [firstHop?_append]
  by_cases hb : b' = b
  · obtain ⟨h', hh'⟩ := Option.isSome_iff_exists.1 (h.resolve_left (not_not.2 hb))
    rw [hb, hh', Option.some_or]
  · have hnone : firstHop? [⟨a, b⟩] b' = none := by
      rw [firstHop?, List.find?_cons_of_neg, List.find?_nil]
      simpa using Ne.symm hb
    rw [hnone, Option.or_none]

theorem firstHop?_concat_self {hs : List Hop} {a b : Occurrence} (h : firstHop? hs b = none) :
    firstHop? (hs ++ [⟨a, b⟩]) b = some ⟨a, b⟩ := by
  rw [firstHop?_append, h, Option.none_or, firstHop?, List.find?_cons_of_pos]
  exact decide_eq_true rfl

theorem target_id_of_mem_hops {id : Nat} {ts : List Table} :
    ∀ {a : Occurrence} {h : Hop}, h ∈ hops id a ts → h.target.id = id := by
  induction ts with
  | nil =>
    intro a h hmem
    cases hmem
  | cons t ts ih =>
    intro a h hmem
    rcases List.mem_cons.1 hmem with rfl | hmem
    · rfl
    · exact ih hmem

/-- A hop starts where the walk does, or at an occurrence with the number of its end. -/
theorem source_of_mem_hops {id : Nat} {ts : List Table} :
    ∀ {a : Occurrence} {h : Hop}, h ∈ hops id a ts → h.source = a ∨ h.source.id = id := by
  induction ts with
  | nil =>
    intro a h hmem
    cases hmem
  | cons t ts ih =>
    intro a h hmem
    rcases List.mem_cons.1 hmem with rfl | hmem
    · exact .inl rfl
    · rcases ih hmem with hsource | hsource
      · exact .inr (by rw [hsource])
      · exact .inr hsource

theorem hopsEnd_eq {id : Nat} {ts : List Table} (h : ts ≠ []) (a : Occurrence) :
    hopsEnd id a ts = ⟨ts.getLast h, id⟩ := by
  induction ts generalizing a with
  | nil => exact absurd rfl h
  | cons t ts ih =>
    rw [hopsEnd]
    by_cases hts : ts = []
    · subst hts
      rfl
    · rw [ih hts, List.getLast_cons hts]

/-! ## Joins that lead somewhere -/

/-- Whether joins hold one of `b` to `a`, on the columns that link their tables. -/
def Linked (js : List Join) (a b : Occurrence) : Prop :=
  ∃ j ∈ js, j.onto = a ∧ j.occurrence = b ∧
    a.table.link? b.table = some (j.ontoColumn, j.column)

/-- Whether joins lead from `a` along tables to `z`. -/
def Along (js : List Join) : Occurrence → List Table → Occurrence → Prop
  | a, [], z => a = z
  | a, t :: ts, z => ∃ b : Occurrence, b.table = t ∧ Linked js a b ∧ Along js b ts z

namespace JoinPlan

variable {p p' : JoinPlan} {a b : Occurrence} {hs : List Hop}

/-- Whether the joins of a plan link tables on their columns, none is of the main table, and those
with numbers of criteria are the first of the hops `hs` to their occurrences. -/
structure Follows (p : JoinPlan) (hs : List Hop) : Prop where
  main : p.main.id = 0
  linked : ∀ j ∈ p.joins, j.onto.table.link? j.occurrence.table = some (j.ontoColumn, j.column)
  notMain : ∀ j ∈ p.joins, j.occurrence ≠ p.main
  first : ∀ b, firstDynamicId ≤ b.id →
    ∀ a, (∃ j ∈ p.joins, j.onto = a ∧ j.occurrence = b) ↔ firstHop? hs b = some ⟨a, b⟩

theorem follows_start (t : Table) : (start t).Follows [] where
  main := rfl
  linked _ hj := by cases hj
  notMain _ hj := by cases hj
  first b _ a := by
    constructor
    · rintro ⟨j, hj, -⟩
      cases hj
    · intro h
      cases h

/-- What joining changes. -/
theorem join_eq_ok (h : p.join a b = .ok p') : (b ∈ p.occurrences ∧ p' = p) ∨
    (b ∉ p.occurrences ∧ ∃ c, a.table.link? b.table = some c ∧
      p' = { p with joins := p.joins ++ [⟨b, c.2, a, c.1⟩] }) := by
  rw [join] at h
  split at h
  · rename_i hb
    cases h
    exact .inl ⟨hb, rfl⟩
  · rename_i hb
    obtain ⟨c, hc, rfl⟩ := map_eq_ok.1 h
    refine .inr ⟨hb, c, ?_, rfl⟩
    rw [Table.link] at hc
    split at hc
    · rename_i c' hc'
      cases hc
      exact hc'
    · cases hc

theorem join_main (h : p.join a b = .ok p') : p'.main = p.main := by
  rcases join_eq_ok h with ⟨-, rfl⟩ | ⟨-, c, -, rfl⟩ <;> rfl

theorem Follows.ne_main (h : p.Follows hs) (hb : firstDynamicId ≤ b.id) : b ≠ p.main := by
  intro hmain
  rw [hmain, h.main] at hb
  exact absurd hb (by decide)

theorem Follows.firstHop?_isSome (h : p.Follows hs) (hb : firstDynamicId ≤ b.id) :
    (firstHop? hs b).isSome ↔ b ∈ p.occurrences := by
  constructor
  · intro hsome
    obtain ⟨⟨a', b'⟩, hfirst⟩ := Option.isSome_iff_exists.1 hsome
    have htarget : b' = b := target_of_firstHop? hfirst
    rw [htarget] at hfirst
    obtain ⟨j, hj, -, hocc⟩ := (h.first b hb a').2 hfirst
    exact List.mem_cons_of_mem _ (List.mem_map.2 ⟨j, hj, hocc⟩)
  · intro hmem
    rcases List.mem_cons.1 hmem with hmain | hmem
    · exact absurd hmain (h.ne_main hb)
    · obtain ⟨j, hj, rfl⟩ := List.mem_map.1 hmem
      rw [(h.first j.occurrence hb j.onto).1 ⟨j, hj, rfl, rfl⟩]
      rfl

/-- A join for a criterion: its hop counts unless its end was reached before. -/
theorem follows_join (hb : firstDynamicId ≤ b.id) (h : p.join a b = .ok p') (hp : p.Follows hs) :
    p'.Follows (hs ++ [⟨a, b⟩]) := by
  -- Where the occurrence is there already nothing is joined, and the hop is not the first to it.
  rcases join_eq_ok h with ⟨hmem, rfl⟩ | ⟨hnot, c, hc, rfl⟩
  · refine ⟨hp.main, hp.linked, hp.notMain, fun b' hb' a' => ?_⟩
    rw [firstHop?_concat_of (.inr ((hp.firstHop?_isSome hb).2 hmem))]
    exact hp.first b' hb' a'
  have hnone : firstHop? hs b = none := by
    rw [← Option.not_isSome_iff_eq_none, hp.firstHop?_isSome hb]
    exact hnot
  refine ⟨hp.main, fun j hj => ?_, fun j hj => ?_, fun b' hb' a' => ?_⟩
  · rcases List.mem_append.1 hj with hj | hj
    · exact hp.linked j hj
    · rw [List.mem_singleton] at hj
      rw [hj]
      exact hc
  · rcases List.mem_append.1 hj with hj | hj
    · exact hp.notMain j hj
    · rw [List.mem_singleton] at hj
      rw [hj]
      exact hp.ne_main hb
  · by_cases hbb : b' = b
    · subst hbb
      rw [firstHop?_concat_self hnone]
      constructor
      · rintro ⟨j, hj, honto, hocc⟩
        rcases List.mem_append.1 hj with hj | hj
        · exact absurd (List.mem_cons_of_mem _ (List.mem_map.2 ⟨j, hj, hocc⟩)) hnot
        · rw [List.mem_singleton] at hj
          rw [← honto, hj]
      · intro heq
        cases heq
        exact ⟨_, List.mem_append_right _ (List.mem_singleton_self _), rfl, rfl⟩
    · rw [firstHop?_concat_of (.inl hbb), ← hp.first b' hb' a']
      constructor
      · rintro ⟨j, hj, honto, hocc⟩
        rcases List.mem_append.1 hj with hj | hj
        · exact ⟨j, hj, honto, hocc⟩
        · rw [List.mem_singleton] at hj
          rw [hj] at hocc
          exact absurd hocc.symm hbb
      · rintro ⟨j, hj, hends⟩
        exact ⟨j, List.mem_append_left _ hj, hends⟩

/-- A join for result fields leaves the hops of criteria alone. -/
theorem follows_join_shared (hb : b.id < firstDynamicId) (h : p.join a b = .ok p')
    (hp : p.Follows hs) : p'.Follows hs := by
  rcases join_eq_ok h with ⟨-, rfl⟩ | ⟨hnot, c, hc, rfl⟩
  · exact hp
  refine ⟨hp.main, fun j hj => ?_, fun j hj => ?_, fun b' hb' a' => ?_⟩
  · rcases List.mem_append.1 hj with hj | hj
    · exact hp.linked j hj
    · rw [List.mem_singleton] at hj
      rw [hj]
      exact hc
  · rcases List.mem_append.1 hj with hj | hj
    · exact hp.notMain j hj
    · rw [List.mem_singleton] at hj
      rw [hj]
      intro hmain
      exact hnot (List.mem_cons.2 (.inl hmain))
  -- The new join ends in an occurrence without a dynamic number, about which hops say nothing.
  · rw [← hp.first b' hb' a']
    constructor
    · rintro ⟨j, hj, honto, hocc⟩
      rcases List.mem_append.1 hj with hj | hj
      · exact ⟨j, hj, honto, hocc⟩
      · rw [List.mem_singleton] at hj
        rw [hj] at hocc
        rw [← hocc] at hb'
        exact absurd hb (Nat.not_lt.2 hb')
    · rintro ⟨j, hj, hends⟩
      exact ⟨j, List.mem_append_left _ hj, hends⟩

theorem Follows.congr (h : p.Follows hs) (hmain : p'.main = p.main) (hjoins : p'.joins = p.joins) :
    p'.Follows hs where
  main := by
    rw [hmain]
    exact h.main
  linked := by
    rw [hjoins]
    exact h.linked
  notMain := by
    rw [hjoins, hmain]
    exact h.notMain
  first := by
    rw [hjoins]
    exact h.first

/-! ## Planning for criteria -/

/-- The joins along tables for one criterion. -/
theorem follows_ownFrom {id : Nat} (hid : firstDynamicId ≤ id) {ts : List Table} {z : Occurrence} :
    ∀ {p : JoinPlan} {a : Occurrence} {hs : List Hop}, p.Follows hs →
      p.ownFrom id a ts = .ok (z, p') →
      z = hopsEnd id a ts ∧ p'.main = p.main ∧ p'.Follows (hs ++ hops id a ts) := by
  induction ts with
  | nil =>
    intro p a hs hp h
    rw [ownFrom] at h
    cases h
    rw [hops, List.append_nil]
    exact ⟨rfl, rfl, hp⟩
  | cons t ts ih =>
    intro p a hs hp h
    rw [ownFrom] at h
    obtain ⟨p₁, hjoin, h⟩ := bind_eq_ok.1 h
    obtain ⟨hz, hmain, hfollows⟩ := ih (follows_join hid hjoin hp) h
    rw [List.append_assoc] at hfollows
    exact ⟨hz, hmain.trans (join_main hjoin), hfollows⟩

/-! ## Planning for result fields -/

theorem newShared_eq_ok {t : Table} {o : Occurrence} (h : p.newShared t = .ok (o, p')) :
    o.table = t ∧ o.id < firstDynamicId ∧ ∃ n, p' = { p with numbered := n } := by
  rw [newShared] at h
  split at h
  · cases h
    exact ⟨rfl, (by decide : 0 < firstDynamicId), p.numbered, rfl⟩
  split at h
  · rename_i hid
    cases h
    exact ⟨rfl, hid, p.numbered + 1, rfl⟩
  · cases h

theorem follows_sharedFrom {ts : List Table} {z : Occurrence} :
    ∀ {p : JoinPlan} {a : Occurrence} {done : List Table} {hs : List Hop}, p.Follows hs →
      p.sharedFrom a done ts = .ok (z, p') → p'.main = p.main ∧ p'.Follows hs := by
  induction ts with
  | nil =>
    intro p a done hs hp h
    rw [sharedFrom] at h
    cases h
    exact ⟨rfl, hp⟩
  | cons t ts ih =>
    intro p a done hs hp h
    rw [sharedFrom] at h
    dsimp only at h
    split at h
    · exact ih hp h
    · obtain ⟨⟨o, p₁⟩, hnew, h⟩ := bind_eq_ok.1 h
      obtain ⟨p₂, hjoin, h⟩ := bind_eq_ok.1 h
      obtain ⟨-, hid, n, rfl⟩ := newShared_eq_ok hnew
      have hp₁ : Follows { p with numbered := n } hs := hp.congr rfl rfl
      have hmain : p₂.main = p.main := (join_main hjoin).trans rfl
      have hp₂ := follows_join_shared hid hjoin hp₁
      have hp₃ : Follows { p₂ with chains := p₂.chains ++ [(done ++ [t], o)] } hs :=
        hp₂.congr rfl rfl
      obtain ⟨hmain', hp'⟩ := ih hp₃ h
      exact ⟨hmain'.trans hmain, hp'⟩

end JoinPlan

/-! ## Joins of a query -/

/-- Whether a criterion denies a property: no property of the owner is as it says. -/
def DeniesProperty (c : Criterion) : Prop := c.kind.namesKey ∧ c.comparator.isNegative

instance (c : Criterion) : Decidable (DeniesProperty c) :=
  inferInstanceAs (Decidable (_ ∧ _))

/-- The tables from the main one to the one that a criterion compares in. -/
def chainOf (c : Criterion) : List Table :=
  match comparedTable? c with
  | some t => tableChain c.path t
  | none => []

/-- The hops that a criterion asks for. A denied property is looked up in a sub-select. -/
def hopsOf (main : Occurrence) (c : Criterion) : List Hop :=
  hops c.leftTable.id main
    ((if DeniesProperty c then (chainOf c).dropLast else chainOf c).drop 1)

/-- Whether a criterion over several tables reads an occurrence with a number of its own. -/
def Numbered (c : Criterion) : Prop :=
  (chainOf c).length ≤ 1 ∨ firstDynamicId ≤ c.leftTable.id

theorem chainOf_eq {c : Criterion} {t : Table} (h : comparedTable? c = some t) :
    chainOf c = tableChain c.path t := by
  rw [chainOf, h]

theorem tableChain_ne_nil (path : List Domain) (t : Table) : tableChain path t ≠ [] := by
  unfold tableChain
  extract_lets chain
  split
  · rename_i h
    intro hnil
    rw [hnil] at h
    cases h
  · exact List.append_ne_nil_of_right_ne_nil _ (List.cons_ne_nil _ _)

theorem hopsOf_of_length_le_one {c : Criterion} (h : (chainOf c).length ≤ 1) (main : Occurrence) :
    hopsOf main c = [] := by
  have hdrop : ∀ ts : List Table, ts.length ≤ 1 → ts.drop 1 = [] :=
    fun ts hts => List.drop_eq_nil_iff.2 hts
  rw [hopsOf]
  split
  · rw [hdrop _ (by rw [List.length_dropLast]; omega), hops]
  · rw [hdrop _ h, hops]

namespace JoinPlan

variable {p p' : JoinPlan} {hs : List Hop} {c : Criterion} {r : Reading}

theorem follows_alongChain (hid : firstDynamicId ≤ c.leftTable.id) (hp : p.Follows hs)
    (h : p.alongChain c (chainOf c) = .ok (r, p')) :
    p'.main = p.main ∧ p'.Follows (hs ++ hopsOf p.main c) ∧
      (¬ DeniesProperty c → r = ⟨hopsEnd c.leftTable.id p.main ((chainOf c).drop 1), none⟩) := by
  have hne : ¬ c.leftTable.id = 0 := by
    intro hzero
    rw [hzero] at hid
    exact absurd hid (by decide)
  rw [alongChain, if_neg hne] at h
  rw [hopsOf]
  -- A denial stops in front of the last table, which its sub-select reads.
  by_cases hdenies : DeniesProperty c
  · have hboth : c.kind.namesKey ∧ c.comparator.isNegative := hdenies
    rw [if_pos hboth] at h
    rw [if_pos hdenies]
    obtain ⟨⟨z, p₁⟩, hown, h⟩ := map_eq_ok.1 h
    cases h
    obtain ⟨-, hmain, hfollows⟩ := follows_ownFrom hid hp hown
    exact ⟨hmain, hfollows, fun hnot => absurd hdenies hnot⟩
  · have hnot : ¬ (c.kind.namesKey ∧ c.comparator.isNegative) := hdenies
    rw [if_neg hnot] at h
    rw [if_neg hdenies]
    obtain ⟨⟨z, p₁⟩, hown, h⟩ := map_eq_ok.1 h
    cases h
    obtain ⟨hz, hmain, hfollows⟩ := follows_ownFrom hid hp hown
    exact ⟨hmain, hfollows, fun _ => by rw [hz]⟩

/-- Planning for a criterion adds its hops. It reads the end of its chain, if that has several
tables and the criterion denies no property. -/
theorem follows_forCriterion (hc : Numbered c) (hp : p.Follows hs)
    (h : p.forCriterion c = .ok (r, p')) :
    p'.main = p.main ∧ p'.Follows (hs ++ hopsOf p.main c) ∧
      ∀ t ts, chainOf c = t :: ts → ts ≠ [] → ¬ DeniesProperty c →
        r = ⟨hopsEnd c.leftTable.id p.main ts, none⟩ := by
  -- A criterion on the main table, or on none, plans nothing and has no hops.
  have hshort : (chainOf c).length ≤ 1 → p' = p → p'.main = p.main ∧
      p'.Follows (hs ++ hopsOf p.main c) ∧ ∀ t ts, chainOf c = t :: ts → ts ≠ [] →
        ¬ DeniesProperty c → r = ⟨hopsEnd c.leftTable.id p.main ts, none⟩ := by
    rintro hlen rfl
    rw [hopsOf_of_length_le_one hlen, List.append_nil]
    refine ⟨rfl, hp, fun t ts hts hne => ?_⟩
    rw [hts, List.length_cons] at hlen
    exact absurd (List.length_eq_zero_iff.1 (by omega)) hne
  cases ht : comparedTable? c with
  | none =>
    rw [forCriterion, ht] at h
    cases h
    refine hshort ?_ rfl
    rw [chainOf, ht]
    exact Nat.zero_le _
  | some t =>
    rw [forCriterion, ht] at h
    dsimp only at h
    rw [← chainOf_eq ht] at h
    split at h
    · rename_i hone
      cases h
      exact hshort (Nat.le_of_eq hone) rfl
    · rename_i hone
      rcases hc with hlen | hid
      · have hpos := List.length_pos_iff.2 (tableChain_ne_nil c.path t)
        rw [← chainOf_eq ht] at hpos
        exact absurd (Nat.le_antisymm hlen hpos) hone
      · obtain ⟨hmain, hfollows, hread⟩ := follows_alongChain hid hp h
        refine ⟨hmain, hfollows, fun t' ts hts _ hdenies => ?_⟩
        rw [hread hdenies, hts]
        rfl

end JoinPlan

/-! ## Planning a statement -/

namespace Selection

variable {p p' : JoinPlan} {hs : List Hop}

/-- Planning for result fields adds no hops. -/
theorem follows_addItems {fs : List ResultField} :
    ∀ {p : JoinPlan} {items items' : List SelectItem}, p.Follows hs →
      addItems p items fs = .ok (items', p') → p'.main = p.main ∧ p'.Follows hs := by
  induction fs with
  | nil =>
    intro p items items' hp h
    rw [addItems] at h
    cases h
    exact ⟨rfl, hp⟩
  | cons f fs ih =>
    intro p items items' hp h
    rw [addItems] at h
    obtain ⟨⟨o, p₁⟩, hfield, h⟩ := bind_eq_ok.1 h
    obtain ⟨hmain, hp₁⟩ := JoinPlan.follows_sharedFrom hp hfield
    obtain ⟨hmain', hp'⟩ := ih hp₁ h
    exact ⟨hmain'.trans hmain, hp'⟩

theorem forField_main (p : JoinPlan) {f : Field} {d : Domain} (h : f.column.table = d.table) :
    p.forField (.main f d) = .ok (p.main, p) := by
  have hchain : tableChain [d] f.column.table = [d.table] := by
    simp [tableChain, h]
  show p.shared (tableChain [d] f.column.table) = _
  rw [hchain]
  rfl

/-- Fields of the main table are returned without joins. -/
theorem addItems_main (p : JoinPlan) {d : Domain} (items : List SelectItem) (fs : List Field)
    (h : ∀ f ∈ fs, f.column.table = d.table) :
    ∃ items', addItems p items (fs.map (ResultField.main · d)) = .ok (items', p) ∧
      items'.length = items.length + fs.length := by
  induction fs generalizing items with
  | nil => exact ⟨items, rfl, rfl⟩
  | cons f fs ih =>
    rw [List.map_cons, addItems, forField_main p (h f List.mem_cons_self), ok_bind]
    obtain ⟨items', hitems, hlength⟩ := ih _ fun f' hf' => h f' (List.mem_cons_of_mem _ hf')
    refine ⟨items', hitems, ?_⟩
    rw [hlength, List.length_append, List.length_singleton, List.length_cons, Nat.add_right_comm,
      Nat.add_assoc]

/-- The hops of the criteria among some elements. -/
def hopsOfAll (main : Occurrence) (es : List Element) : List Hop :=
  (es.filterMap Element.criterion?).flatMap (hopsOf main)

theorem hopsOfAll_cons (main : Occurrence) (e : Element) (es : List Element) :
    hopsOfAll main (e :: es) = hopsOfAll main [e] ++ hopsOfAll main es := by
  rw [hopsOfAll, hopsOfAll, hopsOfAll, ← List.flatMap_append, ← List.filterMap_append]
  rfl

/-- Whether a piece is the condition of the criterion `e`, at the end of its chain. Criteria with a
single table and those that deny a property may become anything. -/
def Renders (main : Occurrence) (e : Element) (piece : Piece) : Prop :=
  ∀ c t ts, e = .criterion c → chainOf c = t :: ts → ts ≠ [] → ¬ DeniesProperty c →
    ∃ k, piece = .condition k ∧ c.render (hopsEnd c.leftTable.id main ts) none = .ok k

theorem follows_pieceOf {e : Element} {piece : Piece} (hp : p.Follows hs)
    (he : ∀ c, e = .criterion c → Numbered c) (h : pieceOf p e = .ok (piece, p')) :
    p'.main = p.main ∧ p'.Follows (hs ++ hopsOfAll p.main [e]) ∧ Renders p.main e piece := by
  cases e with
  | criterion c =>
    rw [pieceOf] at h
    obtain ⟨⟨r, p₁⟩, hread, h⟩ := bind_eq_ok.1 h
    obtain ⟨hmain, hfollows, hend⟩ := JoinPlan.follows_forCriterion (he c rfl) hp hread
    dsimp only at h
    split at h
    · rename_i k hk
      cases h
      refine ⟨hmain, ?_, fun c' t ts hc' hchain hne hdenies => ?_⟩
      · show p'.Follows (hs ++ [c].flatMap (hopsOf p.main))
        rw [List.flatMap_singleton]
        exact hfollows
      · cases hc'
        rw [hend t ts hchain hne hdenies] at hk
        exact ⟨k, rfl, hk⟩
    · cases h
  | and | or | openParen | closeParen =>
    cases h
    refine ⟨rfl, ?_, fun c' t ts hc' => by cases hc'⟩
    show p.Follows (hs ++ [])
    rw [List.append_nil]
    exact hp

/-- Planning for elements adds the hops of their criteria, and turns each criterion over several
tables that denies no property into a condition on the end of its chain. -/
theorem follows_piecesOf {es : List Element} :
    ∀ {p : JoinPlan} {hs : List Hop} {pieces : List Piece}, p.Follows hs →
      (∀ c, .criterion c ∈ es → Numbered c) → piecesOf p es = .ok (pieces, p') →
      p'.main = p.main ∧ p'.Follows (hs ++ hopsOfAll p.main es) ∧
      List.Forall₂ (Renders p.main) es pieces := by
  -- The hops of the elements so far are those that the plan follows.
  induction es with
  | nil =>
    intro p hs pieces hp _ h
    rw [piecesOf] at h
    cases h
    refine ⟨rfl, ?_, .nil⟩
    rw [hopsOfAll, List.filterMap_nil, List.flatMap_nil, List.append_nil]
    exact hp
  | cons e es ih =>
    intro p hs pieces hp hes h
    rw [piecesOf] at h
    obtain ⟨⟨piece, p₁⟩, hpiece, h⟩ := bind_eq_ok.1 h
    obtain ⟨⟨rest, p₂⟩, hrest, h⟩ := bind_eq_ok.1 h
    cases h
    obtain ⟨hmain, hp₁, hrenders⟩ := follows_pieceOf hp
      (fun c hc => hes c (hc ▸ List.mem_cons_self)) hpiece
    obtain ⟨hmain', hp', hrenders'⟩ := ih hp₁
      (fun c hc => hes c (List.mem_cons_of_mem _ hc)) hrest
    rw [hmain] at hmain' hp' hrenders'
    rw [hopsOfAll_cons, ← List.append_assoc]
    exact ⟨hmain', hp', .cons hrenders hrenders'⟩

/-- Each element has its piece. -/
theorem exists_piece {main : Occurrence} {es : List Element} {pieces : List Piece}
    (h : List.Forall₂ (Renders main) es pieces) {i : Nat} {e : Element} (hi : es[i]? = some e) :
    ∃ piece, pieces[i]? = some piece ∧ Renders main e piece := by
  induction h generalizing i with
  | nil => cases hi
  | cons hfirst _ ih =>
    cases i with
    | zero =>
      cases hi
      exact ⟨_, rfl, hfirst⟩
    | succ i => exact ih hi

/-- Whether the order of a selection is the one that its query asks for. -/
def Ordering (o : Option Sorting) (items : List SelectItem) (order : List (String × Direction)) :
    Prop :=
  match o with
  | some o => orderOf items o = .ok order
  | none => order = []

/-- What a selection is put together from. -/
theorem parts_of_ofQuery {q : Query} {s : Selection} (h : ofQuery q = .ok s) :
    ∃ p, addItems (.start q.domain.table) [] q.resultFields = .ok (s.items, p) ∧ s.items ≠ [] ∧
      piecesOf p q.elements = .ok (s.condition, s.joins) ∧ Ordering q.sort s.items s.order := by
  unfold ofQuery at h
  obtain ⟨⟨items, p⟩, hitems, h⟩ := bind_eq_ok.1 h
  dsimp only at h
  split at h
  case isTrue => cases h
  case isFalse hne =>
    obtain ⟨-, -, h⟩ := bind_eq_ok.1 h
    obtain ⟨⟨pieces, p'⟩, hpieces, h⟩ := bind_eq_ok.1 h
    dsimp only at h
    split at h
    · rename_i o hsort
      obtain ⟨order, horder, h⟩ := bind_eq_ok.1 h
      cases h
      rw [hsort]
      exact ⟨p, hitems, hne, hpieces, horder⟩
    · rename_i hsort
      cases h
      rw [hsort]
      exact ⟨p, hitems, hne, hpieces, rfl⟩

theorem ofQuery_eq_ok {q : Query} {s : Selection} (h : ofQuery q = .ok s) :
    ∃ p, addItems (.start q.domain.table) [] q.resultFields = .ok (s.items, p) ∧
      piecesOf p q.elements = .ok (s.condition, s.joins) := by
  obtain ⟨p, hitems, -, hpieces, -⟩ := parts_of_ofQuery h
  exact ⟨p, hitems, hpieces⟩

/-- A selection has items. -/
theorem items_ne_nil {q : Query} {s : Selection} (h : ofQuery q = .ok s) : s.items ≠ [] := by
  obtain ⟨-, -, hne, -⟩ := parts_of_ofQuery h
  exact hne

/-- The parts of a selection without order. -/
theorem ofQuery_of_unsorted {q : Query} {items : List SelectItem} {p p' : JoinPlan}
    {pieces : List Piece} (hsort : q.sort = none)
    (hitems : addItems (.start q.domain.table) [] q.resultFields = .ok (items, p))
    (hne : items ≠ []) (hpieces : piecesOf p q.elements = .ok (pieces, p')) :
    ofQuery q = .ok ⟨items, p', pieces, []⟩ := by
  unfold ofQuery
  rw [hitems, ok_bind]
  dsimp only
  rw [if_neg hne, hsort]
  show (piecesOf p q.elements >>= _) = _
  rw [hpieces]
  rfl

/-- The joins of a statement follow the criteria of its query. -/
theorem follows_ofQuery {q : Query} {s : Selection} (hq : ∀ c ∈ q.criteria, Numbered c)
    (h : ofQuery q = .ok s) : s.joins.main = .plain q.domain.table ∧
      s.joins.Follows (hopsOfAll (.plain q.domain.table) q.elements) ∧
      List.Forall₂ (Renders (.plain q.domain.table)) q.elements s.condition := by
  obtain ⟨p, hitems, hpieces⟩ := ofQuery_eq_ok h
  obtain ⟨hmain, hp⟩ := follows_addItems (JoinPlan.follows_start q.domain.table) hitems
  obtain ⟨hmain', hfollows, hrenders⟩ := follows_piecesOf hp
    (fun c hc => hq c (List.mem_filterMap.2 ⟨_, hc, rfl⟩)) hpieces
  rw [hmain] at hmain' hfollows hrenders
  exact ⟨hmain', hfollows, hrenders⟩

end Selection

/-! ## Joins along a walk -/

theorem source_of_mem_hopsOfAll {main : Occurrence} {es : List Element} {h : Hop}
    (hmem : h ∈ Selection.hopsOfAll main es) : h.source = main ∨ h.source.id = h.target.id := by
  obtain ⟨c, -, hc⟩ := List.mem_flatMap.1 hmem
  rw [hopsOf] at hc
  rw [target_id_of_mem_hops hc]
  exact source_of_mem_hops hc

section Along

variable {p : JoinPlan} {hs : List Hop} {id : Nat}

/-- Joins that lead to an occurrence of a criterion pass occurrences with its number only. -/
theorem id_of_along (hp : p.Follows hs) (hid : firstDynamicId ≤ id)
    (hsource : ∀ h ∈ hs, h.source = p.main ∨ h.source.id = h.target.id) {z : Occurrence}
    (hz : z.id = id) {ts : List Table} : ∀ {b : Occurrence}, b ≠ p.main →
      Along p.joins b ts z → b.id = id := by
  -- By induction from the end of the walk: the occurrence before one with this number has it as
  -- well, or is the main one, at which no walk arrives again.
  induction ts with
  | nil =>
    rintro b _ rfl
    exact hz
  | cons t ts ih =>
    rintro b hb ⟨b', -, ⟨j, hj, honto, hocc, -⟩, hrest⟩
    have hb' : b'.id = id := ih (hocc ▸ hp.notMain j hj) hrest
    have hfirst := (hp.first b' (hb' ▸ hid) b).1 ⟨j, hj, honto, hocc⟩
    rcases hsource _ (List.mem_of_find?_eq_some hfirst) with hmain | hsame
    · exact absurd hmain hb
    · exact hsame.trans hb'

/-- The joins of a plan lead along a walk exactly if each hop of it is the first to its end. -/
theorem along_iff (hp : p.Follows hs) (hid : firstDynamicId ≤ id)
    (hsource : ∀ h ∈ hs, h.source = p.main ∨ h.source.id = h.target.id) (ts : List Table) :
    Along p.joins p.main ts (hopsEnd id p.main ts) ↔
      ∀ h ∈ hops id p.main ts, firstHop? hs h.target = some h := by
  constructor
  · have hforward : ∀ (ts : List Table) (a z : Occurrence), z.id = id → Along p.joins a ts z →
        ∀ h ∈ hops id a ts, firstHop? hs h.target = some h := by
      intro ts
      induction ts with
      | nil =>
        intro a z _ _ h hmem
        cases hmem
      | cons t ts ih =>
        rintro a z hz ⟨b, rfl, ⟨j, hj, honto, hocc, -⟩, hrest⟩ h hmem
        -- The walk may pass any occurrence of the table, but only those with its own number lead to
        -- its end.
        have hb : b.id = id := id_of_along hp hid hsource hz (hocc ▸ hp.notMain j hj) hrest
        have hbeta : (⟨b.table, id⟩ : Occurrence) = b := by
          rw [← hb]
        rw [hops, hbeta] at hmem
        rcases List.mem_cons.1 hmem with rfl | hmem
        · exact (hp.first b (hb ▸ hid) a).1 ⟨j, hj, honto, hocc⟩
        · exact ih b z hz hrest h hmem
    intro halong
    by_cases hts : ts = []
    · intro h hmem
      rw [hts] at hmem
      cases hmem
    · exact hforward ts p.main _ (by rw [hopsEnd_eq hts]) halong
  · have hback : ∀ (ts : List Table) (a : Occurrence),
        (∀ h ∈ hops id a ts, firstHop? hs h.target = some h) →
        Along p.joins a ts (hopsEnd id a ts) := by
      intro ts
      induction ts with
      | nil => exact fun a _ => rfl
      | cons t ts ih =>
        intro a hfirst
        obtain ⟨j, hj, rfl, hocc⟩ :=
          (hp.first ⟨t, id⟩ hid a).2 (hfirst _ List.mem_cons_self)
        refine ⟨⟨t, id⟩, rfl, ⟨j, hj, rfl, hocc, ?_⟩, ?_⟩
        · rw [← hocc]
          exact hp.linked j hj
        · exact ih _ fun h hmem => hfirst h (List.mem_cons_of_mem _ hmem)
    exact hback ts p.main

end Along

end ArtifactQuery.Sql
