import ArtifactQuery.Proofs.Compiling
import ArtifactQuery.Proofs.StatementTexts

/-!
# Result columns

The columns of a statement are the result fields of its query, one for one. Each has a name of its
own, and is read from the occurrence at the end of its field's chain of tables; fields share an
occurrence exactly if they share the chain.

* `freshName_not_mem`: one of the names that are tried for a column is not in use.
* `JoinPlan.Shares`: the joins for result fields, with one occurrence for each chain.
* `shares_sharedFrom`, `shares_addItems`: planning for a field and for all of them.
* `JoinPlan.Continues`: planning for criteria keeps the joins before it.
* `mirrored_toStatement`: columns, items and order of every statement that is made.
-/

namespace ArtifactQuery

namespace Sql

/-! ## Unused names -/

/-- The names that are tried for a column. -/
def candidates (used : List String) (label : String) : List String :=
  label :: (List.range used.length).map fun n => label ++ toString (n + 2)

theorem numbered_injective (label : String) :
    Function.Injective fun n : Nat => label ++ toString (n + 2) := by
  intro m n h
  have hdigits : Nat.toDigits 10 (m + 2) = Nat.toDigits 10 (n + 2) :=
    String.ofList_injective ((String.append_right_inj label).1 h)
  obtain ⟨c, cs, hcons, -, hvalue⟩ := Token.exists_toDigits (m + 2)
  obtain ⟨c', cs', hcons', -, hvalue'⟩ := Token.exists_toDigits (n + 2)
  rw [hcons, hcons'] at hdigits
  rw [hdigits] at hvalue
  exact Nat.add_right_cancel (hvalue.symm.trans hvalue')

theorem nodup_candidates (used : List String) (label : String) :
    (candidates used label).Nodup := by
  refine List.nodup_cons.2 ⟨fun hmem => ?_, List.nodup_range.map (numbered_injective label)⟩
  obtain ⟨n, -, hn⟩ := List.mem_map.1 hmem
  have hempty : String.ofList (Nat.toDigits 10 (n + 2)) = "" := String.append_eq_left_iff.1 hn
  exact Nat.toDigits_ne_nil (String.ofList_eq_empty_iff.1 hempty)

/-- One more name is tried than there are in use. -/
theorem freshName_not_mem (used : List String) (label : String) : freshName used label ∉ used := by
  have hfresh : freshName used label =
      ((candidates used label).find? (· ∉ used)).getD label := rfl
  rw [hfresh]
  cases hfind : (candidates used label).find? (· ∉ used) with
  | some name =>
    have hnot := List.find?_some (p := fun name : String => decide (name ∉ used)) hfind
    exact of_decide_eq_true hnot
  | none =>
    have hall : candidates used label ⊆ used := by
      intro name hname
      simpa using List.find?_eq_none.1 hfind name hname
    have hlength := (nodup_candidates used label).length_le_of_subset hall
    rw [candidates, List.length_cons, List.length_map, List.length_range] at hlength
    exact absurd hlength (Nat.not_succ_le_self _)

namespace Selection

/-- The columns of items have names of their own. -/
theorem nodup_addItems {fs : List ResultField} :
    ∀ {p p' : JoinPlan} {items items' : List SelectItem},
      (items.map (·.column.name)).Nodup → addItems p items fs = .ok (items', p') →
        (items'.map (·.column.name)).Nodup := by
  induction fs with
  | nil =>
    intro p p' items items' hitems h
    cases h
    exact hitems
  | cons f fs ih =>
    intro p p' items items' hitems h
    rw [addItems] at h
    obtain ⟨⟨o, p₁⟩, -, h⟩ := bind_eq_ok.1 h
    refine ih ?_ h
    rw [List.map_append, List.map_cons, List.map_nil, ← List.concat_eq_append]
    exact hitems.concat (freshName_not_mem _ _)

end Selection

/-! ## Joins of more plans -/

section Joined

variable {js js' : List Join} {a b z : Occurrence} {ts : List Table}

theorem Linked.mono (h : Linked js a b) (hjs : js ⊆ js') : Linked js' a b := by
  obtain ⟨j, hj, hends⟩ := h
  exact ⟨j, hjs hj, hends⟩

theorem Along.mono (h : Along js a ts z) (hjs : js ⊆ js') : Along js' a ts z := by
  induction ts generalizing a with
  | nil => exact h
  | cons t ts ih =>
    obtain ⟨b, hb, hlinked, hrest⟩ := h
    exact ⟨b, hb, hlinked.mono hjs, ih hrest⟩

/-- A walk goes on over one more join. -/
theorem Along.concat (h : Along js a ts b) (hz : Linked js b z) :
    Along js a (ts ++ [z.table]) z := by
  induction ts generalizing a with
  | nil =>
    cases h
    exact ⟨z, rfl, hz, rfl⟩
  | cons t ts ih =>
    obtain ⟨b', hb', hlinked, hrest⟩ := h
    exact ⟨b', hb', hlinked, ih hrest⟩

end Joined

namespace JoinPlan

variable {p p' p'' : JoinPlan} {a o z : Occurrence} {chain done : List Table} {t : Table}

/-! ## Shared joins -/

/-- The chains that lead to the occurrences of a plan, first that of the main table. -/
def reached (p : JoinPlan) : List (List Table × Occurrence) := ([p.main.table], p.main) :: p.chains

/-- Whether a plan has nothing but one occurrence for each of its chains, joined along the chain. -/
structure Shares (p : JoinPlan) : Prop where
  occurrences : p.reached.map Prod.snd = p.occurrences
  chains : (p.reached.map Prod.fst).Nodup
  distinct : p.occurrences.Nodup
  numbers : ∀ o ∈ p.occurrences, o.id ≤ p.numbered
  along : ∀ e ∈ p.reached, ∃ ts, e.1 = p.main.table :: ts ∧ Along p.joins p.main ts e.2

theorem shares_start (t : Table) : (start t).Shares where
  occurrences := rfl
  chains := List.nodup_singleton _
  distinct := List.nodup_singleton _
  numbers o ho := by
    rw [List.mem_singleton.1 ho]
    exact Nat.le_refl 0
  along e he := by
    rw [List.mem_singleton.1 he]
    exact ⟨[], rfl, rfl⟩

/-- Chains lead to the same occurrence only if they are the same. -/
theorem Shares.eq_iff (hp : p.Shares) {c c' : List Table} {o o' : Occurrence}
    (h : (c, o) ∈ p.reached) (h' : (c', o') ∈ p.reached) : o = o' ↔ c = c' := by
  have hdistinct : (p.reached.map Prod.snd).Nodup := hp.occurrences ▸ hp.distinct
  constructor
  · intro heq
    exact congrArg Prod.fst (List.inj_on_of_nodup_map hdistinct h h' heq)
  · intro heq
    exact congrArg Prod.snd (List.inj_on_of_nodup_map hp.chains h h' heq)

/-- A new shared occurrence is none of the plan. -/
theorem newShared_fresh (hp : p.Shares) (h : p.newShared t = .ok (o, p')) :
    o.table = t ∧ o ∉ p.occurrences ∧
      ∃ n, p' = { p with numbered := n } ∧ p.numbered ≤ n ∧ o.id ≤ n := by
  -- The occurrence has no number where its table is not there yet, and otherwise a number above all
  -- others.
  rw [newShared] at h
  split at h
  case isTrue hplain =>
    cases h
    refine ⟨rfl, fun hmem => hplain ?_, p.numbered, rfl, Nat.le_refl _, Nat.zero_le _⟩
    rw [← hp.occurrences] at hmem
    obtain ⟨e, he, heq⟩ := List.mem_map.1 hmem
    have htable : e.2.table = t := congrArg Occurrence.table heq
    rcases List.mem_cons.1 he with rfl | he
    · exact decide_eq_true (.inl htable.symm)
    · exact decide_eq_true (.inr (List.any_eq_true.2 ⟨e, he, decide_eq_true htable⟩))
  case isFalse =>
    split at h
    case isFalse => cases h
    case isTrue =>
      cases h
      refine ⟨rfl, fun hmem => ?_, p.numbered + 1, rfl, Nat.le_succ _, Nat.le_refl _⟩
      exact absurd (hp.numbers _ hmem) (Nat.not_succ_le_self _)

/-- A new occurrence is joined to the end of a chain, and recorded for the longer chain. -/
theorem Shares.extended {j : Join} (hp : p.Shares) (hdone : (done, a) ∈ p.reached)
    (hfresh : o ∉ p.occurrences) (hchain : p.chains.lookup (done ++ [o.table]) = none)
    (hlinked : Linked [j] a o) (hj : j.occurrence = o) (hmain : p'.main = p.main)
    (hjoins : p'.joins = p.joins ++ [j])
    (hchains : p'.chains = p.chains ++ [(done ++ [o.table], o)])
    (hnumbered : p.numbered ≤ p'.numbered) (hid : o.id ≤ p'.numbered) : p'.Shares := by
  have hreached : p'.reached = p.reached ++ [(done ++ [o.table], o)] := by
    rw [reached, hmain, hchains]
    rfl
  have hoccurrences : p'.occurrences = p.occurrences ++ [o] := by
    rw [JoinPlan.occurrences, hmain, hjoins, ← hj]
    exact occurrences_concat p j
  have hkeeps : p.joins ⊆ p'.joins := hjoins ▸ List.subset_append_left _ _
  obtain ⟨ts, hts, halong⟩ := hp.along _ hdone
  have hts : done = p.main.table :: ts := hts
  -- The longer chain is not that of the main table, which has one table only, and none that was
  -- recorded.
  have hnew : done ++ [o.table] ∉ p.reached.map Prod.fst := by
    rw [reached, List.map_cons, List.mem_cons, not_or, hts]
    refine ⟨by simp, fun hmem => ?_⟩
    obtain ⟨e, he, heq⟩ := List.mem_map.1 hmem
    have hne := List.lookup_eq_none_iff.1 hchain e he
    rw [heq, hts] at hne
    simp at hne
  constructor
  · rw [hreached, hoccurrences, List.map_append, hp.occurrences]
    rfl
  · rw [hreached, List.map_append]
    exact List.concat_eq_append ▸ hp.chains.concat hnew
  · rw [hoccurrences, ← List.concat_eq_append]
    exact hp.distinct.concat hfresh
  · intro o' ho'
    rw [hoccurrences] at ho'
    rcases List.mem_append.1 ho' with ho' | ho'
    · exact Nat.le_trans (hp.numbers o' ho') hnumbered
    · rw [List.mem_singleton.1 ho']
      exact hid
  · intro e he
    rw [hreached] at he
    rw [hmain]
    rcases List.mem_append.1 he with he | he
    · obtain ⟨ts', hts', halong'⟩ := hp.along e he
      exact ⟨ts', hts', halong'.mono hkeeps⟩
    · rw [List.mem_singleton.1 he]
      have hlast : Linked p'.joins a o :=
        hlinked.mono (hjoins ▸ List.subset_append_right _ _)
      exact ⟨ts ++ [o.table], congrArg (· ++ [o.table]) hts, (halong.mono hkeeps).concat hlast⟩

/-- Planning along a chain: its end is reached under this chain, and what was reached stays. -/
theorem shares_sharedFrom {ts : List Table} :
    ∀ {p : JoinPlan} {a : Occurrence} {done : List Table}, p.Shares → (done, a) ∈ p.reached →
      p.sharedFrom a done ts = .ok (z, p') →
      p'.Shares ∧ p'.main = p.main ∧ p.reached ⊆ p'.reached ∧ (done ++ ts, z) ∈ p'.reached := by
  -- The invariant is that the chain walked so far is recorded for the occurrence where the walk
  -- stands. The next table is reached as it was before, or joined and recorded.
  induction ts with
  | nil =>
    intro p a done hp hdone h
    cases h
    rw [List.append_nil]
    exact ⟨hp, rfl, List.Subset.refl _, hdone⟩
  | cons t ts ih =>
    intro p a done hp hdone h
    rw [List.append_cons]
    rw [sharedFrom] at h
    dsimp only at h
    split at h
    · rename_i o ho
      obtain ⟨front, back, hchains, -⟩ := List.lookup_eq_some_iff.1 ho
      have hmem : (done ++ [t], o) ∈ p.chains :=
        hchains ▸ List.mem_append_right _ List.mem_cons_self
      exact ih hp (List.mem_cons_of_mem _ hmem) h
    · rename_i hnone
      obtain ⟨⟨o, p₁⟩, hnew, h⟩ := bind_eq_ok.1 h
      obtain ⟨p₂, hjoin, h⟩ := bind_eq_ok.1 h
      obtain ⟨rfl, hfresh, n, rfl, hn, hid⟩ := newShared_fresh hp hnew
      rcases join_eq_ok hjoin with ⟨hmem, -⟩ | ⟨-, c, hc, rfl⟩
      · exact absurd hmem hfresh
      have hlinked : Linked [⟨o, c.2, a, c.1⟩] a o :=
        ⟨_, List.mem_singleton_self _, rfl, rfl, hc⟩
      have hstep : Shares { p with
          joins := p.joins ++ [⟨o, c.2, a, c.1⟩]
          chains := p.chains ++ [(done ++ [o.table], o)]
          numbered := n } :=
        hp.extended hdone hfresh hnone hlinked rfl rfl rfl rfl hn hid
      obtain ⟨hshares, hmain, hkeeps, hend⟩ := ih hstep
        (List.mem_cons_of_mem _ (List.mem_append_right _ (List.mem_singleton_self _))) h
      exact ⟨hshares, hmain, fun e he => hkeeps (List.mem_append_left [_] he), hend⟩

/-- Planning for a result field. -/
theorem shares_forField {f : ResultField} {d : Domain} (hp : p.Shares)
    (hmain : p.main.table = d.table) (hpath : f.path.head? = some d)
    (h : p.forField f = .ok (z, p')) :
    p'.Shares ∧ p'.main = p.main ∧ p.reached ⊆ p'.reached ∧
      (tableChain f.path f.field.column.table, z) ∈ p'.reached := by
  obtain ⟨ts, hts⟩ := List.head?_eq_some_iff.1 (head?_tableChain hpath f.field.column.table)
  rw [forField, hts, ← hmain] at h
  rw [hts, ← hmain]
  exact shares_sharedFrom hp List.mem_cons_self h

/-! ## Further joins -/

/-- Whether `p'` has the joins of `p`, and perhaps others of other occurrences. -/
structure Continues (p p' : JoinPlan) : Prop where
  main : p'.main = p.main
  joins : p.joins ⊆ p'.joins
  distinct : p.occurrences.Nodup → p'.occurrences.Nodup

theorem Continues.refl (p : JoinPlan) : p.Continues p where
  main := rfl
  joins := List.Subset.refl _
  distinct := id

theorem Continues.trans (h : p.Continues p') (h' : p'.Continues p'') : p.Continues p'' where
  main := h'.main.trans h.main
  joins := List.Subset.trans h.joins h'.joins
  distinct := h'.distinct ∘ h.distinct

theorem continues_join (h : p.join a o = .ok p') : p.Continues p' := by
  rcases join_eq_ok h with ⟨-, rfl⟩ | ⟨hnot, c, -, rfl⟩
  · exact .refl _
  refine ⟨rfl, List.subset_append_left _ _, fun hdistinct => ?_⟩
  rw [occurrences_concat, ← List.concat_eq_append]
  exact hdistinct.concat hnot

theorem continues_ownFrom {id : Nat} {ts : List Table} :
    ∀ {p : JoinPlan} {a : Occurrence}, p.ownFrom id a ts = .ok (z, p') → p.Continues p' := by
  induction ts with
  | nil =>
    intro p a h
    cases h
    exact .refl _
  | cons t ts ih =>
    intro p a h
    rw [ownFrom] at h
    obtain ⟨p₁, hjoin, h⟩ := bind_eq_ok.1 h
    exact (continues_join hjoin).trans (ih h)

theorem continues_sharedFrom {ts : List Table} :
    ∀ {p : JoinPlan} {a : Occurrence} {done : List Table}, p.sharedFrom a done ts = .ok (z, p') →
      p.Continues p' := by
  induction ts with
  | nil =>
    intro p a done h
    cases h
    exact .refl _
  | cons t ts ih =>
    intro p a done h
    rw [sharedFrom] at h
    dsimp only at h
    split at h
    · exact ih h
    · obtain ⟨⟨o, p₁⟩, hnew, h⟩ := bind_eq_ok.1 h
      obtain ⟨p₂, hjoin, h⟩ := bind_eq_ok.1 h
      obtain ⟨-, -, n, rfl⟩ := newShared_eq_ok hnew
      have hstep := continues_join hjoin
      have hrest := ih h
      exact ⟨hrest.main.trans hstep.main, List.Subset.trans hstep.joins hrest.joins,
        hrest.distinct ∘ hstep.distinct⟩

theorem continues_forCriterion {c : Criterion} {r : Reading}
    (h : p.forCriterion c = .ok (r, p')) : p.Continues p' := by
  rw [forCriterion] at h
  split at h
  · cases h
    exact .refl _
  dsimp only at h
  split at h
  · cases h
    exact .refl _
  rw [alongChain] at h
  split at h
  · obtain ⟨⟨z, p₁⟩, hshared, h⟩ := map_eq_ok.1 h
    cases h
    exact continues_sharedFrom hshared
  split at h
  all_goals
    obtain ⟨⟨z, p₁⟩, hown, h⟩ := map_eq_ok.1 h
    cases h
    exact continues_ownFrom hown

end JoinPlan

namespace Selection

variable {p' : JoinPlan}

/-- Planning for elements. -/
theorem continues_piecesOf {es : List Element} : ∀ {p : JoinPlan} {pieces : List Piece},
    piecesOf p es = .ok (pieces, p') → p.Continues p' := by
  induction es with
  | nil =>
    intro p pieces h
    cases h
    exact .refl _
  | cons e es ih =>
    intro p pieces h
    rw [piecesOf] at h
    obtain ⟨⟨piece, p₁⟩, hpiece, h⟩ := bind_eq_ok.1 h
    obtain ⟨⟨rest, p₂⟩, hrest, h⟩ := bind_eq_ok.1 h
    cases h
    refine JoinPlan.Continues.trans ?_ (ih hrest)
    cases e with
    | criterion c =>
      rw [pieceOf] at hpiece
      obtain ⟨⟨r, p₂⟩, hread, hpiece⟩ := bind_eq_ok.1 hpiece
      dsimp only at hpiece
      split at hpiece
      · cases hpiece
        exact JoinPlan.continues_forCriterion hread
      · cases hpiece
    | and | or | openParen | closeParen =>
      cases hpiece
      exact .refl _

end Selection

/-! ## Items -/

end Sql

/-- The tables from the main one to the one that a field is stored in. -/
def ResultField.chain (f : ResultField) : List Table := tableChain f.path f.field.column.table

namespace Sql

namespace Selection

variable {d : Domain} {p' : JoinPlan} {items' : List SelectItem}

/-- Every item is read from the occurrence that its chain leads to. -/
theorem shares_addItems {fs : List ResultField} (hfs : ∀ f ∈ fs, f.path.head? = some d) :
    ∀ {p : JoinPlan} {items : List SelectItem}, p.Shares → p.main.table = d.table →
      (∀ i ∈ items, (i.column.field.chain, i.occurrence) ∈ p.reached) →
      addItems p items fs = .ok (items', p') →
      p'.Shares ∧ p'.main = p.main ∧
        ∀ i ∈ items', (i.column.field.chain, i.occurrence) ∈ p'.reached := by
  induction fs with
  | nil =>
    intro p items hp _ hitems h
    cases h
    exact ⟨hp, rfl, hitems⟩
  | cons f fs ih =>
    intro p items hp hmain hitems h
    obtain ⟨hf, hfs⟩ := List.forall_mem_cons.1 hfs
    rw [addItems] at h
    obtain ⟨⟨o, p₁⟩, hfield, h⟩ := bind_eq_ok.1 h
    obtain ⟨hp₁, hmain₁, hkeeps, hend⟩ := JoinPlan.shares_forField hp hmain hf hfield
    have hitems₁ : ∀ i ∈ items ++ [⟨o, f.field.column.column,
        ⟨freshName (items.map (·.column.name)) f.field.column.label, f⟩⟩],
        (i.column.field.chain, i.occurrence) ∈ p₁.reached := by
      intro i hi
      rcases List.mem_append.1 hi with hi | hi
      · exact hkeeps (hitems i hi)
      · rw [List.mem_singleton.1 hi]
        exact hend
    obtain ⟨hp', hmain', hread⟩ := ih hfs hp₁ (hmain₁ ▸ hmain) hitems₁ h
    exact ⟨hp', hmain'.trans hmain₁, hread⟩

/-- Each term of an order names the first column that returns its field. -/
theorem sorted_orderOf {items : List SelectItem} {o : Sorting} {order : List (String × Direction)}
    (h : orderOf items o = .ok order) :
    List.Forall₂ (fun f t => ∃ c, (items.map (·.column)).find? (·.field = f) = some c ∧
      t = (c.name, o.direction)) o.fields order := by
  refine (forall₂_mapM h).imp fun f t ht => ?_
  obtain ⟨name, hname, rfl⟩ := map_eq_ok.1 ht
  rw [columnNameOf] at hname
  split at hname
  case h_1 i hi =>
    cases hname
    refine ⟨i.column, ?_, rfl⟩
    rw [List.find?_map]
    exact congrArg (Option.map (·.column)) hi
  case h_2 => cases hname

end Selection

/-! ## Columns of a statement -/

/-- Whether an item, as it is listed, returns a column under its name: it reads the column that the
field is stored in, from the table to which the joins lead along the field's chain. -/
structure StatementHead.Returns (h : StatementHead) (main : Table) (c : ResultColumn)
    (i : ListedItem) : Prop where
  name : i.name = c.name
  reads : i.source.column = c.field.field.column.column
  along : ∃ ts z, c.field.chain = main :: ts ∧ i.source.table = some z ∧
    JoinsAlong h.joins main h.main.name ts z

/-- Whether a key sorts by the name of the first column that returns a field. -/
def Statement.SortsBy (st : Statement) (direction : Direction) (table : Option String)
    (f : ResultField) (k : SortKey) : Prop :=
  ∃ c, st.columns.find? (·.field = f) = some c ∧ k = ⟨⟨table, c.name⟩, direction = .desc⟩

/-- Whether the columns of a statement and what was read from its text mirror the result fields of
its query: there is a column for each field, in their order and with a name of its own. The items of
the text return them in their order, and read the same table only if their chains are the same. The
text sorts by the columns of the fields sorted by, in the statement itself or where its rows are
numbered. -/
structure Statement.Mirrors (st : Statement) (q : Query) (h : StatementHead) (a : Arrangement) :
    Prop where
  fields : st.columns.map (·.field) = q.resultFields
  names : (st.columns.map (·.name)).Nodup
  main : h.main.table = q.domain.table.name
  distinct : (h.tables.map NamedTable.name).Nodup
  items : List.Forall₂ (h.Returns q.domain.table) st.columns h.items
  shared : ∀ e ∈ st.columns.zip h.items, ∀ e' ∈ st.columns.zip h.items,
    e.2.source.table = e'.2.source.table ↔ e.1.field.chain = e'.1.field.chain
  unsorted : q.sort = none → a.order = [] ∧ a.numbering = []
  sorted : ∀ o, q.sort = some o →
    (List.Forall₂ (st.SortsBy o.direction none) o.fields a.order ∧ a.numbering = []) ∨
      (a.order = [] ∧ List.Forall₂ (st.SortsBy o.direction (some "aa")) o.fields a.numbering)

/-- Whether the joins of a selection lead from the domain's table to each of its items along the
item's chain, and to the same occurrence only along the same chain. -/
structure Selection.LeadsToItems (s : Selection) (q : Query) : Prop where
  main : s.joins.main = .plain q.domain.table
  distinct : s.joins.occurrences.Nodup
  along : ∀ i ∈ s.items, ∃ ts, i.column.field.chain = q.domain.table :: ts ∧
    Along s.joins.joins s.joins.main ts i.occurrence
  shared : ∀ i ∈ s.items, ∀ i' ∈ s.items,
    i.occurrence = i'.occurrence ↔ i.column.field.chain = i'.column.field.chain

namespace Selection

variable {s : Selection} {q : Query}

theorem leadsToItems_ofQuery (hq : ∀ f ∈ q.resultFields, f.path.head? = some q.domain)
    (h : ofQuery q = .ok s) : s.LeadsToItems q := by
  obtain ⟨p, hitems, -, hpieces, -⟩ := parts_of_ofQuery h
  obtain ⟨hshares, hmain, hread⟩ := shares_addItems hq (JoinPlan.shares_start q.domain.table) rfl
    (fun i hi => by cases hi) hitems
  -- Criteria are planned behind the items and only add joins.
  have hcontinues := continues_piecesOf hpieces
  constructor
  case main => exact hcontinues.main.trans hmain
  case distinct => exact hcontinues.distinct hshares.distinct
  case along =>
    intro i hi
    obtain ⟨ts, hts, halong⟩ := hshares.along _ (hread i hi)
    rw [hmain] at hts
    rw [hcontinues.main]
    exact ⟨ts, hts, halong.mono hcontinues.joins⟩
  case shared => exact fun i hi i' hi' => hshares.eq_iff (hread i hi) (hread i' hi')

/-- The items of a text return the columns of the selection. -/
theorem Named.returns_head (hs : s.Named) (hleads : s.LeadsToItems q) :
    List.Forall₂ (s.head.Returns q.domain.table) (s.items.map (·.column)) s.head.items := by
  rw [head, List.forall₂_map_left_iff, List.forall₂_map_right_iff, List.forall₂_same]
  intro i hi
  obtain ⟨ts, hchain, halong⟩ := hleads.along i hi
  have hlisted := joinsAlong_listed.2 halong
  have htable : s.joins.main.table = q.domain.table := by rw [hleads.main]; rfl
  rw [htable] at hlisted
  exact ⟨rfl, (hs.items i hi).reads, ts, i.occurrence.name, hchain, rfl, hlisted⟩

/-- Items of a text read the same table only if their chains are the same. -/
theorem LeadsToItems.shared_head (hleads : s.LeadsToItems q) :
    ∀ e ∈ (s.items.map (·.column)).zip s.head.items,
      ∀ e' ∈ (s.items.map (·.column)).zip s.head.items,
        e.2.source.table = e'.2.source.table ↔ e.1.field.chain = e'.1.field.chain := by
  intro e he e' he'
  rw [head, List.zip_map'] at he he'
  obtain ⟨i, hi, rfl⟩ := List.mem_map.1 he
  obtain ⟨i', hi', rfl⟩ := List.mem_map.1 he'
  rw [← hleads.shared i hi i' hi']
  exact ⟨fun h => Occurrence.name_injective (Option.some.inj h),
    congrArg fun o : Occurrence => some o.name⟩

/-- Keys that name the columns of an order, in a table or in none, sort by the columns of the fields
sorted by. -/
theorem sortsBy_orderOf {o : Sorting} {st : Statement}
    (hcolumns : st.columns = s.items.map (·.column)) (h : orderOf s.items o = .ok s.order)
    (table : Option String) :
    List.Forall₂ (st.SortsBy o.direction table) o.fields
      (s.order.map fun t => OrderTerm.key ⟨table, t.1, " ", t.2.keyword⟩) := by
  have hdirection : ∀ d : Direction, (direction? d.keyword).getD false = decide (d = .desc) := by
    intro d
    cases d <;> decide
  rw [List.forall₂_map_right_iff]
  refine (sorted_orderOf h).imp fun f t ht => ?_
  obtain ⟨c, hc, rfl⟩ := ht
  refine ⟨c, hcolumns ▸ hc, ?_⟩
  rw [OrderTerm.key, hdirection]

end Selection

end Sql

/-- The columns of every statement, as its text returns them, mirror the result fields of its query,
if these have paths from the domain of the query as walks have. -/
theorem mirrored_toStatement {q : Query} (hq : ∀ f ∈ q.resultFields, f.path.head? = some q.domain)
    {d : Dialect} {st : Sql.Statement} (h : q.toStatement d = .ok st) :
    ∃ head a, Sql.readStatement? d (tokens st.sql) = some (head, a) ∧ st.Mirrors q head a := by
  obtain ⟨sel, hsel, hnamed, hcolumns, hread⟩ := read_toStatement h
  obtain ⟨p, hitems, -, -, horder⟩ := Sql.Selection.parts_of_ofQuery hsel
  have hleads := Sql.Selection.leadsToItems_ofQuery hq hsel
  have honce := (sel.parts q.offset q.limit).order_once sel.orderTerms d
  refine ⟨_, _, hread, ?_⟩
  constructor
  case fields =>
    rw [hcolumns, List.map_map]
    exact Sql.Selection.fields_addItems hitems
  case names =>
    have hstart : (([] : List Sql.SelectItem).map (·.column.name)).Nodup := .nil
    rw [hcolumns, List.map_map]
    exact Sql.Selection.nodup_addItems hstart hitems
  case main =>
    rw [Sql.Selection.head, hleads.main]
    rfl
  case distinct =>
    rw [sel.tables_head, List.map_map]
    exact hleads.distinct.map fun o o' ho => Occurrence.name_injective ho
  case items => exact hcolumns ▸ hnamed.returns_head hleads
  case shared => exact hcolumns ▸ hleads.shared_head
  case unsorted =>
    intro hsort
    rw [hsort] at horder
    have hterms : sel.orderTerms = [] := List.map_eq_nil_iff.2 horder
    rcases honce with ⟨horder, hnumbering⟩ | ⟨horder, hnumbering⟩
    · exact ⟨horder.trans (congrArg (List.map _) hterms), hnumbering⟩
    · exact ⟨horder, hnumbering.trans (congrArg (List.map _) hterms)⟩
  case sorted =>
    intro o hsort
    rw [hsort] at horder
    have hsorts := Sql.Selection.sortsBy_orderOf hcolumns horder
    -- The dialect decides which of the two places has the order.
    rcases honce with ⟨horder, hnumbering⟩ | ⟨horder, hnumbering⟩
    · refine .inl ⟨?_, hnumbering⟩
      rw [horder, Sql.Selection.orderTerms, List.map_map]
      exact hsorts none
    · refine .inr ⟨horder, ?_⟩
      rw [hnumbering, Sql.Selection.orderTerms, List.map_map]
      exact hsorts (some "aa")

/-- Items with their names, returned twice, and the names of the items and modules built beside
them, sorted by the names of the items built beside them. -/
def Query.besideRepeated : Query where
  domain := .items
  resultFields := [.main .itemName .items, ⟨.itemName, [.items, .artifacts, .items]⟩,
    .main .itemName .items, ⟨.itemName, [.items, .artifacts, .items]⟩,
    ⟨.moduleName, [.items, .artifacts, .modules]⟩, ⟨.itemRepo, [.items, .artifacts, .items]⟩]
  elements := []
  sort := some ⟨.desc, [⟨.itemName, [.items, .artifacts, .items]⟩, .main .itemName .items]⟩

theorem mirrored_toStatement_besideRepeated :
    (∀ f ∈ Query.besideRepeated.resultFields, f.path.head? = some Query.besideRepeated.domain) ∧
      ∃ st head a, Query.besideRepeated.toStatement .derby = .ok st ∧
        Sql.readStatement? .derby (tokens st.sql) = some (head, a) ∧
        st.Mirrors .besideRepeated head a ∧
        (head.items.map fun i => (i.source.written, i.name)) =
          [("n.node_name", "itemName"), ("n1.node_name", "itemName2"),
            ("n.node_name", "itemName3"), ("n1.node_name", "itemName4"),
            ("bm.module_name_id", "moduleName"), ("n1.repo", "itemRepo")] ∧
        a.order = [⟨⟨none, "itemName2"⟩, true⟩, ⟨⟨none, "itemName"⟩, true⟩] := by
  have hpaths : ∀ f ∈ Query.besideRepeated.resultFields,
      f.path.head? = some Query.besideRepeated.domain := by decide
  obtain ⟨sel, hsel, hread⟩ : ∃ sel, Sql.Selection.ofQuery Query.besideRepeated = .ok sel ∧
      ((sel.head.items.map fun i => (i.source.written, i.name)),
        ((sel.parts Query.besideRepeated.offset Query.besideRepeated.limit).arrangement
          sel.orderTerms .derby).order) =
        ([("n.node_name", "itemName"), ("n1.node_name", "itemName2"),
            ("n.node_name", "itemName3"), ("n1.node_name", "itemName4"),
            ("bm.module_name_id", "moduleName"), ("n1.repo", "itemRepo")],
          [⟨⟨none, "itemName2"⟩, true⟩, ⟨⟨none, "itemName"⟩, true⟩]) :=
    map_eq_ok.1 (by decide +kernel)
  obtain ⟨hitems, horder⟩ := Prod.mk.inj hread
  obtain ⟨st, hst⟩ := Query.exists_toStatement hsel .derby
  obtain ⟨head, a, hread, hmirrors⟩ := mirrored_toStatement hpaths hst
  obtain ⟨sel', hsel', -, -, hread'⟩ := read_toStatement hst
  cases hsel.symm.trans hsel'
  cases hread.symm.trans hread'
  exact ⟨hpaths, st, _, _, hst, hread, hmirrors, hitems, horder⟩

end ArtifactQuery
