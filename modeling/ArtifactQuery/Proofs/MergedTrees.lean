import ArtifactQuery.Proofs.AssembledRows
import ArtifactQuery.Proofs.FirstOccurrences
import ArtifactQuery.Proofs.MergedRows
import Mathlib.Data.List.Nodup
import Mathlib.Data.List.SplitBy
import Mathlib.Data.List.TakeWhile

/-!
# Trees of merged rows

Rows of one entity that follow each other are merged into a single row. That row holds all that is
related in one of them, and nothing twice.

* `Row.Apart`: at every level, related rows are different entities.
* `Row.HasPath`: a path of entities from a row down to one below it.
* `Row.beneath`: the entities that stand next to each other at the end of a path.
* `Row.foldIn`, `foldIn_cases`: a row is folded into others, one way or the other.
* `Apart.merge`, `hasPath_merge`, `beneath_mergeAll`: what becomes of these by merging two rows.
* `Row.Unites`, `unites_foldl`: what rows of one entity come to.
* `Merger.run`, `run_eq`: the rows that a merger hands out are the entities of the rows given to it.
* `merged_runs`: each of them unites one run of consecutive rows of an entity.
-/

namespace ArtifactQuery

/-- What tells entities apart: their domain and their values. -/
abbrev Entity := Domain × List (Field × Value)

namespace Row

/-- The entity that a row describes. -/
def entity (r : Row) : Entity := (r.domain, r.values)

/-- Related rows are different entities, at every level. -/
inductive Apart : Row → Prop
  | intro {r : Row} (hentities : (r.children.map entity).Nodup)
      (hchildren : ∀ c ∈ r.children, Apart c) : Apart r

/-- A path of entities from a row to itself or to a row below it. -/
inductive HasPath : Row → List Entity → Prop
  | root (r : Row) : HasPath r [r.entity]
  | down {r c : Row} {p : List Entity} (hc : c ∈ r.children) (h : HasPath c p) :
      HasPath r (r.entity :: p)

/-- The entities next to each other at the end of a path that goes down through rows, in order. -/
def beneath : List Entity → List Row → List Entity
  | [], rs => rs.map entity
  | e :: p, rs => beneath p ((rs.filter (·.entity = e)).flatMap children)

variable {r s : Row} {rs cs : List Row} {e : Entity} {p : List Entity}

theorem sameEntity_iff : r.sameEntity s = true ↔ r.entity = s.entity := by
  simp [sameEntity, entity]

@[simp] theorem entity_merge (r s : Row) : (r.merge s).entity = r.entity := by
  cases s
  rfl

theorem children_merge (r s : Row) : (r.merge s).children = mergeAll r.children s.children := by
  cases s
  rfl

theorem apart_iff : r.Apart ↔ (r.children.map entity).Nodup ∧ ∀ c ∈ r.children, c.Apart := by
  constructor
  · rintro ⟨hentities, hchildren⟩
    exact ⟨hentities, hchildren⟩
  · rintro ⟨hentities, hchildren⟩
    exact ⟨hentities, hchildren⟩

/-- Rows that differ in their domains are different entities. -/
theorem OnePerDomain.apart (h : r.OnePerDomain) : r.Apart := by
  induction h with
  | @intro r hdomains _ ih =>
    refine ⟨?_, ih⟩
    rw [List.Nodup, List.pairwise_map]
    exact hdomains.imp fun hne h => hne (congrArg Prod.fst h)

/-- Whether a path starts at one of some rows. -/
def SomePath (rs : List Row) (p : List Entity) : Prop := ∃ r ∈ rs, r.HasPath p

theorem somePath_append : SomePath (rs ++ cs) p ↔ SomePath rs p ∨ SomePath cs p := by
  simp only [SomePath, List.mem_append, or_and_right, exists_or]

theorem somePath_cons : SomePath (r :: rs) p ↔ r.HasPath p ∨ SomePath rs p := by
  simp [SomePath]

theorem not_hasPath_nil : ¬ r.HasPath [] := by
  rintro ⟨⟩

theorem hasPath_cons_iff :
    r.HasPath (e :: p) ↔ e = r.entity ∧ (p = [] ∨ SomePath r.children p) := by
  constructor
  · rintro (_ | ⟨hc, h⟩)
    · exact ⟨rfl, .inl rfl⟩
    · exact ⟨rfl, .inr ⟨_, hc, h⟩⟩
  · rintro ⟨rfl, rfl | ⟨c, hc, h⟩⟩
    · exact .root r
    · exact .down hc h

/-! ## One row folded into others -/

/-- Folds a row into others: it is merged into the first one of its entity, or comes last. -/
def foldIn (rs : List Row) (c : Row) : List Row :=
  (changeFirst? (·.sameEntity c) (·.merge c) rs).getD (rs ++ [c])

theorem mergeAll_eq_foldl (rs cs : List Row) : mergeAll rs cs = cs.foldl foldIn rs := by
  induction cs generalizing rs with
  | nil => rfl
  | cons c cs ih => exact ih _

theorem foldIn_cases (rs : List Row) (c : Row) :
    ((∀ r ∈ rs, r.entity ≠ c.entity) ∧ foldIn rs c = rs ++ [c]) ∨
      ∃ before r after, rs = before ++ r :: after ∧ r.entity = c.entity ∧
        foldIn rs c = before ++ r.merge c :: after := by
  rcases changeFirst?_cases (·.sameEntity c) (·.merge c) rs with
    ⟨hnone, hsame⟩ | ⟨before, r, after, hrs, hr, -, hchanged⟩
  · refine .inl ⟨fun r hr h => hnone r hr (sameEntity_iff.2 h), ?_⟩
    rw [foldIn, hsame]
    rfl
  · refine .inr ⟨before, r, after, hrs, sameEntity_iff.1 hr, ?_⟩
    rw [foldIn, hchanged]
    rfl

/-- Folding in a row keeps the entities, and adds its own behind them if it is new. -/
theorem entities_foldIn (h : (rs.map entity).Nodup) (c : Row) :
    (foldIn rs c).map entity = ((rs ++ [c]).map entity).eraseDups := by
  rcases foldIn_cases rs c with ⟨hnew, hfold⟩ | ⟨before, r, after, rfl, hr, hfold⟩
  · have hnodup : ((rs ++ [c]).map entity).Nodup := by
      rw [List.map_append, List.nodup_append]
      refine ⟨h, by simp, fun e he e' he' hee => ?_⟩
      obtain ⟨r, hr, rfl⟩ := List.mem_map.1 he
      exact hnew r hr (hee.trans (by simpa using he'))
    rw [hfold, eraseDups_of_nodup hnodup]
  · have hmem : c.entity ∈ (before ++ r :: after).map entity :=
      List.mem_map.2 ⟨r, by simp, hr⟩
    rw [List.map_append, List.map_singleton, eraseDups_concat_of_mem h hmem, hfold]
    simp

theorem entities_mergeAll (h : (rs.map entity).Nodup) (cs : List Row) :
    (mergeAll rs cs).map entity = ((rs ++ cs).map entity).eraseDups := by
  rw [mergeAll_eq_foldl]
  induction cs generalizing rs with
  | nil => rw [List.foldl_nil, List.append_nil, eraseDups_of_nodup h]
  | cons c cs ih =>
    have hnodup : ((foldIn rs c).map entity).Nodup := by
      rw [entities_foldIn h]
      exact nodup_eraseDups _
    rw [List.foldl_cons, ih hnodup, List.map_append, entities_foldIn h, eraseDups_append_left,
      ← List.map_append, List.append_assoc, List.singleton_append]

/-! ## Merging two rows -/

/-- What holds of all rows, and of the merger of one of them with a row of its entity, holds of all
rows after folding in. -/
theorem forall_foldIn {P : Row → Prop} {c : Row} (hrs : ∀ r ∈ rs, P r) (hc : P c)
    (hmerge : ∀ r ∈ rs, r.entity = c.entity → P (r.merge c)) : ∀ r ∈ foldIn rs c, P r := by
  rcases foldIn_cases rs c with ⟨-, hfold⟩ | ⟨before, r, after, rfl, hr, hfold⟩
  · rw [hfold]
    intro s hs
    rcases List.mem_append.1 hs with hs | hs
    · exact hrs s hs
    · rwa [List.mem_singleton.1 hs]
  · rw [hfold]
    intro s hs
    rcases List.mem_append.1 hs with hs | hs
    · exact hrs s (List.mem_append_left _ hs)
    · rcases List.mem_cons.1 hs with rfl | hs
      · exact hmerge r (by simp) hr
      · exact hrs s (by simp [hs])

/-- Merging keeps related rows apart. -/
theorem Apart.merge (hr : r.Apart) (hs : s.Apart) : (r.merge s).Apart := by
  induction hs generalizing r with
  | @intro s _ hchildren ih =>
    obtain ⟨hentities, hrows⟩ := apart_iff.1 hr
    rw [apart_iff, children_merge]
    constructor
    · rw [entities_mergeAll hentities]
      exact nodup_eraseDups _
    · rw [mergeAll_eq_foldl]
      generalize r.children = rs at hrows
      generalize s.children = cs at hchildren ih
      induction cs generalizing rs with
      | nil => exact hrows
      | cons c cs ihcs =>
        obtain ⟨hc, hcs⟩ := List.forall_mem_cons.1 hchildren
        obtain ⟨ihc, ihrest⟩ := List.forall_mem_cons.1 ih
        exact ihcs _ (forall_foldIn hrows hc fun r hr _ => ihc (hrows r hr)) hcs ihrest

/-- A merged row has the paths of both. -/
theorem hasPath_merge (h : r.entity = s.entity) :
    (r.merge s).HasPath p ↔ r.HasPath p ∨ s.HasPath p := by
  induction p generalizing r s with
  | nil => simp [not_hasPath_nil]
  | cons e p ih =>
    have hfold : ∀ rs c, SomePath (foldIn rs c) p ↔ SomePath rs p ∨ c.HasPath p := by
      intro rs c
      rcases foldIn_cases rs c with ⟨-, hfold⟩ | ⟨before, r, after, rfl, hr, hfold⟩
      · rw [hfold, somePath_append, somePath_cons]
        simp [SomePath]
      · rw [hfold, somePath_append, somePath_cons, somePath_append, somePath_cons, ih hr]
        tauto
    have hall : ∀ rs cs, SomePath (mergeAll rs cs) p ↔ SomePath rs p ∨ SomePath cs p := by
      intro rs cs
      rw [mergeAll_eq_foldl]
      induction cs generalizing rs with
      | nil => simp [SomePath]
      | cons c cs ihcs => rw [List.foldl_cons, ihcs, hfold, somePath_cons, or_assoc]
    rw [hasPath_cons_iff, hasPath_cons_iff, hasPath_cons_iff, entity_merge, children_merge, hall,
      ← h]
    tauto

/-! ## Rows next to each other -/

/-- Rows that are different entities, and so are those below each of them. -/
structure AllApart (rs : List Row) : Prop where
  entities : (rs.map entity).Nodup
  rows : ∀ r ∈ rs, r.Apart

theorem Apart.children (h : r.Apart) : AllApart r.children :=
  ⟨(apart_iff.1 h).1, (apart_iff.1 h).2⟩

/-- Among rows that are different entities, one may be changed and is still the only one of its
entity. -/
theorem filter_entity_eq {before after : List Row} {x : Row}
    (h : ((before ++ r :: after).map entity).Nodup) (hx : x.entity = r.entity) :
    (before ++ x :: after).filter (·.entity = r.entity) = [x] := by
  simp only [List.map_append, List.map_cons, List.nodup_append, List.nodup_cons] at h
  obtain ⟨-, ⟨hafter, -⟩, hbefore⟩ := h
  have hnone : before.filter (·.entity = r.entity) = [] := by
    rw [List.filter_eq_nil_iff]
    intro b hb hbr
    exact hbefore b.entity (List.mem_map.2 ⟨b, hb, rfl⟩) r.entity (by simp) (by simpa using hbr)
  have hnone' : after.filter (·.entity = r.entity) = [] := by
    rw [List.filter_eq_nil_iff]
    intro a ha har
    exact hafter (List.mem_map.2 ⟨a, ha, by simpa using har⟩)
  rw [List.filter_append, List.filter_cons_of_pos (by simpa using hx), hnone, hnone']
  rfl

/-- Of rows that are different entities, at most one is a given one. -/
theorem AllApart.filter_entity (h : AllApart rs) (e : Entity) :
    rs.filter (·.entity = e) = [] ∨ ∃ r ∈ rs, rs.filter (·.entity = e) = [r] := by
  by_cases hmem : ∃ r ∈ rs, r.entity = e
  · obtain ⟨r, hr, rfl⟩ := hmem
    obtain ⟨before, after, rfl⟩ := List.append_of_mem hr
    exact .inr ⟨r, hr, filter_entity_eq h.entities rfl⟩
  · refine .inl (List.filter_eq_nil_iff.2 fun r hr hre => ?_)
    exact hmem ⟨r, hr, by simpa using hre⟩

theorem AllApart.nodup_beneath (h : AllApart rs) (p : List Entity) : (beneath p rs).Nodup := by
  induction p generalizing rs with
  | nil => exact h.entities
  | cons e p ih =>
    rw [beneath]
    rcases h.filter_entity e with hnone | ⟨r, hr, hone⟩
    · rw [hnone]
      exact ih ⟨List.nodup_nil, by simp⟩
    · rw [hone, List.flatMap_singleton]
      exact ih (h.rows r hr).children

theorem AllApart.foldIn {c : Row} (h : AllApart rs) (hc : c.Apart) : AllApart (foldIn rs c) where
  entities := by
    rw [entities_foldIn h.entities]
    exact nodup_eraseDups _
  rows := forall_foldIn h.rows hc fun r hr _ => (h.rows r hr).merge hc

theorem beneath_append (p : List Entity) (rs cs : List Row) :
    beneath p (rs ++ cs) = beneath p rs ++ beneath p cs := by
  induction p generalizing rs cs with
  | nil => exact List.map_append
  | cons e p ih => rw [beneath, List.filter_append, List.flatMap_append, ih, beneath, beneath]

/-- At the end of a path, merged rows have the entities of all of them, each where it occurs first.
-/
theorem beneath_mergeAll (p : List Entity) (hrs : AllApart rs) (hcs : AllApart cs) :
    beneath p (mergeAll rs cs) = (beneath p (rs ++ cs)).eraseDups := by
  -- Down the path, with the rows left free: one step goes to the related rows of an entity, which
  -- are merged in turn.
  induction p generalizing rs cs with
  | nil => exact entities_mergeAll hrs.entities cs
  | cons e p ih =>
    have hfold : ∀ rs c, AllApart rs → c.Apart →
        beneath (e :: p) (Row.foldIn rs c) = (beneath (e :: p) (rs ++ [c])).eraseDups := by
      intro rs c hrs hc
      rcases foldIn_cases rs c with ⟨hnew, hfold⟩ | ⟨before, r, after, rfl, hr, hfold⟩
      · have hall : AllApart (rs ++ [c]) := hfold ▸ hrs.foldIn hc
        rw [hfold, eraseDups_of_nodup (hall.nodup_beneath _)]
      · rw [hfold, beneath, beneath, List.filter_append (before ++ r :: after)]
        by_cases he : c.entity = e
        · subst he
          have hc' : [c].filter (·.entity = c.entity) = [c] := by simp
          have hr' := filter_entity_eq hrs.entities (rfl : r.entity = r.entity)
          have hmerged := filter_entity_eq hrs.entities (entity_merge r c)
          rw [hr] at hr' hmerged
          rw [hc', hr', hmerged, List.flatMap_singleton, List.flatMap_append,
            List.flatMap_singleton, List.flatMap_singleton, children_merge]
          exact ih (hrs.rows r (by simp)).children hc.children
        · have hc' : [c].filter (·.entity = e) = [] := by simp [he]
          have hsame : (before ++ r.merge c :: after).filter (·.entity = e) =
              (before ++ r :: after).filter (·.entity = e) := by
            rw [List.filter_append, List.filter_append, List.filter_cons, List.filter_cons,
              entity_merge, hr]
            simp [he]
          rw [hc', List.append_nil, hsame]
          exact (eraseDups_of_nodup (hrs.nodup_beneath (e :: p))).symm
    -- Rows are folded in one by one, and what is dropped early would be dropped at the end as well.
    rw [mergeAll_eq_foldl]
    induction cs generalizing rs with
    | nil => rw [List.foldl_nil, List.append_nil, eraseDups_of_nodup (hrs.nodup_beneath _)]
    | cons c cs ihcs =>
      have hc : c.Apart := hcs.rows c (by simp)
      have hrest : AllApart cs :=
        ⟨(List.nodup_cons.1 hcs.entities).2, fun r hr => hcs.rows r (by simp [hr])⟩
      rw [List.foldl_cons, ihcs (hrs.foldIn hc) hrest, beneath_append, hfold rs c hrs hc,
        eraseDups_append_left, ← beneath_append, List.append_assoc, List.singleton_append]

/-! ## Rows of one entity -/

/-- Whether a row is what rows of one entity come to: it is one of this entity, related rows are
different entities, it has the paths of all of them, and at the end of each path stand the entities
that stand there in one of them, each where it occurs first. -/
structure Unites (run : List Row) (r : Row) : Prop where
  entity : ∀ s ∈ run, s.entity = r.entity
  apart : r.Apart
  paths : ∀ p, r.HasPath p ↔ ∃ s ∈ run, s.HasPath p
  order : ∀ p, beneath p r.children = (beneath p (run.flatMap Row.children)).eraseDups

theorem Unites.single (h : r.Apart) : Unites [r] r where
  entity s hs := by rw [List.mem_singleton.1 hs]
  apart := h
  paths p := by simp
  order p := by rw [List.flatMap_singleton, eraseDups_of_nodup (h.children.nodup_beneath p)]

theorem Unites.concat {run : List Row} (h : Unites run r) (hs : s.Apart)
    (hrs : r.entity = s.entity) : Unites (run ++ [s]) (r.merge s) where
  entity t ht := by
    rw [entity_merge]
    rcases List.mem_append.1 ht with ht | ht
    · exact h.entity t ht
    · rw [List.mem_singleton.1 ht, hrs]
  apart := h.apart.merge hs
  paths p := by
    rw [hasPath_merge hrs, h.paths]
    simp [or_and_right, exists_or]
  order p := by
    rw [children_merge, beneath_mergeAll p h.apart.children hs.children, beneath_append, h.order,
      eraseDups_append_left, ← beneath_append, List.flatMap_append, List.flatMap_singleton]

/-- Merging rows of its entity into a row, one after the other. -/
theorem unites_foldl {run rest : List Row} (h : Unites run r)
    (hrest : ∀ s ∈ rest, s.Apart ∧ r.entity = s.entity) :
    Unites (run ++ rest) (rest.foldl merge r) := by
  induction rest generalizing run r with
  | nil => rwa [List.append_nil]
  | cons s rest ih =>
    obtain ⟨⟨hs, hrs⟩, hrest⟩ := List.forall_mem_cons.1 hrest
    rw [List.append_cons]
    exact ih (h.concat hs hrs) (by simpa using hrest)

/-! ## Runs of rows -/

/-- Behind the rows of its entity, a row is followed by one of another entity. -/
theorem not_sameEntity_of_dropWhile {rest : List Row} (h : rs.dropWhile r.sameEntity = s :: rest) :
    ¬ r.entity = s.entity := by
  have hhead := List.head?_dropWhile_not r.sameEntity rs
  rw [h] at hhead
  intro hrs
  rw [List.head?_cons] at hhead
  exact Bool.false_ne_true (hhead.symm.trans (sameEntity_iff.2 hrs))

/-- The first run of rows is the first row with those of its entity that follow it. -/
theorem splitBy_cons (r : Row) (rs : List Row) : (r :: rs).splitBy sameEntity =
    (r :: rs.takeWhile r.sameEntity) :: (rs.dropWhile r.sameEntity).splitBy sameEntity := by
  have hsame : ∀ s ∈ r :: rs.takeWhile r.sameEntity, s.entity = r.entity := by
    intro s hs
    rcases List.mem_cons.1 hs with rfl | hs
    · rfl
    · exact (sameEntity_iff.1 (List.mem_takeWhile_imp hs)).symm
  have hchain : (r :: rs.takeWhile r.sameEntity).IsChain fun s t => s.sameEntity t := by
    have hall := List.pairwise_of_forall (l := r :: rs.takeWhile r.sameEntity)
      (R := fun _ _ => True) fun _ _ => trivial
    refine (hall.imp_of_mem fun {s t} hs ht _ => ?_).isChain
    exact sameEntity_iff.2 ((hsame s hs).trans (hsame t ht).symm)
  -- Whether two rows are alike is asked of neighbours, so the run ends where the next entity
  -- starts.
  have hother : ∀ s ∈ (r :: rs.takeWhile r.sameEntity).getLast?,
      ∀ t ∈ (rs.dropWhile r.sameEntity).head?, s.sameEntity t = false := by
    intro s hs t ht
    obtain ⟨rest, hrest⟩ := List.head?_eq_some_iff.1 ht
    rw [Bool.eq_false_iff]
    intro hst
    have hsr := hsame s (List.mem_of_getLast? hs)
    exact not_sameEntity_of_dropWhile hrest (hsr.symm.trans (sameEntity_iff.1 hst))
  have happend := List.splitBy_append hother
  rw [List.splitBy_of_isChain (List.cons_ne_nil _ _) hchain, List.cons_append,
    List.takeWhile_append_dropWhile] at happend
  exact happend

theorem entity_foldl_merge (rs : List Row) (r : Row) : (rs.foldl merge r).entity = r.entity := by
  induction rs generalizing r with
  | nil => rfl
  | cons s rs ih => rw [List.foldl_cons, ih, entity_merge]

/-- The entities of rows are what the runs of rows come to. -/
theorem unites_entities (h : ∀ r ∈ rs, r.Apart) :
    List.Forall₂ Unites (rs.splitBy sameEntity) (entities rs) := by
  fun_induction entities rs with
  | case1 => exact .nil
  | case2 r rs ih =>
    obtain ⟨hr, hrs⟩ := List.forall_mem_cons.1 h
    have hrun : ∀ s ∈ rs.takeWhile r.sameEntity, s.Apart ∧ r.entity = s.entity := by
      intro s hs
      exact ⟨hrs s ((List.takeWhile_prefix _).subset hs),
        sameEntity_iff.1 (List.mem_takeWhile_imp hs)⟩
    rw [splitBy_cons]
    refine .cons (unites_foldl (.single hr) hrun) (ih fun s hs => ?_)
    exact hrs s ((List.dropWhile_suffix _).subset hs)

/-- Entities that follow each other differ. -/
theorem isChain_entities (rs : List Row) :
    (entities rs).IsChain fun r s => ¬ r.sameEntity s = true := by
  fun_induction entities rs with
  | case1 => exact .nil
  | case2 r rs ih =>
    refine List.isChain_cons.2 ⟨fun x hx => ?_, ih⟩
    cases hrest : rs.dropWhile r.sameEntity with
    | nil =>
      rw [hrest, entities_nil] at hx
      cases hx
    | cons s rest =>
      rw [hrest, entities] at hx
      obtain rfl := Option.some.inj hx
      rw [sameEntity_iff, entity_foldl_merge, entity_foldl_merge]
      exact not_sameEntity_of_dropWhile hrest

end Row

namespace Merger

/-- The rows that a merger hands out for rows, up to the last one. -/
def run (m : Merger) : List Row → List Row
  | [] => m.finish.1.toList
  | r :: rs => (m.push r).1.toList ++ run (m.push r).2 rs

/-- A merger hands out the entities of the rows that are given to it. -/
theorem run_eq (m : Merger) (rs : List Row) : m.run rs = Row.entities (m.pending.toList ++ rs) := by
  induction rs generalizing m with
  | nil =>
    rw [run, finish, List.append_nil]
    cases m.pending with
    | none => exact Row.entities_nil.symm
    | some p => exact (Row.entities_singleton p).symm
  | cons r rs ih => rw [run, ih, entities_push]

end Merger

/-- Rows put together from cells have different related rows. For any such rows, a merger hands out
one row for each run of consecutive rows of an entity, in order, which unites the run, and no two of
them that follow each other are of one entity. -/
theorem merged_runs :
    (∀ (p : Plan) cells r, p.assemble cells = .ok r → r.Apart) ∧
      ∀ rows : List Row, (∀ r ∈ rows, r.Apart) →
        List.Forall₂ Row.Unites (rows.splitBy Row.sameEntity) (Merger.run {} rows) ∧
          (Merger.run {} rows).IsChain fun r s => ¬ r.sameEntity s = true := by
  refine ⟨fun p cells r h => (Plan.onePerDomain_assemble h).apart, fun rows h => ?_⟩
  have hrun : Merger.run {} rows = Row.entities rows := Merger.run_eq {} rows
  rw [hrun]
  exact ⟨Row.unites_entities h, Row.isChain_entities rows⟩

/-- A row with one name. -/
def Row.named (d : Domain) (f : Field) (name : String) (children : List Row) : Row where
  domain := d
  values := [(f, .text name)]
  children := children

/-- A build with an artifact of one of its modules. -/
def Row.ofArtifact (build unit artifact : String) : Row :=
  .named .builds .buildName build [.named .modules .moduleName unit [
    .named .artifacts .artifactName artifact []]]

/-- Four rows of one build, two modules and two artifacts, and a row of another build. -/
def Row.ofBuilds : List Row :=
  [.ofArtifact "app" "core" "x.jar", .ofArtifact "app" "ui" "x.jar",
    .ofArtifact "app" "core" "y.jar", .ofArtifact "app" "core" "x.jar",
    .ofArtifact "lib" "core" "x.jar"]

/-- The first four rows become one, in which nothing stands twice. -/
theorem merged_runs_ofBuilds : (∀ r ∈ Row.ofBuilds, r.Apart) ∧
    List.Forall₂ Row.Unites (Row.ofBuilds.splitBy Row.sameEntity) (Merger.run {} Row.ofBuilds) ∧
    Merger.run {} Row.ofBuilds =
      [.named .builds .buildName "app"
        [.named .modules .moduleName "core" [.named .artifacts .artifactName "x.jar" [],
          .named .artifacts .artifactName "y.jar" []],
        .named .modules .moduleName "ui" [.named .artifacts .artifactName "x.jar" []]],
      .ofArtifact "lib" "core" "x.jar"] := by
  have hone : ∀ d f name (c : Row), c.Apart → (Row.named d f name [c]).Apart := fun d f name c hc =>
    ⟨List.nodup_singleton _, List.forall_mem_singleton.2 hc⟩
  have hapart : ∀ build unit artifact, (Row.ofArtifact build unit artifact).Apart := fun _ _ _ =>
    hone _ _ _ _ (hone _ _ _ _ ⟨List.nodup_nil, List.forall_mem_nil _⟩)
  have hall : ∀ r ∈ Row.ofBuilds, r.Apart := by
    intro r hr
    simp only [Row.ofBuilds, List.mem_cons, List.not_mem_nil, or_false] at hr
    rcases hr with rfl | rfl | rfl | rfl | rfl <;> exact hapart _ _ _
  exact ⟨hall, (merged_runs.2 Row.ofBuilds hall).1, rfl⟩

end ArtifactQuery
