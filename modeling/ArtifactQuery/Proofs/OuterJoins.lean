import ArtifactQuery.Proofs.ConditionTruth
import ArtifactQuery.Proofs.Joins
import Mathlib.Data.List.Induction

/-!
# Rows of outer joins

A statement reads a row of its main table together with the rows that its joins put beside it.

* `Join.options`: the rows that a join puts beside others, one without values if none agrees.
* `combinations`: what joins make of a combination, one after the other.
* `combinations_ne_nil`, `apply_of_mem_combinations`: no row is lost, and joins leave alone what
  they do not join.
* `exists_mem_combinations_concat`: what the last join adds.
* `Selection.returns`: whether a statement returns a row of its main table.
-/

namespace ArtifactQuery.Sql

/-! ## One join -/

namespace Join

/-- The rows that a join puts beside a combination: those that agree with it on the columns of the
join, or one without values where none does. -/
def options (db : Database) (j : Join) (rows : Combination) : List Record :=
  let agreeing := (db.rows j.occurrence.table).filter fun row =>
    Relation.eq.truth db (row j.column) (rows j.onto j.ontoColumn) = .yes
  if agreeing = [] then [.missing] else agreeing

/-- The combinations that a join makes of one. -/
def extend (db : Database) (j : Join) (rows : Combination) : List Combination :=
  (j.options db rows).map (Function.update rows j.occurrence)

variable {db : Database} {j : Join} {rows rows' : Combination}

theorem options_ne_nil (db : Database) (j : Join) (rows : Combination) :
    j.options db rows ≠ [] := by
  rw [options]
  split
  · exact List.cons_ne_nil _ _
  · assumption

/-- A join looks at the row of the occurrence only that it hangs off. -/
theorem options_congr (h : rows' j.onto = rows j.onto) :
    j.options db rows' = j.options db rows := by
  rw [options, options, h]

/-- A join puts the rows with an equal cell beside one whose cell is not null. -/
theorem options_eq (h : rows j.onto j.ontoColumn ≠ .null) : j.options db rows =
    if (db.rows j.occurrence.table).filter (fun row => row j.column = rows j.onto j.ontoColumn) = []
    then [.missing]
    else
      (db.rows j.occurrence.table).filter fun row => row j.column = rows j.onto j.ontoColumn := by
  have hagree : ∀ row : Record,
      Relation.eq.truth db (row j.column) (rows j.onto j.ontoColumn) = .yes ↔
        row j.column = rows j.onto j.ontoColumn := by
    intro row
    rw [relation_truth_eq_yes, Relation.relates, decide_eq_true_iff]
    constructor
    · rintro ⟨-, -, hsame⟩
      exact hsame
    · intro hsame
      exact ⟨hsame ▸ h, h, hsame⟩
  rw [options]
  simp only [hagree]

/-- The row without values is beside no row of which something else holds. -/
theorem exists_mem_or_missing {all : List Record} {P : Record → Prop} (hmissing : ¬ P .missing) :
    (∃ row ∈ if all = [] then [.missing] else all, P row) ↔ ∃ row ∈ all, P row := by
  split
  · rename_i hnone
    rw [hnone]
    constructor
    · rintro ⟨row, hrow, hP⟩
      rw [List.mem_singleton.1 hrow] at hP
      exact absurd hP hmissing
    · rintro ⟨row, hrow, -⟩
      cases hrow
  · exact Iff.rfl

theorem mem_extend : rows' ∈ j.extend db rows ↔
    ∃ row ∈ j.options db rows, Function.update rows j.occurrence row = rows' :=
  List.mem_map

theorem extend_ne_nil (db : Database) (j : Join) (rows : Combination) : j.extend db rows ≠ [] := by
  intro hnil
  exact options_ne_nil db j rows (List.map_eq_nil_iff.1 hnil)

end Join

/-! ## Joins one after the other -/

/-- The combinations that joins make of one. -/
def combinations (db : Database) (js : List Join) (rows : Combination) : List Combination :=
  js.foldl (fun cs j => cs.flatMap (j.extend db)) [rows]

section Combinations

variable {db : Database} {js : List Join} {start rows : Combination}

theorem combinations_concat (db : Database) (js : List Join) (j : Join) (start : Combination) :
    combinations db (js ++ [j]) start = (combinations db js start).flatMap (j.extend db) := by
  rw [combinations, List.foldl_append]
  rfl

theorem mem_combinations_concat {j : Join} : rows ∈ combinations db (js ++ [j]) start ↔
    ∃ rows' ∈ combinations db js start, ∃ row ∈ j.options db rows',
      Function.update rows' j.occurrence row = rows := by
  rw [combinations_concat, List.mem_flatMap]
  simp only [Join.mem_extend]

theorem combinations_ne_nil (db : Database) (js : List Join) (start : Combination) :
    combinations db js start ≠ [] := by
  induction js using List.reverseRecOn with
  | nil => exact List.cons_ne_nil _ _
  | append_singleton js j ih =>
    obtain ⟨rows, hrows⟩ := List.exists_mem_of_ne_nil _ ih
    obtain ⟨rows', hrows'⟩ := List.exists_mem_of_ne_nil _ (j.extend_ne_nil db rows)
    rw [combinations_concat]
    exact List.ne_nil_of_mem (List.mem_flatMap.2 ⟨rows, hrows, hrows'⟩)

/-- Joins leave the row at an occurrence alone that they do not join. -/
theorem apply_of_mem_combinations {o : Occurrence} (hjs : ∀ j ∈ js, j.occurrence ≠ o)
    (hrows : rows ∈ combinations db js start) : rows o = start o := by
  induction js using List.reverseRecOn generalizing rows with
  | nil => rw [List.mem_singleton.1 hrows]
  | append_singleton js j ih =>
    obtain ⟨rows', hrows', row, -, rfl⟩ := mem_combinations_concat.1 hrows
    have ho : o ≠ j.occurrence := (hjs j (List.mem_append_right _ (List.mem_singleton_self j))).symm
    rw [Function.update_of_ne ho]
    exact ih (fun j' hj' => hjs j' (List.mem_append_left _ hj')) hrows'

/-- The last of some joins puts the same rows beside all that the others have made, if they leave
alone what it hangs off. -/
theorem exists_mem_combinations_concat (db : Database) (start : Combination) {j : Join}
    (hjs : ∀ j' ∈ js, j'.occurrence ≠ j.onto) (P : Record → Prop) :
    (∃ rows ∈ combinations db (js ++ [j]) start, P (rows j.occurrence)) ↔
      ∃ row ∈ j.options db start, P row := by
  have hoptions : ∀ rows ∈ combinations db js start, j.options db rows = j.options db start :=
    fun rows hrows => Join.options_congr (apply_of_mem_combinations hjs hrows)
  constructor
  · rintro ⟨rows, hrows, hP⟩
    obtain ⟨rows', hrows', row, hrow, rfl⟩ := mem_combinations_concat.1 hrows
    rw [hoptions rows' hrows'] at hrow
    rw [Function.update_self] at hP
    exact ⟨row, hrow, hP⟩
  · rintro ⟨row, hrow, hP⟩
    obtain ⟨rows, hrows⟩ := List.exists_mem_of_ne_nil _ (combinations_ne_nil db js start)
    rw [← hoptions rows hrows] at hrow
    refine ⟨_, mem_combinations_concat.2 ⟨rows, hrows, row, hrow, rfl⟩, ?_⟩
    rw [Function.update_self]
    exact hP

end Combinations

/-! ## Statements -/

/-- The combination with a row of the main table alone. -/
def JoinPlan.alone (p : JoinPlan) (row : Record) : Combination :=
  Function.update (fun _ => .missing) p.main row

/-- Whether a statement returns a row of its main table: its condition is true of the row together
with one of those that the joins put beside it. -/
def Selection.returns (db : Database) (s : Selection) (row : Record) : Bool :=
  (combinations db s.joins.joins (s.joins.alone row)).any fun rows =>
    Piece.satisfied (Condition.holds db rows .missing) s.condition

@[simp] theorem JoinPlan.alone_main (p : JoinPlan) (row : Record) : p.alone row p.main = row :=
  Function.update_self _ _ _

theorem Selection.returns_iff {db : Database} {s : Selection} {row : Record} :
    s.returns db row = true ↔ ∃ rows ∈ combinations db s.joins.joins (s.joins.alone row),
      Piece.satisfied (Condition.holds db rows .missing) s.condition = true :=
  List.any_eq_true

end ArtifactQuery.Sql
