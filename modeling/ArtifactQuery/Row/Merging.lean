import ArtifactQuery.Row.Basic

/-!
# Merging rows

A statement returns one row for every combination of related entities. Consecutive rows of one
entity are merged into a single row with all the related entities.

* `Row.sameEntity`: two rows agree on domain and values.
* `Row.merge`: a row with the related rows of another one folded in.
* `Merger`: a row that may still grow; `Merger.push` hands it out when a row of another entity
  arrives.
-/

namespace ArtifactQuery

namespace Row

/-- Whether two rows describe the same entity. -/
def sameEntity (r s : Row) : Bool := r.domain = s.domain ∧ r.values = s.values

mutual

/-- Folds the related rows of another row of the same entity into a row. -/
def merge (r : Row) : Row → Row
  | ⟨_, _, cs⟩ => { r with children := mergeAll r.children cs }

/-- Folds rows into others: each is merged into the first one of its entity, or comes last. -/
def mergeAll (rs : List Row) : List Row → List Row
  | [] => rs
  | c :: cs =>
    mergeAll ((changeFirst? (·.sameEntity c) (·.merge c) rs).getD (rs ++ [c])) cs

end

end Row

/-- The row that may still grow, if there is one. -/
structure Merger where
  pending : Option Row := none

namespace Merger

/-- Takes a row: it is merged into the pending one, or takes its place and sets it free. -/
def push (m : Merger) (r : Row) : Option Row × Merger :=
  match m.pending with
  | some p => if p.sameEntity r then (none, ⟨some (p.merge r)⟩) else (some p, ⟨some r⟩)
  | none => (none, ⟨some r⟩)

/-- Hands out the pending row. -/
def finish (m : Merger) : Option Row × Merger := (m.pending, {})

end Merger

end ArtifactQuery
