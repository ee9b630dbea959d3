import ArtifactQuery.Action
import ArtifactQuery.Row.Merging

/-!
# From cells to rows

* `Plan`: what is known of a result before it is read, its domain, its fields and the action on its
  rows.
* `Plan.assemble`: the row of the cells that one read yields. Cells behind the last field are left
  out; with fewer cells than fields there is no row.
-/

namespace ArtifactQuery

/-- What is known of a result before it is read. -/
structure Plan where
  domain : Domain
  /-- The fields that the cells of a row belong to. -/
  fields : List ResultField
  action : Action
  deriving DecidableEq, Repr

/-- Puts a cell where its field belongs. -/
def Row.place (r : Row) (f : ResultField) (c : Cell) : Row :=
  r.setAt f.field (Value.ofCell f.field.column.type c) (f.path.drop 1)

/-- The row of the cells that one read yields. -/
def Plan.assemble (p : Plan) (cells : List Cell) : Except RunError Row :=
  if cells.length < p.fields.length then
    .error (.execution (.tooFewColumns p.fields.length cells.length))
  else
    let empty : Row := { domain := p.domain }
    .ok ((p.fields.zip cells).foldl (fun r c => r.place c.1 c.2) empty).pruned

end ArtifactQuery
