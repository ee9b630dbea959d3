import ArtifactQuery.QueryError
import ArtifactQuery.Text.Segments

/-!
# Field paths

A field path names domains one after the other and a field of the last one, with dots between them.

* `FieldPath.walk`: the domains that segments lead through from a domain. A first segment that names
  the domain itself, and none of its sub-domains, is set aside.
* `FieldPath.resolve`: the field at a path.
* `FieldPath.resolveInclude`: the fields that an include names, a field, a domain, or all of a
  domain.
-/

namespace ArtifactQuery.FieldPath

/-- The domains that segments lead to, one edge of the graph for each. -/
def steps (d : Domain) : List String → Option (List Domain)
  | [] => some []
  | s :: rest => do
    let next ← d.sub? s
    let more ← steps next rest
    some (next :: more)

/-- The domains from `d` on that segments lead through. -/
def walk (d : Domain) (ss : List String) : Option (List Domain) :=
  match ss with
  | [] => some [d]
  | s :: rest =>
    if s = d.segment ∧ d.sub? s = none then (steps d rest).map (d :: ·)
    else (steps d ss).map (d :: ·)

/-- The domain at the end of a walk that started at `d`. -/
def owner (d : Domain) (path : List Domain) : Domain := path.getLast?.getD d

/-- The field named by the last of the segments, in the domain that the others lead to. -/
def resolve? (d : Domain) (ss : List String) : Option ResultField := do
  let path ← walk d ss.dropLast
  let f ← Field.named? (owner d path) (← ss.getLast?)
  some ⟨f, path⟩

/-- A path that leads to no field. -/
def unknown (path : String) : QueryError := .unknownField (.path path)

/-- The field at a path. -/
def resolve (d : Domain) (path : String) : Except QueryError ResultField :=
  match resolve? d (segments '.' path) with
  | some f => .ok f
  | none => .error (unknown path)

/-- Every field of the domain at the end of a walk. -/
def allOf (d : Domain) (path : List Domain) : List ResultField :=
  (Field.ofDomain (owner d path)).map (⟨·, path⟩)

/-- The default fields of the domain at the end of a walk. -/
def defaultsOf (d : Domain) (path : List Domain) : List ResultField :=
  (owner d path).defaults.map (⟨·, path⟩)

/-- The segments in front of a last segment `*`. -/
def beforeStar? (ss : List String) : Option (List String) :=
  if ss.getLast? = some "*" ∧ 1 < ss.length then some ss.dropLast else none

/-- The fields that an include names. -/
def resolveInclude (d : Domain) (path : String) : Except QueryError (List ResultField) :=
  let ss := segments '.' path
  if path = "*" then .ok (allOf d [d])
  else match beforeStar? ss with
    | some front => match walk d front with
      | some p => .ok (allOf d p)
      | none => .error (unknown path)
    | none => match resolve? d ss with
      | some f => .ok [f]
      | none => match walk d ss with
        | some p => if 1 < p.length then .ok (defaultsOf d p) else .error (unknown path)
        | none => .error (unknown path)

end ArtifactQuery.FieldPath
