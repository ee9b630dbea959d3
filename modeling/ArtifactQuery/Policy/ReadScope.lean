import ArtifactQuery.Policy.Conjunction

/-!
# Readable repositories

* `ReadScope`: the repositories whose content may be read.
* `Query.within`: a query on items, properties or statistics restricted to these repositories. Where
  there are none, nothing is found.
-/

namespace ArtifactQuery

/-- The repositories whose content may be read. -/
inductive ReadScope
  | unrestricted
  | repos (keys : List String)
  deriving DecidableEq, Repr

/-- How a query reaches the repository of its items: the path and the occurrence read. -/
def Query.repoPlace? (q : Query) : Option (List Domain × Occurrence) :=
  match q.domain with
  | .items => some ([.items], .plain .nodes)
  | .properties => some ([.properties, .items], ⟨.nodes, q.unusedId⟩)
  | .statistics => some ([.statistics, .items], ⟨.nodes, q.unusedId⟩)
  | _ => none

/-- The elements that hold of items in the repositories `keys`. -/
def ReadScope.elements (d : Domain) (path : List Domain) (o : Occurrence) (keys : List String) :
    List Element :=
  if keys = [] then [.criterion (.never [d] (.plain d.table))]
  else Element.joined .or (keys.map fun k => .simple path .itemRepo o .equals (.text k))

/-- Restricts a query to what may be read. -/
def Query.within (q : Query) (s : ReadScope) : Query :=
  match s, q.repoPlace? with
  | .repos keys, some (path, o) => q.andAlso (ReadScope.elements q.domain path o keys)
  | _, _ => q

end ArtifactQuery
