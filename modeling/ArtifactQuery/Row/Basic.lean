import ArtifactQuery.Row.Cell
import ArtifactQuery.Row.RepoPath

/-!
# Rows

A row holds the values of an entity of one domain, and below it the rows of related entities.

* `Row.set`, `Row.get?`: the value of a field.
* `Row.setAt`: the value of a field of a related entity, at the end of a path of domains.
* `Row.pruned`: the row without related rows that hold nothing.
* `Row.repoPath?`: the place of an item, if the row holds it.
* `Row.json`: a row as a JSON object.
-/

namespace ArtifactQuery

/-- The values of an entity, and the rows of related entities. -/
structure Row where
  domain : Domain
  values : List (Field × Value) := []
  children : List Row := []

/-- Changes the first element that satisfies `p`, if there is one. -/
def changeFirst? {α : Type} (p : α → Bool) (f : α → α) : List α → Option (List α)
  | [] => none
  | a :: as => if p a then some (f a :: as) else (changeFirst? p f as).map (a :: ·)

/-- Changes the last element that satisfies `p`, if there is one. -/
def changeLast? {α : Type} (p : α → Bool) (f : α → α) (as : List α) : Option (List α) :=
  (changeFirst? p f as.reverse).map List.reverse

namespace Row

/-- Gives a field a value: the one it has is replaced, otherwise the field comes last. -/
def set (f : Field) (v : Value) (r : Row) : Row :=
  let replaced := changeFirst? (·.1 = f) (fun _ => (f, v)) r.values
  { r with values := replaced.getD (r.values ++ [(f, v)]) }

/-- The value of a field. -/
def get? (r : Row) (f : Field) : Option Value := r.values.lookup f

/-- The content of a field that holds a text. -/
def text? (r : Row) (f : Field) : Option String := (r.get? f).bind Value.text?

/-- The number in a field. -/
def number? (r : Row) (f : Field) : Option Int := (r.get? f).bind Value.number?

/-- The milliseconds of the date in a field. -/
def instant? (r : Row) (f : Field) : Option Int := (r.get? f).bind Value.instant?

/-- What the item is, if the row says so. -/
def itemType? (r : Row) : Option ItemType :=
  match r.get? .itemType with
  | some (.itemType t) => some t
  | _ => none

/-- The related rows of a domain. -/
def childrenOf (r : Row) (d : Domain) : List Row := r.children.filter (·.domain = d)

/-- Adds a related row behind the others. -/
def addChild (r child : Row) : Row := { r with children := r.children ++ [child] }

/-- Keeps the related rows that satisfy `p`. -/
def keepChildren (r : Row) (p : Row → Bool) : Row := { r with children := r.children.filter p }

/-- Gives a field of the row at the end of a path a value. On the way, the last related row of a
domain is taken, or a new one. -/
def setAt (f : Field) (v : Value) : List Domain → Row → Row
  | [], r => r.set f v
  | d :: path, r =>
    let added := r.children ++ [setAt f v path { domain := d }]
    { r with children := (changeLast? (·.domain = d) (setAt f v path) r.children).getD added }

/-- The place of the item, if the row is an item's and holds repository, folder and name as texts.
-/
def repoPath? (r : Row) : Option RepoPath := do
  if r.domain ≠ .items then none else pure ()
  let repo ← r.text? .itemRepo
  let folder ← r.text? .itemPath
  let name ← r.text? .itemName
  return .ofColumns repo folder name

/-- Whether the row holds nothing: no value but null, and no related rows. -/
def isEmpty (r : Row) : Bool := r.values.all (·.2 = .null) && r.children.isEmpty

mutual

/-- The row without related rows that hold nothing, at any depth. -/
def pruned : Row → Row
  | ⟨d, vs, cs⟩ => ⟨d, vs, prunedAll cs⟩

/-- The rows that hold something, each pruned. -/
def prunedAll : List Row → List Row
  | [] => []
  | c :: cs => if c.pruned.isEmpty then prunedAll cs else c.pruned :: prunedAll cs

end

/-- The entries of the values; a later value under the same name replaces an earlier one. -/
def valueEntries (vs : List (Field × Value)) : List (String × Json) :=
  vs.foldl (fun es v => Json.put v.1.name v.2.json es) []

/-- Adds `item` to the array under a key. Anything else under this key stays as it is. -/
def putInArray (key : String) (item : Json) (es : List (String × Json)) : List (String × Json) :=
  match Json.get? key es with
  | none => Json.put key (.array [item]) es
  | some (.array items) => Json.put key (.array (items ++ [item])) es
  | some _ => es

mutual

/-- The row as a JSON object with ascending keys: its values under their names, and its related rows
in arrays under the names of their domains. -/
def json : Row → Json
  | ⟨_, vs, cs⟩ => .object (childEntries (valueEntries vs) cs)

/-- Adds the entries of related rows. -/
def childEntries (es : List (String × Json)) : List Row → List (String × Json)
  | [] => es
  | c :: cs => childEntries (putInArray c.domain.plural c.json es) cs

end

end Row

end ArtifactQuery
