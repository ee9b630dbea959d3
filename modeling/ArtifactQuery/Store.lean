import ArtifactQuery.RunError

/-!
# Stored items

The items of a host that keeps them in its own tables, and the two changes that actions make.

* `Store.find?`: the item at a path; of several the one with the least number.
* `Store.undeploy`: removes an item with its properties and its statistics.
* `Store.edit`: sets the properties of an item that have a key. No property is added.
-/

namespace ArtifactQuery

/-- An item. -/
structure StoredItem where
  id : Int
  repo : String
  folder : String
  name : String
  deriving DecidableEq, Repr

/-- A property of an item. -/
structure StoredProperty where
  item : Int
  key : String
  value : Option String
  deriving DecidableEq, Repr

/-- The downloads of an item. -/
structure StoredStatistics where
  item : Int
  downloads : Int
  deriving DecidableEq, Repr

/-- The tables. -/
structure Store where
  items : List StoredItem
  properties : List StoredProperty
  statistics : List StoredStatistics
  deriving DecidableEq, Repr

namespace Store

/-- Whether an item is stored at a path. -/
def isAt (p : RepoPath) (i : StoredItem) : Bool :=
  i.repo = p.repo ∧ (i.folder, i.name) = p.folderAndName

/-- The number of the item at a path. -/
def find? (s : Store) (p : RepoPath) : Option Int := ((s.items.filter (isAt p)).map (·.id)).min?

/-- The store without an item, its properties and its statistics. -/
def without (s : Store) (id : Int) : Store where
  items := s.items.filter (·.id ≠ id)
  properties := s.properties.filter (·.item ≠ id)
  statistics := s.statistics.filter (·.item ≠ id)

/-- Removes the item at a path. -/
def undeploy (s : Store) (p : RepoPath) : Except MutationFailure Store :=
  match s.find? p with
  | some id => .ok (s.without id)
  | none => .error (.itemNotFound p)

/-- Sets the properties of the item at a path that have the key. -/
def edit (s : Store) (p : RepoPath) (key : String) (value : Option String) :
    Except RunError Store :=
  match s.find? p with
  | some id =>
    let change (q : StoredProperty) :=
      if q.item = id ∧ q.key = key then { q with value := value } else q
    .ok { s with properties := s.properties.map change }
  | none => .error (.execution (.itemNotFound p))

end Store

end ArtifactQuery
