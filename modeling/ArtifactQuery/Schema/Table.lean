/-!
# Tables

The tables that queries read, and the occurrences of a table in one statement.

* `Table.name`, `Table.aliasStem`: the name in the database and the stem of its aliases.
* `Table.link?`: the columns on which two tables are joined.
* `Occurrence.name`: the name of one occurrence of a table; number 0 has the bare stem.
* `firstDynamicId`: occurrences numbered from here on belong to criteria.
* `idCount`: how many numbers there are.
-/

namespace ArtifactQuery

/-- A table of the database. -/
inductive Table
  | nodes
  | nodeProps
  | stats
  | indexedArchives
  | indexedArchivesEntries
  | archivePaths
  | archiveNames
  | buildArtifacts
  | buildDependencies
  | buildModules
  | moduleProps
  | builds
  | buildProps
  | buildPromotions
  deriving DecidableEq, Repr

namespace Table

/-- All tables. -/
def all : List Table :=
  [nodes, nodeProps, stats, indexedArchives, indexedArchivesEntries, archivePaths, archiveNames,
   buildArtifacts, buildDependencies, buildModules, moduleProps, builds, buildProps,
   buildPromotions]

/-- The table's name in the database. -/
def name : Table → String
  | nodes => "nodes"
  | nodeProps => "node_props"
  | stats => "stats"
  | indexedArchives => "indexed_archives"
  | indexedArchivesEntries => "indexed_archives_entries"
  | archivePaths => "archive_paths"
  | archiveNames => "archive_names"
  | buildArtifacts => "build_artifacts"
  | buildDependencies => "build_dependencies"
  | buildModules => "build_modules"
  | moduleProps => "module_props"
  | builds => "builds"
  | buildProps => "build_props"
  | buildPromotions => "build_promotions"

/-- The stem of the table's aliases. -/
def aliasStem : Table → String
  | nodes => "n"
  | nodeProps => "np"
  | stats => "s"
  | indexedArchives => "ia"
  | indexedArchivesEntries => "iae"
  | archivePaths => "ap"
  | archiveNames => "an"
  | buildArtifacts => "ba"
  | buildDependencies => "bd"
  | buildModules => "bm"
  | moduleProps => "mp"
  | builds => "b"
  | buildProps => "bp"
  | buildPromotions => "bpr"

/-- Whether the table holds keys and values, searched by `@key`. -/
def holdsProperties : Table → Bool
  | nodeProps | moduleProps | buildProps => true
  | _ => false

/-- The table whose rows carry the properties of a property table. -/
def propertyOwner : Table → Table
  | moduleProps => buildModules
  | buildProps => builds
  | _ => nodes

end Table

/-- Two tables and the columns on which their rows belong together. -/
structure Link where
  first : Table
  firstColumn : String
  second : Table
  secondColumn : String
  deriving DecidableEq, Repr

/-- The links of the schema; each may be followed either way. -/
def Link.all : List Link :=
  [⟨.nodes, "node_id", .nodeProps, "node_id"⟩,
   ⟨.nodes, "node_id", .stats, "node_id"⟩,
   ⟨.nodes, "sha1_actual", .indexedArchives, "archive_sha1"⟩,
   ⟨.nodes, "sha1_actual", .buildArtifacts, "sha1"⟩,
   ⟨.nodes, "sha1_actual", .buildDependencies, "sha1"⟩,
   ⟨.indexedArchives, "indexed_archives_id", .indexedArchivesEntries, "indexed_archives_id"⟩,
   ⟨.indexedArchivesEntries, "entry_path_id", .archivePaths, "path_id"⟩,
   ⟨.indexedArchivesEntries, "entry_name_id", .archiveNames, "name_id"⟩,
   ⟨.buildArtifacts, "module_id", .buildModules, "module_id"⟩,
   ⟨.buildDependencies, "module_id", .buildModules, "module_id"⟩,
   ⟨.buildModules, "build_id", .builds, "build_id"⟩,
   ⟨.buildModules, "module_id", .moduleProps, "module_id"⟩,
   ⟨.builds, "build_id", .buildProps, "build_id"⟩,
   ⟨.builds, "build_id", .buildPromotions, "build_id"⟩]

/-- The columns of `a` and of `b` on which the link joins them, if it is between the two. -/
def Link.columns? (l : Link) (a b : Table) : Option (String × String) :=
  if l.first = a ∧ l.second = b then some (l.firstColumn, l.secondColumn)
  else if l.second = a ∧ l.first = b then some (l.secondColumn, l.firstColumn)
  else none

/-- The columns of `a` and of `b` on which the two tables are joined. -/
def Table.link? (a b : Table) : Option (String × String) := Link.all.findSome? (·.columns? a b)

/-- The number of the first occurrence that belongs to a criterion. -/
def firstDynamicId : Nat := 100

/-- How many numbers occurrences can have, in 32 bits. A query takes at most one for each phrase
that it is written in, from `firstDynamicId` on. Drafts count them without this bound, which only a
query of some `idCount - firstDynamicId` phrases would reach. -/
def idCount : Nat := 4294967296

/-- One occurrence of a table in a statement. -/
structure Occurrence where
  table : Table
  id : Nat
  deriving DecidableEq, Repr

namespace Occurrence

/-- The occurrence without a number. -/
def plain (t : Table) : Occurrence := ⟨t, 0⟩

/-- The name under which the statement refers to the occurrence. -/
def name (o : Occurrence) : String :=
  if o.id = 0 then o.table.aliasStem else o.table.aliasStem ++ toString o.id

/-- Whether the occurrence belongs to a criterion. -/
def isDynamic (o : Occurrence) : Bool := firstDynamicId ≤ o.id

end Occurrence

end ArtifactQuery
