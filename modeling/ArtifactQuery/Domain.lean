import ArtifactQuery.Schema.Table

/-!
# Domains

A query searches one domain, and reaches the fields of related domains by walking the graph of
sub-domains, for instance from items through archives to entries.

* `Domain.ofName?`: the domain that a textual query starts with.
* `Domain.segment`, `Domain.plural`, `Domain.identifier`: its names in paths, in messages and in
  listings.
* `Domain.subs`, `Domain.sub?`: the edges of the graph, each named by the segment of its end.
* `Domain.table`: the table that holds the rows of a domain.
* `Domain.properties?`: the domain that `@key` searches.
-/

namespace ArtifactQuery

/-- What a query searches. -/
inductive Domain
  | items
  | properties
  | statistics
  | archives
  | entries
  | artifacts
  | dependencies
  | modules
  | moduleProperties
  | builds
  | buildProperties
  | buildPromotions
  deriving DecidableEq, Repr

namespace Domain

/-- All domains. -/
def all : List Domain :=
  [items, properties, statistics, archives, entries, artifacts, dependencies, modules,
   moduleProperties, builds, buildProperties, buildPromotions]

/-- The domain named at the start of a textual query. Archives have no such name. -/
def ofName? : String → Option Domain
  | "items" => some items
  | "properties" => some properties
  | "stats" => some statistics
  | "archive.entries" | "entries" => some entries
  | "artifacts" => some artifacts
  | "dependencies" => some dependencies
  | "modules" => some modules
  | "module.properties" => some moduleProperties
  | "builds" => some builds
  | "build.properties" => some buildProperties
  | "build.promotions" => some buildPromotions
  | _ => none

/-- The domain's name as a segment of a field path. -/
def segment : Domain → String
  | items => "item"
  | properties => "property"
  | statistics => "stat"
  | archives => "archive"
  | entries => "entry"
  | artifacts => "artifact"
  | dependencies => "dependency"
  | modules => "module"
  | moduleProperties => "property"
  | builds => "build"
  | buildProperties => "property"
  | buildPromotions => "promotion"

/-- The domain's name in messages, and the key of its nested rows in JSON. -/
def plural : Domain → String
  | items => "items"
  | properties => "properties"
  | statistics => "stats"
  | archives => "archives"
  | entries => "entries"
  | artifacts => "artifacts"
  | dependencies => "dependencies"
  | modules => "modules"
  | moduleProperties => "properties"
  | builds => "builds"
  | buildProperties => "properties"
  | buildPromotions => "promotions"

/-- The name that tells the domain from all others. -/
def identifier : Domain → String
  | items => "items"
  | properties => "properties"
  | statistics => "statistics"
  | archives => "archives"
  | entries => "entries"
  | artifacts => "artifacts"
  | dependencies => "dependencies"
  | modules => "modules"
  | moduleProperties => "module_properties"
  | builds => "builds"
  | buildProperties => "build_properties"
  | buildPromotions => "build_promotions"

/-- The domains one edge away. -/
def subs : Domain → List Domain
  | items => [properties, statistics, archives, artifacts, dependencies]
  | properties => [items]
  | statistics => [items]
  | archives => [items, entries]
  | entries => [archives]
  | artifacts => [items, modules]
  | dependencies => [items, modules]
  | modules => [artifacts, dependencies, builds, moduleProperties]
  | moduleProperties => [modules]
  | builds => [modules, buildProperties, buildPromotions]
  | buildProperties => [builds]
  | buildPromotions => [builds]

/-- The domain one edge away whose segment is `s`. -/
def sub? (d : Domain) (s : String) : Option Domain := d.subs.find? (·.segment = s)

/-- The table of the domain's rows. -/
def table : Domain → Table
  | items => .nodes
  | properties => .nodeProps
  | statistics => .stats
  | archives => .indexedArchives
  | entries => .indexedArchivesEntries
  | artifacts => .buildArtifacts
  | dependencies => .buildDependencies
  | modules => .buildModules
  | moduleProperties => .moduleProps
  | builds => .builds
  | buildProperties => .buildProps
  | buildPromotions => .buildPromotions

/-- The domain that `@key` searches. -/
def properties? : Domain → Option Domain
  | items | properties => some properties
  | modules | moduleProperties => some moduleProperties
  | builds | buildProperties => some buildProperties
  | _ => none

/-- Whether the rows of the domain are properties. -/
def holdsProperties : Domain → Bool
  | properties | moduleProperties | buildProperties => true
  | _ => false

end Domain

/-- The tables passed on the way along `path` to a field stored in `t`. -/
def tableChain (path : List Domain) (t : Table) : List Table :=
  let chain := path.map Domain.table
  if chain.getLast? = some t then chain else chain ++ [t]

end ArtifactQuery
