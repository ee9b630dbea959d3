import ArtifactQuery.Domain

/-!
# Fields

Every field of a domain is stored in one column of one table.

* `Field.column`: where a field is stored, and under which names it is known.
* `Field.all`, `Field.ofDomain`, `Field.ofTable`: the fields in their registered order.
* `Field.named?`: the field of a domain with a given name.
* `Domain.defaults`: the fields that a query returns when it names none of its own domain.
* `Domain.keyAndValue?`: the two fields of a domain of properties.
-/

namespace ArtifactQuery

/-- How the values of a field read. -/
inductive FieldType
  | text
  | long
  | integer
  | date
  | itemType
  deriving DecidableEq, Repr

/-- A field that queries compare, sort by and return. -/
inductive Field
  | itemId
  | itemRepo
  | itemPath
  | itemName
  | itemType
  | itemDepth
  | itemCreated
  | itemCreatedBy
  | itemModified
  | itemModifiedBy
  | itemUpdated
  | itemSize
  | itemActualSha1
  | itemOriginalSha1
  | itemActualMd5
  | itemOriginalMd5
  | propertyKey
  | propertyValue
  | statDownloaded
  | statDownloads
  | statDownloadedBy
  | archiveEntryName
  | archiveEntryPath
  | artifactName
  | artifactType
  | artifactSha1
  | artifactMd5
  | dependencyName
  | dependencyScope
  | dependencyType
  | dependencySha1
  | dependencyMd5
  | moduleName
  | modulePropertyKey
  | modulePropertyValue
  | buildUrl
  | buildName
  | buildNumber
  | buildCreated
  | buildCreatedBy
  | buildModified
  | buildModifiedBy
  | buildPropertyKey
  | buildPropertyValue
  | buildPromotionCreated
  | buildPromotionCreatedBy
  | buildPromotionStatus
  | buildPromotionRepo
  | buildPromotionComment
  | buildPromotionUserName
  deriving DecidableEq, Repr

/-- Where a field is stored and how it is called. -/
structure Column where
  domain : Domain
  /-- The field's name within its domain, in queries and in JSON. -/
  name : String
  /-- The stem of its column aliases. -/
  label : String
  table : Table
  /-- The column's name in the database. -/
  column : String
  nullable : Bool
  type : FieldType
  deriving DecidableEq, Repr

namespace Field

/-- All fields, in registered order. -/
def all : List Field :=
  [itemId, itemRepo, itemPath, itemName, itemType, itemDepth, itemCreated, itemCreatedBy,
   itemModified, itemModifiedBy, itemUpdated, itemSize, itemActualSha1, itemOriginalSha1,
   itemActualMd5, itemOriginalMd5, propertyKey, propertyValue, statDownloaded, statDownloads,
   statDownloadedBy, archiveEntryName, archiveEntryPath, artifactName, artifactType, artifactSha1,
   artifactMd5, dependencyName, dependencyScope, dependencyType, dependencySha1, dependencyMd5,
   moduleName, modulePropertyKey, modulePropertyValue, buildUrl, buildName, buildNumber,
   buildCreated, buildCreatedBy, buildModified, buildModifiedBy, buildPropertyKey,
   buildPropertyValue, buildPromotionCreated, buildPromotionCreatedBy, buildPromotionStatus,
   buildPromotionRepo, buildPromotionComment, buildPromotionUserName]

/-- The column that stores a field. -/
def column : Field → Column
  | itemId => ⟨.items, "id", "itemId", .nodes, "node_id", false, .long⟩
  | itemRepo => ⟨.items, "repo", "itemRepo", .nodes, "repo", false, .text⟩
  | itemPath => ⟨.items, "path", "itemPath", .nodes, "node_path", false, .text⟩
  | itemName => ⟨.items, "name", "itemName", .nodes, "node_name", false, .text⟩
  | itemType => ⟨.items, "type", "itemType", .nodes, "node_type", false, .itemType⟩
  | itemDepth => ⟨.items, "depth", "itemDepth", .nodes, "depth", false, .integer⟩
  | itemCreated => ⟨.items, "created", "itemCreated", .nodes, "created", false, .date⟩
  | itemCreatedBy => ⟨.items, "created_by", "itemCreatedBy", .nodes, "created_by", true, .text⟩
  | itemModified => ⟨.items, "modified", "itemModified", .nodes, "modified", true, .date⟩
  | itemModifiedBy => ⟨.items, "modified_by", "itemModifiedBy", .nodes, "modified_by", true, .text⟩
  | itemUpdated => ⟨.items, "updated", "itemUpdated", .nodes, "updated", true, .date⟩
  | itemSize => ⟨.items, "size", "itemSize", .nodes, "bin_length", true, .long⟩
  | itemActualSha1 => ⟨.items, "actual_sha1", "itemActualSha1", .nodes, "sha1_actual", true, .text⟩
  | itemOriginalSha1 =>
    ⟨.items, "original_sha1", "itemOriginalSha1", .nodes, "sha1_original", true, .text⟩
  | itemActualMd5 => ⟨.items, "actual_md5", "itemActualMd5", .nodes, "md5_actual", true, .text⟩
  | itemOriginalMd5 =>
    ⟨.items, "original_md5", "itemOriginalMd5", .nodes, "md5_original", true, .text⟩
  | propertyKey => ⟨.properties, "key", "propertyKey", .nodeProps, "prop_key", false, .text⟩
  | propertyValue => ⟨.properties, "value", "propertyValue", .nodeProps, "prop_value", true, .text⟩
  | statDownloaded =>
    ⟨.statistics, "downloaded", "statDownloaded", .stats, "last_downloaded", true, .date⟩
  | statDownloads =>
    ⟨.statistics, "downloads", "statDownloads", .stats, "download_count", true, .long⟩
  | statDownloadedBy =>
    ⟨.statistics, "downloaded_by", "statDownloadedBy", .stats, "last_downloaded_by", true, .text⟩
  | archiveEntryName =>
    ⟨.entries, "name", "archiveEntryName", .archiveNames, "entry_name", false, .text⟩
  | archiveEntryPath =>
    ⟨.entries, "path", "archiveEntryPath", .archivePaths, "entry_path", false, .text⟩
  | artifactName =>
    ⟨.artifacts, "name", "artifactName", .buildArtifacts, "artifact_name", false, .text⟩
  | artifactType =>
    ⟨.artifacts, "type", "artifactType", .buildArtifacts, "artifact_type", true, .text⟩
  | artifactSha1 => ⟨.artifacts, "sha1", "artifactSha1", .buildArtifacts, "sha1", true, .text⟩
  | artifactMd5 => ⟨.artifacts, "md5", "artifactMd5", .buildArtifacts, "md5", true, .text⟩
  | dependencyName =>
    ⟨.dependencies, "name", "dependencyName",
     .buildDependencies, "dependency_name_id", false, .text⟩
  | dependencyScope =>
    ⟨.dependencies, "scope", "dependencyScope",
     .buildDependencies, "dependency_scopes", true, .text⟩
  | dependencyType =>
    ⟨.dependencies, "type", "dependencyType", .buildDependencies, "dependency_type", true, .text⟩
  | dependencySha1 =>
    ⟨.dependencies, "sha1", "dependencySha1", .buildDependencies, "sha1", true, .text⟩
  | dependencyMd5 => ⟨.dependencies, "md5", "dependencyMd5", .buildDependencies, "md5", true, .text⟩
  | moduleName => ⟨.modules, "name", "moduleName", .buildModules, "module_name_id", false, .text⟩
  | modulePropertyKey =>
    ⟨.moduleProperties, "key", "modulePropertyKey", .moduleProps, "prop_key", false, .text⟩
  | modulePropertyValue =>
    ⟨.moduleProperties, "value", "modulePropertyValue", .moduleProps, "prop_value", true, .text⟩
  | buildUrl => ⟨.builds, "url", "buildUrl", .builds, "ci_url", true, .text⟩
  | buildName => ⟨.builds, "name", "buildName", .builds, "build_name", false, .text⟩
  | buildNumber => ⟨.builds, "number", "buildNumber", .builds, "build_number", false, .text⟩
  | buildCreated => ⟨.builds, "created", "buildCreated", .builds, "created", false, .date⟩
  | buildCreatedBy => ⟨.builds, "created_by", "buildCreatedBy", .builds, "created_by", true, .text⟩
  | buildModified => ⟨.builds, "modified", "buildModified", .builds, "modified", true, .date⟩
  | buildModifiedBy =>
    ⟨.builds, "modified_by", "buildModifiedBy", .builds, "modified_by", true, .text⟩
  | buildPropertyKey =>
    ⟨.buildProperties, "key", "buildPropertyKey", .buildProps, "prop_key", false, .text⟩
  | buildPropertyValue =>
    ⟨.buildProperties, "value", "buildPropertyValue", .buildProps, "prop_value", true, .text⟩
  | buildPromotionCreated =>
    ⟨.buildPromotions, "created", "buildPromotionCreated",
     .buildPromotions, "created", false, .date⟩
  | buildPromotionCreatedBy =>
    ⟨.buildPromotions, "created_by", "buildPromotionCreatedBy",
     .buildPromotions, "created_by", true, .text⟩
  | buildPromotionStatus =>
    ⟨.buildPromotions, "status", "buildPromotionStatus", .buildPromotions, "status", false, .text⟩
  | buildPromotionRepo =>
    ⟨.buildPromotions, "repo", "buildPromotionRepo", .buildPromotions, "repo", true, .text⟩
  | buildPromotionComment =>
    ⟨.buildPromotions, "comment", "buildPromotionComment",
     .buildPromotions, "promotion_comment", true, .text⟩
  | buildPromotionUserName =>
    ⟨.buildPromotions, "user_name", "buildPromotionUserName",
     .buildPromotions, "ci_user", true, .text⟩

/-- The domain whose field this is. -/
def domain (f : Field) : Domain := f.column.domain

/-- The field's name within its domain. -/
def name (f : Field) : String := f.column.name

/-- The name that tells the field from those of other domains as well. -/
def identifier (f : Field) : String := f.column.label.capitalize

/-- The fields of a domain. -/
def ofDomain (d : Domain) : List Field := all.filter (·.domain = d)

/-- The fields stored in a table. -/
def ofTable (t : Table) : List Field := all.filter (·.column.table = t)

/-- The field of `d` called `n`. -/
def named? (d : Domain) (n : String) : Option Field := all.find? fun f => f.domain = d ∧ f.name = n

end Field

namespace Domain

/-- The fields returned when a query names no field of its main domain. -/
def defaults : Domain → List Field
  | items =>
    [.itemRepo, .itemPath, .itemName, .itemType, .itemSize, .itemCreated, .itemCreatedBy,
     .itemModified, .itemModifiedBy, .itemUpdated]
  | properties => [.propertyKey, .propertyValue]
  | statistics => [.statDownloaded, .statDownloads, .statDownloadedBy]
  | archives => []
  | entries => [.archiveEntryName, .archiveEntryPath]
  | artifacts => [.artifactName, .artifactType, .artifactSha1, .artifactMd5]
  | dependencies =>
    [.dependencyName, .dependencyScope, .dependencyType, .dependencySha1, .dependencyMd5]
  | modules => [.moduleName]
  | moduleProperties => [.modulePropertyKey, .modulePropertyValue]
  | builds =>
    [.buildUrl, .buildName, .buildNumber, .buildCreated, .buildCreatedBy, .buildModified,
     .buildModifiedBy]
  | buildProperties => [.buildPropertyKey, .buildPropertyValue]
  | buildPromotions =>
    [.buildPromotionCreated, .buildPromotionCreatedBy, .buildPromotionStatus, .buildPromotionRepo,
     .buildPromotionComment, .buildPromotionUserName]

/-- The key and the value field of a domain of properties. -/
def keyAndValue? : Domain → Option (Field × Field)
  | properties => some (.propertyKey, .propertyValue)
  | moduleProperties => some (.modulePropertyKey, .modulePropertyValue)
  | buildProperties => some (.buildPropertyKey, .buildPropertyValue)
  | _ => none

end Domain

end ArtifactQuery
