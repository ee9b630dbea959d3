/-!
# Paths of items

An item lies in a repository, at a path whose segments are separated by `/`. The database keeps the
folder and the name of an item apart; the folder of an item at the root of its repository is `.`
there.

* `RepoPath.ofColumns`: the path of an item from its stored folder and name.
* `RepoPath.folderAndName`: the stored folder and name of the item at a path.
-/

namespace ArtifactQuery

/-- The place of an item. -/
structure RepoPath where
  repo : String
  path : String
  deriving DecidableEq, Repr

namespace RepoPath

/-- The folder stored for items at the root of a repository. -/
def rootFolder : String := "."

/-- The path of the item that is stored with a folder and a name. Without a name it is the folder.
-/
def ofColumns (repo folder name : String) : RepoPath :=
  if folder = "" ∨ folder = rootFolder then ⟨repo, name⟩
  else if name = "" then ⟨repo, folder⟩
  else ⟨repo, folder ++ "/" ++ name⟩

/-- The folder and the name that are stored for the item: what stands in front of the last `/` and
what stands behind it. -/
def folderAndName (p : RepoPath) : String × String :=
  let cs := p.path.toList.reverse
  if '/' ∈ cs then
    (String.ofList ((cs.dropWhile (· ≠ '/')).drop 1).reverse,
     String.ofList (cs.takeWhile (· ≠ '/')).reverse)
  else (rootFolder, p.path)

/-- The path in messages. -/
def shown (p : RepoPath) : String := p.repo ++ ":" ++ p.path

end RepoPath

end ArtifactQuery
