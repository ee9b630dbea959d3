import ArtifactQuery.Text.Segments

/-!
# Where the program runs

* `Place`: the files and the environment that a run sees.
* `Directory.place`: a directory with some files and nothing else.
-/

namespace ArtifactQuery

/-- What a run sees of the machine. -/
structure Place where
  /-- The content of the file at a path. -/
  text? : String → Option String
  /-- Whether a database file can be opened or made at a path. -/
  opens : String → Bool
  environment : List (String × String)

/-- The path of a file in a directory. -/
def inDirectory (directory file : String) : String := directory ++ "/" ++ file

/-- A directory in which a program runs. -/
structure Directory where
  name : String
  files : List (String × String)

namespace Directory

/-- The segments of a path within the directory. -/
def within (d : Directory) (path : String) : List String :=
  let ss := (segments '/' path).filter fun s => s ≠ "" ∧ s ≠ "."
  if ss.head? = some d.name then ss.drop 1 else ss

/-- The content of a file. -/
def text? (d : Directory) (path : String) : Option String :=
  match d.within path with
  | [file] => d.files.lookup file
  | _ => none

/-- The directory as the place of a run. -/
def place (d : Directory) (environment : List (String × String)) : Place where
  text? := d.text?
  opens path := (d.within path).length = 1
  environment := environment

end Directory

end ArtifactQuery
