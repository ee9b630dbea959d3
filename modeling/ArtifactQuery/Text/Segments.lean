/-!
# Segments of a text

A text cut at every occurrence of a separator. Segments may be empty, so a text with `n` separators
has `n + 1` segments.

* `cutAt sep cs`: the segments of `cs`.
* `segments sep s`: the same on a text.
-/

namespace ArtifactQuery

/-- Puts `c` in front of the first segment. -/
def consToFirst (c : Char) : List (List Char) → List (List Char)
  | [] => [[c]]
  | s :: rest => (c :: s) :: rest

/-- Cuts at every `sep`. -/
def cutAt (sep : Char) : List Char → List (List Char)
  | [] => [[]]
  | c :: cs => if c = sep then [] :: cutAt sep cs else consToFirst c (cutAt sep cs)

/-- The segments of a text. -/
def segments (sep : Char) (s : String) : List String := (cutAt sep s.toList).map String.ofList

end ArtifactQuery
