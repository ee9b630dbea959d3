/-!
# Wildcard patterns

In a pattern `*` stands for any run of characters, `?` for one character and every other character
for itself. Neither wildcard stands for a line feed.

* `Wildcard.fits p t`: the text `t` fits the pattern `p`.
* `Wildcard.toLike p`: the pattern in the notation of SQL `like`, where `%` is a run and `_` one
  character.
-/

namespace ArtifactQuery.Wildcard

/-- What a run can leave of `cs`: `cs` itself, and what is left after each character before a line
feed. -/
def afterRun : List Char → List (List Char)
  | [] => [[]]
  | c :: cs => (c :: cs) :: if c = '\n' then [] else afterRun cs

/-- Whether the characters `t` fit the pattern. -/
def fits : List Char → List Char → Bool
  | [], t => t.isEmpty
  | p :: ps, t =>
    if p = '*' then (afterRun t).any (fits ps)
    else match t with
      | [] => false
      | c :: cs => (if p = '?' then c ≠ '\n' else c = p) && fits ps cs

/-- Whether a text fits a pattern. -/
def fitsText (pattern text : String) : Bool := fits pattern.toList text.toList

/-- One character of a pattern in `like` notation. -/
def likeChar (c : Char) : Char := if c = '*' then '%' else if c = '?' then '_' else c

/-- A pattern in `like` notation. -/
def toLike (pattern : String) : String := pattern.map likeChar

end ArtifactQuery.Wildcard
