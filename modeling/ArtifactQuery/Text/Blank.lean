import ArtifactQuery.Text.CharSet

/-!
# Blanks

The characters with the Unicode property White_Space, and texts without blanks at their ends.

* `isBlank c`: `c` is White_Space.
* `trim s`: `s` without the blanks before its first and after its last other character.
-/

namespace ArtifactQuery

/-- White_Space. -/
def blanks : CharSet :=
  [(9, 13), (32, 32), (133, 133), (160, 160), (5760, 5760), (8192, 8202), (8232, 8233),
   (8239, 8239), (8287, 8287), (12288, 12288)]

/-- Whether `c` is White_Space. -/
def isBlank (c : Char) : Bool := blanks.has c

/-- Drops the blanks at the front. -/
def trimFront (cs : List Char) : List Char := cs.dropWhile isBlank

/-- Drops the blanks at the back. -/
def trimBack (cs : List Char) : List Char := (cs.reverse.dropWhile isBlank).reverse

/-- Drops the blanks at both ends. -/
def trimChars (cs : List Char) : List Char := trimBack (trimFront cs)

/-- `trimChars` on a text. -/
def trim (s : String) : String := String.ofList (trimChars s.toList)

end ArtifactQuery
