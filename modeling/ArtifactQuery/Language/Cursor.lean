import ArtifactQuery.Language.Statement

/-!
# Walking phrases

A position among the phrases of a query, which may move past the last one.

* `PhraseCursor.current?`, `PhraseCursor.ahead?`: the phrase here, and the one some steps further
  on.
* `PhraseCursor.advance`, `PhraseCursor.restart`: the moves.
-/

namespace ArtifactQuery

/-- A position among phrases. -/
structure PhraseCursor where
  phrases : List Phrase
  position : Nat := 0

namespace PhraseCursor

/-- Whether a phrase is here. -/
def hasNext (c : PhraseCursor) : Bool := c.position < c.phrases.length

/-- The phrase `n` steps further on. -/
def ahead? (c : PhraseCursor) (n : Nat) : Option Phrase := c.phrases[c.position + n]?

/-- The phrase here. -/
def current? (c : PhraseCursor) : Option Phrase := c.ahead? 0

/-- Moves on by `n` steps. -/
def advance (c : PhraseCursor) (n : Nat) : PhraseCursor := { c with position := c.position + n }

/-- Moves to the first phrase. -/
def restart (c : PhraseCursor) : PhraseCursor := { c with position := 0 }

end PhraseCursor

end ArtifactQuery
