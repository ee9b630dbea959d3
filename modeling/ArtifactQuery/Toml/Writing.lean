import ArtifactQuery.Toml.Basic

/-!
# Writing TOML texts

A text is written in the first of several ways that suits it: in double quotes if nothing has to be
escaped, between apostrophes, in triple quotes, and with escapes only if nothing else will do.

* `Toml.quote`: the text in quotes.
-/

namespace ArtifactQuery.Toml

/-- Whether a character has to be escaped in any text with quotes: a control character, but neither
the tab nor the line feed. -/
def isControl (c : Char) : Bool :=
  (c.toNat < 32 || c.toNat = 127) && c ≠ '\t' && c ≠ '\n'

/-- The longest run of a character. -/
def longestRun (q : Char) (cs : List Char) : Nat :=
  (cs.foldl (fun (s : Nat × Nat) c =>
    if c = q then (s.1 + 1, max s.2 (s.1 + 1)) else (0, s.2)) (0, 0)).2

/-- A digit of a hexadecimal number. -/
def hexDigit (n : Nat) : Char := Char.ofNat (if n < 10 then 48 + n else 55 + n)

/-- The escape of a character that needs one, whatever the quotes. -/
def escape (c : Char) : Option (List Char) :=
  if c = '\x08' then some ['\\', 'b']
  else if c = '\t' then some ['\\', 't']
  else if c = '\x0c' then some ['\\', 'f']
  else if c = '\r' then some ['\\', 'r']
  else if c = '\\' then some ['\\', '\\']
  else if isControl c then
    some ['\\', 'u', '0', '0', hexDigit (c.toNat / 16), hexDigit (c.toNat % 16)]
  else none

/-- The content of double quotes, on one line. -/
def basicBody (cs : List Char) : List Char :=
  cs.flatMap fun c =>
    if c = '"' then ['\\', '"'] else if c = '\n' then ['\\', 'n'] else (escape c).getD [c]

/-- The content of triple double quotes. Of a run of quotes every third one is escaped; `run` of
them stand in front. -/
def basicLinesBody (run : Nat) : List Char → List Char
  | [] => []
  | c :: cs =>
    if c = '"' then
      if run = 2 then '\\' :: '"' :: basicLinesBody 0 cs else '"' :: basicLinesBody (run + 1) cs
    else (escape c).getD [c] ++ basicLinesBody 0 cs

/-- A text in double quotes. -/
def basicQuoted (cs : List Char) : List Char := '"' :: basicBody cs ++ ['"']

/-- The line end behind the opening quotes of a text with several lines. A reader drops it. -/
def firstLineEnd (cs : List Char) : List Char := if '\n' ∈ cs then ['\n'] else []

/-- A text in triple double quotes. -/
def basicLinesQuoted (cs : List Char) : List Char :=
  ['"', '"', '"'] ++ firstLineEnd cs ++ basicLinesBody 0 cs ++ ['"', '"', '"']

/-- A text between apostrophes. -/
def literalQuoted (cs : List Char) : List Char := '\'' :: cs ++ ['\'']

/-- A text between triple apostrophes. -/
def literalLinesQuoted (cs : List Char) : List Char :=
  ['\'', '\'', '\''] ++ firstLineEnd cs ++ cs ++ ['\'', '\'', '\'']

/-- A text in quotes, in the first way that suits it. -/
def quoteChars (cs : List Char) : List Char :=
  let controls := cs.any isControl
  let backslashes := decide ('\\' ∈ cs)
  let lines := decide ('\n' ∈ cs)
  let doubles := longestRun '"' cs
  let singles := longestRun '\'' cs
  if ¬ controls ∧ ¬ backslashes ∧ doubles = 0 ∧ ¬ lines then basicQuoted cs
  else if ¬ controls ∧ singles = 0 ∧ ¬ lines then literalQuoted cs
  else if ¬ controls ∧ ¬ backslashes ∧ doubles ≤ 2 then basicLinesQuoted cs
  else if ¬ controls ∧ singles ≤ 2 then literalLinesQuoted cs
  else if lines then basicLinesQuoted cs
  else basicQuoted cs

/-- A text in quotes. -/
def quote (s : String) : String := String.ofList (quoteChars s.toList)

end ArtifactQuery.Toml
