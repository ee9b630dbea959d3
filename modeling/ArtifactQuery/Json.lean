/-!
# JSON

JSON values without fractions, and their two written forms.

* `Json.compact`: the form without blanks.
* `Json.pretty`: the form with one entry a line, indented by two blanks a level.
* `Json.put`: an entry in an object whose keys ascend; an entry with the same key is replaced.
-/

namespace ArtifactQuery

/-- A JSON value. -/
inductive Json
  | null
  | bool (b : Bool)
  | int (n : Int)
  | text (s : String)
  | array (items : List Json)
  | object (entries : List (String × Json))
  deriving Inhabited

namespace Json

/-- The digit for a number below sixteen. -/
def hexDigit (n : Nat) : Char := Char.ofNat (if n < 10 then 48 + n else 87 + n)

/-- A character as it stands between quotes. -/
def escaped (c : Char) : List Char :=
  if c = '"' then ['\\', '"']
  else if c = '\\' then ['\\', '\\']
  else if c = '\n' then ['\\', 'n']
  else if c = '\r' then ['\\', 'r']
  else if c = '\t' then ['\\', 't']
  else if c = '\x08' then ['\\', 'b']
  else if c = '\x0c' then ['\\', 'f']
  else if c.toNat < 32 then ['\\', 'u', '0', '0', hexDigit (c.toNat / 16), hexDigit (c.toNat % 16)]
  else [c]

/-- A text in quotes. -/
def quote (s : String) : String := "\"" ++ String.ofList (s.toList.flatMap escaped) ++ "\""

mutual

/-- The form without blanks. -/
def compact : Json → String
  | null => "null"
  | bool b => if b then "true" else "false"
  | int n => toString n
  | text s => quote s
  | array xs => "[" ++ compactItems "" xs ++ "]"
  | object es => "\x7b" ++ compactEntries "" es ++ "\x7d"

/-- Values with commas between them; `before` stands in front of the first. -/
def compactItems (before : String) : List Json → String
  | [] => ""
  | x :: xs => before ++ compact x ++ compactItems "," xs

/-- Entries with commas between them; `before` stands in front of the first. -/
def compactEntries (before : String) : List (String × Json) → String
  | [] => ""
  | (k, v) :: es => before ++ quote k ++ ":" ++ compact v ++ compactEntries "," es

end

/-- A new line at a level of indentation. -/
def newLine (level : Nat) : String := "\n" ++ String.ofList (List.replicate (2 * level) ' ')

mutual

/-- The indented form of a value that starts at `level`. -/
def prettyAt (level : Nat) : Json → String
  | array (x :: xs) =>
    "[" ++ newLine (level + 1) ++ prettyAt (level + 1) x ++ prettyItems (level + 1) xs ++
      newLine level ++ "]"
  | object ((k, v) :: es) =>
    "\x7b" ++ newLine (level + 1) ++ quote k ++ ": " ++ prettyAt (level + 1) v ++
      prettyEntries (level + 1) es ++ newLine level ++ "\x7d"
  | array [] => "[]"
  | object [] => "\x7b\x7d"
  | null => "null"
  | bool b => if b then "true" else "false"
  | int n => toString n
  | text s => quote s

/-- Values, each behind a comma on a new line. -/
def prettyItems (level : Nat) : List Json → String
  | [] => ""
  | x :: xs => "," ++ newLine level ++ prettyAt level x ++ prettyItems level xs

/-- Entries, each behind a comma on a new line. -/
def prettyEntries (level : Nat) : List (String × Json) → String
  | [] => ""
  | (k, v) :: es =>
    "," ++ newLine level ++ quote k ++ ": " ++ prettyAt level v ++ prettyEntries level es

end

/-- The indented form. -/
def pretty (j : Json) : String := prettyAt 0 j

/-- The value under the key `k`. -/
def get? (k : String) : List (String × Json) → Option Json
  | [] => none
  | (k', v) :: es => if k' = k then some v else get? k es

/-- Enters `v` under `k`, where keys ascend. -/
def put (k : String) (v : Json) : List (String × Json) → List (String × Json)
  | [] => [(k, v)]
  | (k', v') :: es =>
    if k = k' then (k, v) :: es
    else if k < k' then (k, v) :: (k', v') :: es
    else (k', v') :: put k v es

end Json

end ArtifactQuery
