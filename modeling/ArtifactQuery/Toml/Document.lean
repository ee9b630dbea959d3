import ArtifactQuery.Toml.Scalar

/-!
# TOML documents

* `Toml.value`: takes a value; arrays and tables between braces nest less than `nesting` deep.
* `Toml.line`: takes a line, a header, an entry, or neither.
* `Toml.add`, `Toml.openTable`, `Toml.openTables`: what an entry and a header add to a table. A key
  is set once, and a table is opened by one header.
* `Toml.ofText?`: the table of a whole document.
-/

namespace ArtifactQuery.Toml

open Reader

/-- A reader between blanks. -/
def padded {α : Type} (item : Reader α) : Reader α := fun cs =>
  (item (cs.dropWhile isGap)).map fun r => (r.1, r.2.dropWhile isGap)

/-- Whether a character may occur in a key without quotes. -/
def isKeyChar (c : Char) : Bool := c.isAlphanum || c = '_' || c = '-'

/-- Takes a key without dots. -/
def simpleKey : Reader String
  | '"' :: cs => (basic cs).map fun r => (String.ofList r.1, r.2)
  | '\'' :: cs => (literal cs).map fun r => (String.ofList r.1, r.2)
  | cs =>
    if (cs.takeWhile isKeyChar).isEmpty then none
    else some (String.ofList (cs.takeWhile isKeyChar), cs.dropWhile isKeyChar)

/-- Takes keys with dots between them. -/
def keys : Reader (List String) := separated (padded simpleKey) '.'

/-- Takes keys, an equals sign and a value. -/
def entry (item : Reader Toml) : Reader (List String × Toml) := fun cs => do
  let (ks, cs) ← keys cs
  let (_, cs) ← sign '=' cs
  let (v, cs) ← padded item cs
  some ((ks, v), cs)

/-! ## Tables -/

/-- The entries with another value under a key that they have. -/
def replace (key : String) (v : Toml) (es : List (String × Toml)) : List (String × Toml) :=
  es.map fun e => if e.1 = key then (key, v) else e

/-- Changes the entries of the table at the end of a path. Tables on the way that are missing are
made with `origin`, those with an origin that may not be passed are an obstacle, and of several
tables under one header the last one is taken. -/
def within (origin : TableOrigin) (passes : TableOrigin → Bool)
    (f : TableOrigin → List (String × Toml) → Option (List (String × Toml))) :
    List String → TableOrigin → List (String × Toml) → Option (List (String × Toml))
  | [], o, es => f o es
  | k :: path, _, es => match es.lookup k with
    | none => do
      let inner ← within origin passes f path origin []
      some (es ++ [(k, table origin inner)])
    | some (table o inner) =>
      if passes o then do
        let inner ← within origin passes f path o inner
        some (replace k (table o inner) es)
      else none
    | some (tables items) => do
      let inner ← within origin passes f path .header (items.getLast?.getD [])
      some (replace k (tables (items.dropLast ++ [inner])) es)
    | some _ => none

/-- Adds an entry. Keys with dots lead through tables that keys with dots have made, or that headers
imply, and end in one of the former. -/
def add (ks : List String) (v : Toml) (es : List (String × Toml)) :
    Option (List (String × Toml)) := do
  let last ← ks.getLast?
  let put (o : TableOrigin) (es : List (String × Toml)) : Option (List (String × Toml)) :=
    if (o = .dotted ∨ ks.length = 1) ∧ es.lookup last = none then some (es ++ [(last, v)]) else none
  within .dotted (fun o => o = .dotted ∨ o = .implied) put ks.dropLast .header es

/-- Changes the table at the end of the path of a header. -/
def atHeader (f : List (String × Toml) → Option (List (String × Toml))) (path : List String)
    (es : List (String × Toml)) : Option (List (String × Toml)) :=
  within .implied (· ≠ .braces) (fun _ => f) path .header es

/-- Opens the table `key` for its header. -/
def openTable (key : String) (es : List (String × Toml)) : Option (List (String × Toml)) :=
  match es.lookup key with
  | none => some (es ++ [(key, table .header [])])
  | some (table .implied inner) => some (replace key (table .header inner) es)
  | some _ => none

/-- Opens a further table `key` under the same header. -/
def openTables (key : String) (es : List (String × Toml)) : Option (List (String × Toml)) :=
  match es.lookup key with
  | none => some (es ++ [(key, tables [[]])])
  | some (tables items) => some (replace key (tables (items ++ [[]])) es)
  | some _ => none

/-! ## Values -/

/-- Drops blanks, line ends and comments. -/
def blankLines (inComment : Bool) : List Char → Option (List Char)
  | [] => some []
  | c :: cs =>
    if c = '\n' then blankLines false cs
    else if inComment then (if isPlain c then blankLines true cs else none)
    else if isGap c then blankLines false cs
    else if c = '#' then blankLines true cs
    else some (c :: cs)

/-- Takes the items of an array up to its closing bracket. -/
def items (item : Reader Toml) (cs : List Char) : Option (List Toml × List Char) :=
  match blankLines false cs with
  | none => none
  | some (']' :: rest) => some ([], rest)
  | some front => match item front with
    | none => none
    | some (v, rest) => match blankLines false rest with
      | some (']' :: rest) => some ([v], rest)
      | some (',' :: rest) =>
        if _h : rest.length < cs.length then (items item rest).map fun r => (v :: r.1, r.2)
        else none
      | _ => none
termination_by cs.length
decreasing_by exact _h

/-- The table with given entries. -/
def tableOf (entries : List (List String × Toml)) : Option Toml :=
  (entries.foldlM (fun es e => add e.1 e.2 es) []).map (table .braces)

/-- Takes the entries of a table up to its closing brace. -/
def braced (item : Reader Toml) : Reader Toml := fun cs =>
  match cs.dropWhile isGap with
  | '\x7d' :: rest => some (table .braces [], rest)
  | front => do
    let (entries, rest) ← separated (entry item) ',' front
    let (_, rest) ← sign '\x7d' rest
    some (← tableOf entries, rest)

/-- The depth to which values do not nest any more. -/
def nesting : Nat := 80

/-- Takes a value in which others nest less than `depth` deep. -/
def value : (depth : Nat) → Reader Toml
  | 0 => scalar
  | depth + 1 => fun cs => match cs with
    | '[' :: rest => (items (value depth) rest).map fun r => (array r.1, r.2)
    | '\x7b' :: rest => braced (value depth) rest
    | _ => scalar cs

/-! ## Lines -/

/-- A line. -/
inductive Line
  | blank
  | header (path : List String)
  | itemHeader (path : List String)
  | entry (path : List String) (v : Toml)

/-- Takes blanks, a comment and the end of a line. -/
def lineEnd (cs : List Char) : Option (List Char) :=
  match cs.dropWhile isGap with
  | [] => some []
  | '\n' :: rest => some rest
  | '#' :: rest =>
    let comment := rest.takeWhile (· ≠ '\n')
    if comment.all isPlain then some ((rest.dropWhile (· ≠ '\n')).drop 1) else none
  | _ => none

/-- Takes the content of a line that begins with neither a blank nor a comment. -/
def content : Reader Line
  | '[' :: '[' :: cs => do
    let (path, cs) ← keys cs
    let (_, cs) ← sign ']' cs
    let (_, cs) ← sign ']' cs
    some (.itemHeader path, cs)
  | '[' :: cs => do
    let (path, cs) ← keys cs
    let (_, cs) ← sign ']' cs
    some (.header path, cs)
  | cs => (entry (value (nesting - 1)) cs).map fun r => (.entry r.1.1 r.1.2, r.2)

/-- Takes a line. -/
def line : Reader Line := fun cs =>
  match lineEnd cs with
  | some rest => some (.blank, rest)
  | none => do
    let (l, rest) ← content (cs.dropWhile isGap)
    some (l, ← lineEnd rest)

/-- The lines of a document. -/
def lines (cs : List Char) : Option (List Line) :=
  if cs.isEmpty then some []
  else match line cs with
    | none => none
    | some (l, rest) =>
      if _h : rest.length < cs.length then (lines rest).map (l :: ·) else none
termination_by cs.length
decreasing_by exact _h

/-- A document that is read up to some line. -/
structure Reading where
  entries : List (String × Toml) := []
  /-- The path of the last header. -/
  path : List String := []

/-- Adds a line to a document. -/
def Reading.step (d : Reading) : Line → Option Reading
  | .blank => some d
  | .entry ks v => (atHeader (add ks v) d.path d.entries).map fun es => { d with entries := es }
  | .header path => do
    let es ← atHeader (openTable (← path.getLast?)) path.dropLast d.entries
    some ⟨es, path⟩
  | .itemHeader path => do
    let es ← atHeader (openTables (← path.getLast?)) path.dropLast d.entries
    some ⟨es, path⟩

/-- Characters with line feeds as their only line ends. -/
def withLineFeeds : List Char → List Char
  | '\r' :: '\n' :: cs => '\n' :: withLineFeeds cs
  | c :: cs => c :: withLineFeeds cs
  | [] => []

/-- Characters without a byte order mark in front. -/
def withoutMark : List Char → List Char
  | '\ufeff' :: cs => cs
  | cs => cs

/-- The entries of a document. -/
def ofText? (s : String) : Option (List (String × Toml)) := do
  let ls ← lines (withLineFeeds (withoutMark s.toList))
  let d ← ls.foldlM Reading.step {}
  some d.entries

end ArtifactQuery.Toml
