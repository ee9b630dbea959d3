import ArtifactQuery.Text.Reader

/-!
# TOML

Values of TOML documents, and the texts in them.

* `Toml`: a value. Tables remember how they came about, because that decides whether more can be
  added.
* `Toml.text`, `Toml.multiline`: a text in quotes, read behind its opening quotes.
-/

namespace ArtifactQuery

/-- How a table came about. -/
inductive TableOrigin
  /-- Written between braces; nothing can be added. -/
  | braces
  /-- By its own header. -/
  | header
  /-- By the header of a table inside it. -/
  | implied
  /-- By a key with dots. -/
  | dotted
  deriving DecidableEq, Repr

/-- A value of a document. Fractions and points in time have no content here. -/
inductive Toml
  | text (s : String)
  | int (n : Int)
  | truth (b : Bool)
  | fraction
  | moment
  | array (items : List Toml)
  | table (origin : TableOrigin) (entries : List (String × Toml))
  /-- Tables with the same header, the last one still open. -/
  | tables (items : List (List (String × Toml)))

namespace Toml

/-- Whether a character may stand in a text or a comment: no control character but the tab. -/
def isPlain (c : Char) : Bool := c = '\t' || 32 ≤ c.toNat && c.toNat ≠ 127

/-- A blank within a line. -/
def isGap (c : Char) : Bool := c = ' ' || c = '\t'

/-- The number of a hexadecimal digit. -/
def hexValue? (c : Char) : Option Nat :=
  if c.isDigit then some (c.toNat - 48)
  else if 'a' ≤ c ∧ c ≤ 'f' then some (c.toNat - 87)
  else if 'A' ≤ c ∧ c ≤ 'F' then some (c.toNat - 55)
  else none

/-- The character whose number hexadecimal digits spell. -/
def charOfHex? (cs : List Char) : Option Char := do
  let n := (← cs.mapM hexValue?).foldl (fun n d => 16 * n + d) 0
  if n.isValidChar then some (Char.ofNat n) else none

/-- The character for a letter behind a backslash. -/
def escape? : Char → Option Char
  | 'b' => some '\x08'
  | 't' => some '\t'
  | 'n' => some '\n'
  | 'f' => some '\x0c'
  | 'r' => some '\r'
  | '"' => some '"'
  | '\\' => some '\\'
  | _ => none

/-- Puts a character in front of what a reader takes, if there is one. -/
def consed (c : Option Char) (r : Option (List Char × List Char)) :
    Option (List Char × List Char) := do
  let c ← c
  let (cs, rest) ← r
  some (c :: cs, rest)

/-- The text up to the closing `"`. -/
def basic : Reader (List Char)
  | [] => none
  | '"' :: cs => some ([], cs)
  | '\\' :: 'u' :: a :: b :: c :: d :: cs => consed (charOfHex? [a, b, c, d]) (basic cs)
  | '\\' :: 'U' :: a :: b :: c :: d :: e :: f :: g :: h :: cs =>
    consed (charOfHex? [a, b, c, d, e, f, g, h]) (basic cs)
  | '\\' :: c :: cs => consed (escape? c) (basic cs)
  | c :: cs => if isPlain c then consed (some c) (basic cs) else none

/-- The text up to the closing apostrophe; there are no escapes. -/
def literal : Reader (List Char)
  | [] => none
  | c :: cs =>
    if c = '\'' then some ([], cs)
    else if isPlain c then consed (some c) (literal cs)
    else none

/-- What closes a text of several lines: three of the quotes `q`, and one or two more that still
belong to the text. -/
def closing? (q : Char) (cs : List Char) : Option (List Char × List Char) :=
  let n := min (cs.takeWhile (· = q)).length 5
  if 3 ≤ n then some (List.replicate (n - 3) q, cs.drop n) else none

/-- The text of several lines up to its closing `"""`. After a backslash at the end of a line,
blanks and line ends are left out (`skip`). -/
def basicLines (skip : Bool) : Reader (List Char)
  | [] => none
  | c :: cs =>
    if skip && (isGap c || c = '\n') then basicLines true cs
    else match closing? '"' (c :: cs) with
    | some r => some r
    | none =>
      if c = '\\' then match cs with
        | 'u' :: c₁ :: c₂ :: c₃ :: c₄ :: cs =>
          consed (charOfHex? [c₁, c₂, c₃, c₄]) (basicLines false cs)
        | 'U' :: c₁ :: c₂ :: c₃ :: c₄ :: c₅ :: c₆ :: c₇ :: c₈ :: cs =>
          consed (charOfHex? [c₁, c₂, c₃, c₄, c₅, c₆, c₇, c₈]) (basicLines false cs)
        | d :: cs =>
          if (d :: cs).dropWhile isGap |>.head? |>.any (· = '\n') then basicLines true cs
          else consed (escape? d) (basicLines false cs)
        | [] => none
      else if isPlain c || c = '\n' then consed (some c) (basicLines false cs)
      else none

/-- The text of several lines up to its closing apostrophes; there are no escapes. -/
def literalLines : Reader (List Char)
  | [] => none
  | c :: cs => match closing? '\'' (c :: cs) with
    | some r => some r
    | none => if isPlain c || c = '\n' then consed (some c) (literalLines cs) else none

/-- Drops the line end that may follow the opening quotes. -/
def withoutLineEnd : List Char → List Char
  | '\n' :: cs => cs
  | cs => cs

/-- Takes a text in quotes of any kind. -/
def quoted : Reader String := fun cs =>
  let chars := match cs with
    | '"' :: '"' :: '"' :: cs => basicLines false (withoutLineEnd cs)
    | '"' :: cs => basic cs
    | '\'' :: '\'' :: '\'' :: cs => literalLines (withoutLineEnd cs)
    | '\'' :: cs => literal cs
    | _ => none
  chars.map fun r => (String.ofList r.1, r.2)

end Toml

end ArtifactQuery
