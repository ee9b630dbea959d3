import ArtifactQuery.Text.Blank
import ArtifactQuery.Text.Numeral

/-!
# Files of variables

A file of variables has an assignment `NAME=value` a line, perhaps behind `export`. Values may be in
quotes, in which they may go over several lines, and may refer to other variables as `$NAME` or
`${NAME}`, but not between apostrophes.

* `EnvFile.logicalLines`: the lines of a file, where one with an open quote or a backslash at its
  end goes on in the next.
* `EnvFile.lineOf`: the content of a line.
* `EnvFile.names`: the words of a file that may be names of variables.
* `EnvFile.load`: an environment with the assignments of a file. A variable that is set keeps its
  value, and the first bad line ends the reading.
-/

namespace ArtifactQuery.EnvFile

/-! ## Lines -/

/-- Where a reader of lines stands. -/
inductive LineState
  | plain
  /-- Behind a blank, where a comment may begin. -/
  | blank
  | escape
  | strong
  | strongEscape
  | weak
  | weakEscape
  deriving DecidableEq, Repr

namespace LineState

/-- What begins at a character outside quotes. -/
def opened (c : Char) : LineState :=
  if c = '\\' then escape else if c = '"' then weak else if c = '\'' then strong else plain

/-- Reads a character. -/
def step : LineState → Char → LineState
  | plain, c => if isBlank c && c ≠ '\n' && c ≠ '\r' then blank else opened c
  | blank, c => opened c
  | escape, _ => plain
  | strong, c => if c = '\\' then strongEscape else if c = '\'' then plain else strong
  | strongEscape, _ => strong
  | weak, c => if c = '\\' then weakEscape else if c = '"' then plain else weak
  | weakEscape, _ => weak

end LineState

/-- Reads a line: the part in front of a comment, and the state at its end, which a comment makes
plain. -/
def readLine (s : LineState) : List Char → List Char × LineState
  | [] => ([], s)
  | c :: cs =>
    if s = .blank ∧ c = '#' then ([], .plain)
    else
      let (kept, last) := readLine (s.step c) cs
      (c :: kept, last)

/-- The lines of a text with their line feeds. -/
def physicalLines : List Char → List (List Char)
  | [] => []
  | c :: cs =>
    if c = '\n' then [c] :: physicalLines cs
    else match physicalLines cs with
      | [] => [[c]]
      | l :: ls => (c :: l) :: ls

/-- A line without its line end. -/
def withoutEnd (l : List Char) : List Char :=
  if l.getLast? = some '\n' then
    if l.dropLast.getLast? = some '\r' then l.dropLast.dropLast else l.dropLast
  else l

/-- Whether a comment is all that a line has. -/
def isComment (l : List Char) : Bool := (trimFront l).head? = some '#'

/-- The lines of a file, read on behind `front`. A last line that wants to go on is bad. -/
def joinLines (s : LineState) (front : List Char) : List (List Char) → List (Option (List Char))
  | [] => if s = .plain then [] else [none]
  | l :: ls =>
    if isComment (front ++ l) then some [] :: joinLines .plain [] ls
    else
      let (kept, last) := readLine s l
      if last = .plain then some (withoutEnd (front ++ kept)) :: joinLines .plain [] ls
      else joinLines last (front ++ l) ls

/-- The lines of a file; a bad one is none. -/
def logicalLines (cs : List Char) : List (Option (List Char)) :=
  joinLines .plain [] (physicalLines cs)

/-! ## Values -/

/-- The quotes that a value is in. -/
inductive Quotes
  | none
  | strong
  | weak
  deriving DecidableEq, Repr

/-- What the next character of a value means. -/
inductive Mode
  | plain
  | escaped
  /-- It may belong to the name of a variable. -/
  | variableName
  /-- It belongs to the name of a variable unless it is a closing brace. -/
  | bracedName
  /-- The value has ended; blanks and a comment may follow. -/
  | ended
  | comment
  deriving DecidableEq, Repr

/-- A value that is read up to some character. -/
structure ValueState where
  mode : Mode := .plain
  quotes : Quotes := .none
  /-- The name of a variable that is referred to. -/
  name : List Char := []
  taken : List Char := []

namespace ValueState

/-- Takes a character. -/
def take (s : ValueState) (c : Char) : ValueState := { s with taken := s.taken ++ [c] }

/-- Takes the value of the variable whose name was read. -/
def substitute (vars : String → Option String) (s : ValueState) : ValueState :=
  let value := (vars (String.ofList s.name)).getD ""
  { s with taken := s.taken ++ value.toList, name := [], mode := .plain }

/-- Reads a character behind a backslash. -/
def stepEscaped (s : ValueState) (c : Char) : Option ValueState :=
  let s := { s with mode := .plain }
  if c = 'n' then some (s.take '\n')
  else if c = '\\' ∨ c = '\'' ∨ c = '"' ∨ c = '$' ∨ c = ' ' then some (s.take c)
  else none

/-- Reads a character that belongs to no name. -/
def stepPlain (s : ValueState) (c : Char) : ValueState :=
  match s.quotes with
  | .strong => if c = '\'' then { s with quotes := .none } else s.take c
  | .weak =>
    if c = '$' then { s with mode := .variableName }
    else if c = '"' then { s with quotes := .none }
    else if c = '\\' then { s with mode := .escaped }
    else s.take c
  | .none =>
    if c = '$' then { s with mode := .variableName }
    else if c = '\'' then { s with quotes := .strong }
    else if c = '"' then { s with quotes := .weak }
    else if c = '\\' then { s with mode := .escaped }
    else if c = ' ' ∨ c = '\t' then { s with mode := .ended }
    else s.take c

/-- Reads a character where the name of a variable may go on. -/
def stepName (vars : String → Option String) (s : ValueState) (c : Char) : ValueState :=
  if isLetterOrNumeral c then { s with name := s.name ++ [c] }
  else if c = '\x7b' ∧ s.name = [] then { s with mode := .bracedName }
  else if c = '$' then { s.substitute vars with mode := .variableName }
  else (s.substitute vars).take c

/-- Reads a character of a name between braces. -/
def stepBraced (vars : String → Option String) (s : ValueState) (c : Char) : ValueState :=
  if c = '\x7d' then s.substitute vars else { s with name := s.name ++ [c] }

/-- Reads a character. -/
def step (vars : String → Option String) (s : ValueState) (c : Char) : Option ValueState :=
  match s.mode with
  | .plain => some (s.stepPlain c)
  | .escaped => s.stepEscaped c
  | .variableName => some (s.stepName vars c)
  | .bracedName => some (s.stepBraced vars c)
  | .ended =>
    if c = ' ' ∨ c = '\t' then some s
    else if c = '#' then some { s with mode := .comment }
    else none
  | .comment => some s

/-- The value, once all its characters are read. -/
def finish (vars : String → Option String) (s : ValueState) : Option String :=
  if s.mode = .bracedName ∨ s.quotes ≠ .none then none
  else some (String.ofList (if s.mode = .variableName then s.substitute vars else s).taken)

end ValueState

/-- The value that characters stand for, where variables have their values. -/
def valueOf (vars : String → Option String) (cs : List Char) : Option String :=
  (cs.foldlM (ValueState.step vars) {}).bind (ValueState.finish vars)

/-! ## Assignments -/

/-- What a line says. -/
inductive Content
  | blank
  | assignment (name value : String)
  | bad
  deriving DecidableEq, Repr

/-- Whether a character may begin a name. -/
def isNameStart (c : Char) : Bool := c.isAlpha || c = '_'

/-- Whether a character may occur in a name. -/
def isNameChar (c : Char) : Bool := c.isAlphanum || c = '_' || c = '.'

/-- The name in front of characters, and what follows it behind blanks. -/
def name? (cs : List Char) : Option (String × List Char) :=
  if cs.head?.any isNameStart then
    some (String.ofList (cs.takeWhile isNameChar), trimFront (cs.dropWhile isNameChar))
  else none

/-- What follows an equals sign. -/
def assigned? : List Char → Option (List Char)
  | '=' :: cs => some (trimFront cs)
  | _ => none

/-- The name that a line assigns to and the text of the value. The word `export` may stand in front
of the name, and may be a name itself. -/
def nameAndText? (cs : List Char) : Option (String × List Char) := do
  let (name, rest) ← name? cs
  match assigned? rest with
  | some text => some (name, text)
  | none =>
    if name ≠ "export" then none
    else do
      let (name, rest) ← name? rest
      some (name, ← assigned? rest)

/-- Whether nothing but a comment is left. -/
def isOver (cs : List Char) : Bool := cs.isEmpty || cs.head? = some '#'

/-- What a line says, where variables have their values. -/
def lineOf (vars : String → Option String) (l : List Char) : Content :=
  let cs := trimChars l
  if isOver cs then .blank
  else match nameAndText? cs with
    | none => .bad
    | some (name, text) =>
      if isOver text then .assignment name ""
      else match valueOf vars text with
        | some value => .assignment name value
        | none => .bad

/-- Variables that are set, and those that lines have assigned, the last one first. -/
structure Scope where
  environment : List (String × String)
  assigned : List (String × String) := []

namespace Scope

/-- The value of a variable: that of the environment, or the one assigned last. -/
def value? (s : Scope) (name : String) : Option String :=
  (s.environment.lookup name).orElse fun _ => s.assigned.lookup name

/-- Assigns a variable, and sets it unless it is set. -/
def assign (s : Scope) (name value : String) : Scope where
  environment :=
    if (s.environment.lookup name).isSome then s.environment else s.environment ++ [(name, value)]
  assigned := (name, value) :: s.assigned

/-- Reads lines up to the first bad one. -/
def read (s : Scope) : List (Option (List Char)) → Scope
  | [] => s
  | none :: _ => s
  | some l :: ls => match lineOf s.value? l with
    | .blank => read s ls
    | .assignment name value => read (s.assign name value) ls
    | .bad => s

end Scope

/-- A text without a byte order mark in front. -/
def withoutMark : List Char → List Char
  | '\ufeff' :: cs => cs
  | cs => cs

/-- The runs of characters that satisfy `p`. -/
def runs (p : Char → Bool) : List Char → List (List Char)
  | [] => [[]]
  | c :: cs =>
    if p c then match runs p cs with
      | [] => [[c]]
      | r :: rs => (c :: r) :: rs
    else [] :: runs p cs

/-- The words of a file that may be names of variables. -/
def names (file : String) : List String :=
  let words := runs isNameChar file.toList ++ runs isLetterOrNumeral file.toList
  ((words.filter (· ≠ [])).map String.ofList).eraseDups

/-- The environment with the assignments of a file. -/
def load (environment : List (String × String)) (file : String) : List (String × String) :=
  (Scope.read { environment := environment } (logicalLines (withoutMark file.toList))).environment

end ArtifactQuery.EnvFile
