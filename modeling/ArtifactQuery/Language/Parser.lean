import ArtifactQuery.Language.Lexer
import ArtifactQuery.Language.Statement

/-!
# Reading statements

A statement is `domain.action(criteria).method(arguments)...`. Each reader takes tokens from the
front and returns what is left of them, with the proof that this is shorter.

* `Statement.ofTokens`: the statement that the tokens spell, to their end.
* `Statement.ofText`: the same for a text.
* `Phrase.ofText`: its phrases.
-/

namespace ArtifactQuery

/-- A value read from tokens, and what is left of them: fewer than `bound`. -/
structure Parsed (α : Type) (bound : Nat) where
  value : α
  rest : List Token
  shorter : rest.length < bound

namespace Parsed

/-- A reader's result: a value and fewer tokens, or the first fault. -/
abbrev Result (α : Type) (bound : Nat) := Except QueryError (Parsed α bound)

/-- The next token. -/
def peek : List Token → Token
  | [] => .endOfInput
  | t :: _ => t

/-- A fault in the spelling of a statement. -/
def refuse {α : Type} {bound : Nat} (c : SyntaxCause) : Result α bound := .error (.parse c)

/-- Takes the token `t`. -/
def sign (t : Token) : (ts : List Token) → Result Unit ts.length
  | [] => refuse (.expectedToken t .endOfInput)
  | u :: rest => if u = t then .ok ⟨(), rest, by simp⟩ else refuse (.expectedToken t u)

/-- Takes an identifier. -/
def identifier : (ts : List Token) → Result String ts.length
  | .identifier s :: rest => .ok ⟨s, rest, by simp⟩
  | ts => refuse (.expectedIdentifier (peek ts))

/-- Takes a quoted text. -/
def text : (ts : List Token) → Result String ts.length
  | .text s :: rest => .ok ⟨s, rest, by simp⟩
  | ts => refuse (.expectedText (peek ts))

/-- Takes a literal. -/
def literal : (ts : List Token) → Result Literal ts.length
  | .text s :: rest => .ok ⟨.text s, rest, by simp⟩
  | .number n :: rest => .ok ⟨.number n, rest, by simp⟩
  | .true :: rest => .ok ⟨.truth true, rest, by simp⟩
  | .false :: rest => .ok ⟨.truth false, rest, by simp⟩
  | .null :: rest => .ok ⟨.null, rest, by simp⟩
  | ts => refuse (.expectedValue (peek ts))

/-- Takes a number, or a text that spells one. -/
def number : (ts : List Token) → Result Int ts.length
  | .number n :: rest => .ok ⟨n, rest, by simp⟩
  | .text s :: rest =>
    match Signed64.ofText? (trim s) with
    | some n => .ok ⟨n, rest, by simp⟩
    | none => refuse (.textIsNoNumber s)
  | ts => refuse (.expectedNumber (peek ts))

/-- Takes a truth value, or the text of one. -/
def truth : (ts : List Token) → Result Bool ts.length
  | .true :: rest => .ok ⟨true, rest, by simp⟩
  | .false :: rest => .ok ⟨false, rest, by simp⟩
  | .text s :: rest =>
    if s = "true" then .ok ⟨true, rest, by simp⟩
    else if s = "false" then .ok ⟨false, rest, by simp⟩
    else refuse (.dryRunText s)
  | ts => refuse (.dryRunToken (peek ts))

/-- Takes texts with commas between them; there may be none, and a comma may follow the last. -/
def textRun : (ts : List Token) → Parsed (List String) (ts.length + 1)
  | .text s :: .comma :: rest =>
    let r := textRun rest
    ⟨s :: r.value, r.rest, by have := r.shorter; simp only [List.length_cons]; omega⟩
  | .text s :: rest => ⟨[s], rest, by simp only [List.length_cons]; omega⟩
  | ts => ⟨[], ts, by simp⟩

/-- Takes texts as `textRun` does, bare or in brackets. -/
def texts : (ts : List Token) → Result (List String) (ts.length + 1)
  | .leftBracket :: rest => do
    let r := textRun rest
    let ⟨_, rest', h⟩ ← sign .rightBracket r.rest
    .ok ⟨r.value, rest', by have := r.shorter; simp; omega⟩
  | ts => .ok (textRun ts)

/-- Takes the tests of a field, up to the closing brace. -/
def tests (ts : List Token) : Result (List (String × Literal)) ts.length :=
  if peek ts = .rightBrace then do
    let ⟨_, rest, h⟩ ← sign .rightBrace ts
    .ok ⟨[], rest, h⟩
  else do
    let ⟨signature, r₁, h₁⟩ ← text ts
    let ⟨_, r₂, h₂⟩ ← sign .colon r₁
    let ⟨v, r₃, h₃⟩ ← literal r₂
    if peek r₃ = .comma then
      let ⟨_, r₄, h₄⟩ ← sign .comma r₃
      let ⟨more, rest, h⟩ ← tests r₄
      .ok ⟨(signature, v) :: more, rest, by omega⟩
    else
      let ⟨_, rest, h⟩ ← sign .rightBrace r₃
      .ok ⟨[(signature, v)], rest, by omega⟩
termination_by ts.length

mutual

/-- Takes the entries of an object, up to the closing brace. -/
def entries (ts : List Token) : Result (List Entry) ts.length :=
  if peek ts = .rightBrace then do
    let ⟨_, rest, h⟩ ← sign .rightBrace ts
    .ok ⟨[], rest, h⟩
  else do
    let ⟨e, r₁, h₁⟩ ← entry ts
    if peek r₁ = .comma then
      let ⟨_, r₂, h₂⟩ ← sign .comma r₁
      let ⟨more, rest, h⟩ ← entries r₂
      .ok ⟨e :: more, rest, by omega⟩
    else
      let ⟨_, rest, h⟩ ← sign .rightBrace r₁
      .ok ⟨[e], rest, by omega⟩
termination_by (ts.length, 1)

/-- Takes an entry: a key, a colon, and a clause, tests or a value. -/
def entry (ts : List Token) : Result Entry ts.length := do
  let ⟨key, r₁, h₁⟩ ← text ts
  let ⟨_, r₂, h₂⟩ ← sign .colon r₁
  match Connective.signed? key with
  | some c =>
    let ⟨e, rest, h⟩ ← clause c r₂
    .ok ⟨e, rest, by omega⟩
  | none =>
    if key.toList.head? = some '$' then refuse (.comparatorAsField key)
    else if peek r₂ = .leftBrace then
      let ⟨_, r₃, h₃⟩ ← sign .leftBrace r₂
      let ⟨found, rest, h⟩ ← tests r₃
      if found.isEmpty then refuse (.noComparator key)
      else .ok ⟨.compares key found, rest, by omega⟩
    else
      let ⟨v, rest, h⟩ ← literal r₂
      .ok ⟨.equals key v, rest, by omega⟩
termination_by (ts.length, 0)

/-- Takes what follows a connective: an array of objects or one object. -/
def clause (c : Connective) (ts : List Token) : Result Entry ts.length :=
  if peek ts = .leftBracket then do
    let ⟨_, r₁, h₁⟩ ← sign .leftBracket ts
    let ⟨ms, rest, h⟩ ← members r₁
    .ok ⟨.objects c ms, rest, by omega⟩
  else if peek ts = .leftBrace then do
    let ⟨_, r₁, h₁⟩ ← sign .leftBrace ts
    let ⟨es, rest, h⟩ ← entries r₁
    .ok ⟨.object c es, rest, by omega⟩
  else refuse (.expectedMembers c (peek ts))
termination_by (ts.length, 0)

/-- Takes the objects of an array, up to the closing bracket. -/
def members (ts : List Token) : Result (List (List Entry)) ts.length :=
  if peek ts = .leftBrace then do
    let ⟨_, r₁, h₁⟩ ← sign .leftBrace ts
    let ⟨m, r₂, h₂⟩ ← entries r₁
    if peek r₂ = .comma then
      let ⟨_, r₃, h₃⟩ ← sign .comma r₂
      let ⟨more, rest, h⟩ ← members r₃
      .ok ⟨m :: more, rest, by omega⟩
    else
      let ⟨_, rest, h⟩ ← sign .rightBracket r₂
      .ok ⟨[m], rest, by omega⟩
  else do
    let ⟨_, rest, h⟩ ← sign .rightBracket ts
    .ok ⟨[], rest, h⟩
termination_by (ts.length, 0)

end

/-- Takes `{"$asc": ["path", ...]}`. -/
def sorting (ts : List Token) : Result Method ts.length := do
  let ⟨_, r₁, h₁⟩ ← sign .leftBrace ts
  let ⟨direction, r₂, h₂⟩ ← text r₁
  let ⟨_, r₃, h₃⟩ ← sign .colon r₂
  let ⟨paths, r₄, h₄⟩ ← texts r₃
  let ⟨_, rest, h⟩ ← sign .rightBrace r₄
  .ok ⟨.sort direction paths, rest, by omega⟩

/-- Reads a value and makes a method of it. -/
def asMethod {α : Type} {n : Nat} (f : α → Method) (r : Result α n) : Result Method n :=
  r.map fun p => ⟨f p.value, p.rest, p.shorter⟩

/-- Takes the arguments of the method `name`. -/
def arguments (name : String) (ts : List Token) : Result Method (ts.length + 1) :=
  let strict (r : Result Method ts.length) : Result Method (ts.length + 1) :=
    r.map fun p => ⟨p.value, p.rest, Nat.lt_succ_of_lt p.shorter⟩
  match name with
  | "include" => asMethod .returning (texts ts)
  | "sort" => strict (sorting ts)
  | "offset" => strict (asMethod .offset (number ts))
  | "limit" => strict (asMethod .limit (number ts))
  | "dryRun" => strict (asMethod .dryRun (truth ts))
  | "keys" => asMethod .keys (texts ts)
  | "newValue" => strict (asMethod .newValue (literal ts))
  | _ => refuse (.unknownMethod name)

/-- Takes the methods behind the criteria; what is left of the tokens starts with no dot. -/
def methods (ts : List Token) : Result (List Method) (ts.length + 1) :=
  if peek ts = .dot then do
    let ⟨_, r₁, h₁⟩ ← sign .dot ts
    let ⟨name, r₂, h₂⟩ ← identifier r₁
    let ⟨_, r₃, h₃⟩ ← sign .leftParen r₂
    let ⟨m, r₄, h₄⟩ ← arguments name r₃
    let ⟨_, r₅, h₅⟩ ← sign .rightParen r₄
    let ⟨more, rest, h⟩ ← methods r₅
    .ok ⟨m :: more, rest, by omega⟩
  else .ok ⟨[], ts, by omega⟩
termination_by ts.length

/-- Takes the names of a domain and an action, all joined by dots: the action is the first name that
is one. The segments of the domain's name come with the action. -/
def domainAndAction (first : String) (ts : List Token) :
    Result (List String × String) ts.length := do
  let ⟨_, r₁, h₁⟩ ← sign .dot ts
  let ⟨name, r₂, h₂⟩ ← identifier r₁
  if name = "find" ∨ name = "delete" ∨ name = "update" then
    .ok ⟨([first], name), r₂, by omega⟩
  else
    let ⟨(more, action), rest, h⟩ ← domainAndAction name r₂
    .ok ⟨(first :: more, action), rest, by omega⟩
termination_by ts.length

/-- Takes the criteria of an action, which may be missing. -/
def criteria (ts : List Token) : Result (List Entry) (ts.length + 1) :=
  if peek ts = .leftBrace then do
    let ⟨_, r₁, h₁⟩ ← sign .leftBrace ts
    let ⟨es, rest, h⟩ ← entries r₁
    .ok ⟨es, rest, by omega⟩
  else .ok ⟨[], ts, by omega⟩

end Parsed

/-- The statement that the tokens spell, up to the end of input. -/
def Statement.ofTokens (ts : List Token) : Except QueryError Statement := do
  let ⟨first, r₁, _⟩ ← Parsed.identifier ts
  let ⟨(domain, action), r₂, _⟩ ← Parsed.domainAndAction first r₁
  let ⟨_, r₃, _⟩ ← Parsed.sign .leftParen r₂
  let ⟨criteria, r₄, _⟩ ← Parsed.criteria r₃
  let ⟨_, r₅, _⟩ ← Parsed.sign .rightParen r₄
  let ⟨methods, r₆, _⟩ ← Parsed.methods r₅
  if Parsed.peek r₆ = .endOfInput then .ok ⟨".".intercalate domain, action, criteria, methods⟩
  else .error (.parse (.afterQuery (Parsed.peek r₆)))

/-- The statement that a text spells. -/
def Statement.ofText (s : String) : Except QueryError Statement := do
  Statement.ofTokens (← Token.ofText s)

/-- The phrases of the statement that a text spells. -/
def Phrase.ofText (s : String) : Except QueryError (List Phrase) := do
  return (← Statement.ofText s).phrases

end ArtifactQuery
