import ArtifactQuery.QueryError
import ArtifactQuery.Signed64
import ArtifactQuery.Text.Blank
import ArtifactQuery.Text.Numeral

/-!
# Reading tokens

Query text is cut into tokens; blanks between them carry no meaning.

* `Token.next`: the first token of some text and what follows it.
* `Token.next_shorter`: a token other than the end of input takes at least one character.
* `Token.scan`: all tokens of a text, up to the end or to the first fault.
* `Token.ofText`: the tokens of a text without faults, the end of input last.
-/

namespace ArtifactQuery

/-- The character that a backslash before `c` stands for. -/
def unescape : Char → Char
  | 'n' => '\n'
  | 't' => '\t'
  | 'r' => '\r'
  | c => c

/-- Whether `c` continues a name. -/
def isNameChar (c : Char) : Bool := isLetterOrNumeral c || c = '_' || c = '$'

/-- Whether `c` starts a name. -/
def isNameStart (c : Char) : Bool := isLetter c || c = '_' || c = '$'

namespace Token

/-- The token of a delimiter. -/
def ofDelimiter? : Char → Option Token
  | '.' => some dot
  | ',' => some comma
  | ':' => some colon
  | '(' => some leftParen
  | ')' => some rightParen
  | '\x7b' => some leftBrace
  | '\x7d' => some rightBrace
  | '[' => some leftBracket
  | ']' => some rightBracket
  | _ => none

/-- The token of a name: a constant, or an identifier. -/
def ofName (cs : List Char) : Token :=
  let s := String.ofList cs
  if s = "true" then true
  else if s = "false" then false
  else if s = "null" then null
  else identifier s

/-- The content of a text up to the quote `q`, and what follows the quote. -/
def quoted (q : Char) : List Char → Option (List Char × List Char)
  | [] => none
  | c :: cs =>
    if c = q then some ([], cs)
    else if c = '\\' then
      match cs with
      | [] => none
      | e :: rest => (quoted q rest).map fun r => (unescape e :: r.1, r.2)
    else (quoted q cs).map fun r => (c :: r.1, r.2)

/-- Whether a decimal fraction starts here. -/
def startsFraction : List Char → Bool
  | '.' :: c :: _ => c.isDigit
  | _ => Bool.false

/-- The number that starts at position `p` with the given sign, and what follows it. -/
def number? (p : Nat) (sign digits rest : List Char) : Except QueryError (Token × List Char) :=
  if startsFraction rest then .error (.parse (.decimalNumber p))
  else match Signed64.ofChars? (sign ++ digits) with
    | some n => .ok (number n, rest)
    | none => .error (.parse (.numberOutOfRange (String.ofList (sign ++ digits))))

/-- The token that starts with `c` at position `p`, and what follows it. -/
def startingWith (p : Nat) (c : Char) (cs : List Char) : Except QueryError (Token × List Char) :=
  if c = '"' ∨ c = '\'' then
    match quoted c cs with
    | some (s, rest) => .ok (text (String.ofList s), rest)
    | none => .error (.parse .unterminatedText)
  else if c = '-' ∧ (cs.head?.any Char.isDigit) then
    number? p ['-'] (cs.takeWhile Char.isDigit) (cs.dropWhile Char.isDigit)
  else if c.isDigit then
    number? p [] (c :: cs.takeWhile Char.isDigit) (cs.dropWhile Char.isDigit)
  else if isNameStart c then
    .ok (ofName (c :: cs.takeWhile isNameChar), cs.dropWhile isNameChar)
  else match ofDelimiter? c with
    | some t => .ok (t, cs)
    | none => .error (.parse (.unexpectedCharacter c p))

/-- The first token of `cs` and what follows it; `total` is the length of the whole text. -/
def next (total : Nat) (cs : List Char) : Except QueryError (Token × List Char) :=
  match trimFront cs with
  | [] => .ok (endOfInput, [])
  | c :: rest => startingWith (total - (rest.length + 1)) c rest

theorem length_dropWhile_le (p : Char → Bool) (cs : List Char) :
    (cs.dropWhile p).length ≤ cs.length :=
  (List.dropWhile_suffix p).length_le

theorem quoted_shorter {q : Char} {cs : List Char} {r : List Char × List Char}
    (h : quoted q cs = some r) : r.2.length < cs.length := by
  fun_induction quoted q cs generalizing r with
  | case1 => simp at h
  | case2 cs =>
    cases h
    simp
  | case3 => simp at h
  | case4 e rest _ ih =>
    obtain ⟨u, hu, rfl⟩ := Option.map_eq_some_iff.1 h
    have := ih hu
    simp
    omega
  | case5 c cs _ _ ih =>
    obtain ⟨u, hu, rfl⟩ := Option.map_eq_some_iff.1 h
    have := ih hu
    simp
    omega

theorem number?_rest {p : Nat} {sign digits rest : List Char} {r : Token × List Char}
    (h : number? p sign digits rest = .ok r) : r.2 = rest := by
  unfold number? at h
  split at h
  · cases h
  · split at h <;> cases h
    rfl

theorem startingWith_rest_le {p : Nat} {c : Char} {cs : List Char} {r : Token × List Char}
    (h : startingWith p c cs = .ok r) : r.2.length ≤ cs.length := by
  unfold startingWith at h
  split at h
  · split at h <;> cases h
    exact Nat.le_of_lt (quoted_shorter (by assumption))
  split at h
  · exact number?_rest h ▸ length_dropWhile_le _ _
  split at h
  · exact number?_rest h ▸ length_dropWhile_le _ _
  split at h
  · cases h
    exact length_dropWhile_le _ _
  split at h <;> cases h
  exact Nat.le_refl _

/-- Each token takes at least one character, until the text ends. -/
theorem next_shorter {total : Nat} {cs : List Char} {t : Token} {rest : List Char}
    (h : next total cs = .ok (t, rest)) :
    rest.length < cs.length ∨ (t = endOfInput ∧ rest = []) := by
  unfold next at h
  split at h
  · cases h
    exact .inr ⟨rfl, rfl⟩
  · rename_i c cs' hc
    have h₁ : (trimFront cs).length ≤ cs.length := length_dropWhile_le _ _
    have h₂ := startingWith_rest_le h
    rw [hc] at h₁
    simp at h₁ h₂
    omega

/-- What scanning a text yields: the tokens up to its end or its first fault, and that fault. -/
structure Scan where
  tokens : List Token
  fault : Option QueryError

/-- The tokens of `cs`, with `endOfInput` last unless a fault comes first. -/
def scanFrom (total : Nat) (cs : List Char) : Scan :=
  match _h : next total cs with
  | .error e => ⟨[], some e⟩
  | .ok (t, rest) =>
    if _ht : t = endOfInput then ⟨[t], none⟩
    else
      let s := scanFrom total rest
      ⟨t :: s.tokens, s.fault⟩
termination_by cs.length
decreasing_by
  rcases next_shorter _h with h | h
  · exact h
  · exact absurd h.1 _ht

/-- The tokens of a text up to its end or its first fault. -/
def scan (s : String) : Scan := scanFrom s.toList.length s.toList

/-- The tokens of a text, `endOfInput` last. -/
def ofText (s : String) : Except QueryError (List Token) :=
  let r := scan s
  match r.fault with
  | some e => .error e
  | none => .ok r.tokens

end Token

end ArtifactQuery
