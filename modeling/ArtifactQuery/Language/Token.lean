/-!
# Tokens

The words and signs of query text.

* `Token`: names, texts, numbers, the three constants and the delimiters.
* `Token.shown`: a token as messages name it.
-/

namespace ArtifactQuery

/-- A word or sign of query text. -/
inductive Token
  | identifier (name : String)
  | text (s : String)
  | number (n : Int)
  | true
  | false
  | null
  | dot
  | comma
  | colon
  | leftParen
  | rightParen
  | leftBrace
  | rightBrace
  | leftBracket
  | rightBracket
  | endOfInput
  deriving DecidableEq, Repr

/-- A token as messages name it. -/
def Token.shown : Token → String
  | identifier s => "identifier '" ++ s ++ "'"
  | text s => "string \"" ++ s ++ "\""
  | number n => "number " ++ toString n
  | true => "true"
  | false => "false"
  | null => "null"
  | dot => "'.'"
  | comma => "','"
  | colon => "':'"
  | leftParen => "'('"
  | rightParen => "')'"
  | leftBrace => "'\x7b'"
  | rightBrace => "'\x7d'"
  | leftBracket => "'['"
  | rightBracket => "']'"
  | endOfInput => "end of input"

end ArtifactQuery
