import ArtifactQuery.Language.Lexer
import Mathlib.Data.List.Basic

/-!
# Spelling tokens

A token can be spelled in many ways: a text in either kind of quotes, with or without backslashes,
and with blanks around it. All spellings are read as the same token.

* `has_of_isBlank`: sets of characters without blanks.
* `Token.Lexeme`: the spellings of a token.
* `Token.Ends`: what follows a token does not continue it.
* `Token.Spelled`: the spellings of several tokens, with blanks around them.
* `ofText_of_spelled`: reading a spelling gives the tokens.
* `Token.written`, `Token.line`: one spelling of every token that has any, and a text of them.
-/

namespace ArtifactQuery

/-! ## Characters -/

/-- No letter comes before A. -/
theorem isLetter_of_lt {c : Char} (h : c.toNat < 65) : isLetter c = false := by
  have hletters : letters = (65, 90) :: letters.tail := rfl
  rw [isLetter, CharSet.has, hletters, CharSet.covers, if_pos h]

theorem exists_range_of_covers {s : CharSet} {n : Nat} (h : s.covers n = true) :
    ∃ r ∈ s, r.1 ≤ n ∧ n ≤ r.2 := by
  induction s with
  | nil => cases h
  | cons r s ih =>
    rw [CharSet.covers] at h
    split at h
    case isTrue => cases h
    case isFalse hlow =>
      rcases Bool.or_eq_true_iff.1 h with hhigh | h
      · exact ⟨r, List.mem_cons_self, Nat.le_of_not_lt hlow, of_decide_eq_true hhigh⟩
      · obtain ⟨r', hr', hn⟩ := ih h
        exact ⟨r', List.mem_cons_of_mem _ hr', hn⟩

/-- The code points of blanks. -/
def blankCodes : List Nat := blanks.flatMap fun r => List.range' r.1 (r.2 + 1 - r.1)

theorem mem_blankCodes {c : Char} (h : isBlank c = true) : c.toNat ∈ blankCodes := by
  obtain ⟨r, hr, hlow, hhigh⟩ := exists_range_of_covers h
  exact List.mem_flatMap.2 ⟨r, hr, List.mem_range'_1.2 (by omega)⟩

/-- A set that has no code point of a blank has no blank. -/
theorem has_of_isBlank {s : CharSet} (hs : ∀ n ∈ blankCodes, s.covers n = false) {c : Char}
    (h : isBlank c = true) : s.has c = false :=
  hs c.toNat (mem_blankCodes h)

/-- A blank is no letter. -/
theorem isLetter_of_isBlank {c : Char} (h : isBlank c = true) : isLetter c = false :=
  has_of_isBlank (by decide +kernel) h

/-- A blank is no numeral. -/
theorem isNumeral_of_isBlank {c : Char} (h : isBlank c = true) : isNumeral c = false :=
  has_of_isBlank (by decide +kernel) h

/-- A blank continues no name. -/
theorem isNameChar_of_isBlank {c : Char} (h : isBlank c = true) : isNameChar c = false := by
  have hunderscore : c ≠ '_' := by
    rintro rfl
    exact absurd h (by decide)
  have hdollar : c ≠ '$' := by
    rintro rfl
    exact absurd h (by decide)
  rw [isNameChar, isLetterOrNumeral, isLetter_of_isBlank h, isNumeral_of_isBlank h,
    decide_eq_false hunderscore, decide_eq_false hdollar]
  rfl

theorem isBlank_of_isNameStart {c : Char} (h : isNameStart c = true) : isBlank c = false := by
  by_contra hblank
  rw [Bool.not_eq_false] at hblank
  rw [isNameStart, isLetter_of_isBlank hblank, Bool.false_or, Bool.or_eq_true,
    decide_eq_true_eq, decide_eq_true_eq] at h
  rcases h with rfl | rfl <;> exact absurd hblank (by decide)

theorem isNameStart_of_isDigit {c : Char} (h : c.isDigit = true) : isNameStart c = false := by
  obtain ⟨hlow, hhigh⟩ := Char.isDigit_iff_toNat.1 h
  have hletter : isLetter c = false := isLetter_of_lt (Nat.lt_of_le_of_lt hhigh (by decide))
  have hunderscore : c ≠ '_' := by
    rintro rfl
    exact absurd hhigh (by decide)
  have hdollar : c ≠ '$' := by
    rintro rfl
    exact absurd hlow (by decide)
  rw [isNameStart, hletter, decide_eq_false hunderscore, decide_eq_false hdollar]
  rfl

theorem isBlank_of_isDigit {c : Char} (h : c.isDigit = true) : isBlank c = false := by
  obtain ⟨hlow, hhigh⟩ := Char.isDigit_iff_toNat.1 h
  change 48 ≤ c.toNat at hlow
  change c.toNat ≤ 57 at hhigh
  by_contra hblank
  rw [Bool.not_eq_false] at hblank
  have hcodes : ∀ n ∈ blankCodes, n < 48 ∨ 57 < n := by decide
  have := hcodes c.toNat (mem_blankCodes hblank)
  omega

/-- A run of characters is taken up to the first one that is not of its kind. -/
theorem takeWhile_dropWhile_append {p : Char → Bool} {cs rest : List Char}
    (hcs : cs.all p) (hrest : ¬ rest.head?.any p) :
    (cs ++ rest).takeWhile p = cs ∧ (cs ++ rest).dropWhile p = rest := by
  induction cs with
  | nil =>
    cases rest with
    | nil => exact ⟨rfl, rfl⟩
    | cons c rest =>
      have hc : ¬ p c = true := by simpa using hrest
      rw [List.nil_append, List.takeWhile_cons_of_neg hc, List.dropWhile_cons_of_neg hc]
      exact ⟨rfl, rfl⟩
  | cons c cs ih =>
    rw [List.all_cons, Bool.and_eq_true] at hcs
    obtain ⟨htake, hdrop⟩ := ih hcs.2
    rw [List.cons_append, List.takeWhile_cons_of_pos hcs.1, List.dropWhile_cons_of_pos hcs.1,
      htake, hdrop]
    exact ⟨rfl, rfl⟩

namespace Token

/-! ## Lexemes -/

/-- The characters between quotes `q` that stand for a content. -/
inductive Quotes (q : Char) : List Char → List Char → Prop
  | nil : Quotes q [] []
  | plain {c : Char} {cs content : List Char} (hq : c ≠ q) (hbackslash : c ≠ '\\')
      (h : Quotes q cs content) : Quotes q (c :: cs) (c :: content)
  | escape (e : Char) {cs content : List Char} (h : Quotes q cs content) :
      Quotes q ('\\' :: e :: cs) (unescape e :: content)

/-- The spellings of a token. -/
inductive Lexeme : Token → List Char → Prop
  | delimiter {c : Char} {t : Token} (h : ofDelimiter? c = some t) : Lexeme t [c]
  | text {q : Char} {cs content : List Char} (hq : q = '"' ∨ q = '\'') (h : Quotes q cs content) :
      Lexeme (.text (String.ofList content)) (q :: cs ++ [q])
  | number {c : Char} {cs : List Char} {n : Int} (hdigits : (c :: cs).all Char.isDigit)
      (h : Signed64.ofChars? (c :: cs) = some n) : Lexeme (.number n) (c :: cs)
  | negative {c : Char} {cs : List Char} {n : Int} (hdigits : (c :: cs).all Char.isDigit)
      (h : Signed64.ofChars? ('-' :: c :: cs) = some n) : Lexeme (.number n) ('-' :: c :: cs)
  | name {c : Char} {cs : List Char} (hstart : isNameStart c)
      (hnext : cs.all isNameChar) : Lexeme (ofName (c :: cs)) (c :: cs)

/-- Whether what follows a token does not continue it. -/
def Ends : Token → List Char → Prop
  | .number _, rest => ¬ rest.head?.any Char.isDigit ∧ ¬ startsFraction rest
  | .identifier _, rest | .true, rest | .false, rest | .null, rest =>
    ¬ rest.head?.any isNameChar
  | _, _ => True

/-- A blank continues no token. -/
theorem ends_of_blank {rest : List Char} (h : rest.head?.all isBlank) (t : Token) :
    Ends t rest := by
  have hnot : ∀ p : Char → Bool, (∀ c, isBlank c = Bool.true → p c = Bool.false) →
      ¬ rest.head?.any p := by
    intro p hp hany
    cases rest with
    | nil => cases hany
    | cons c rest =>
      have hc : isBlank c = Bool.true := by simpa using h
      have hpc : p c = Bool.true := by simpa using hany
      rw [hp c hc] at hpc
      cases hpc
  have hname := hnot isNameChar fun _ => isNameChar_of_isBlank
  have hdigit := hnot Char.isDigit fun c hc => by
    by_contra hdigit
    rw [Bool.not_eq_false] at hdigit
    rw [isBlank_of_isDigit hdigit] at hc
    cases hc
  -- A fraction would start with a dot.
  have hfraction : ¬ startsFraction rest := by
    unfold startsFraction
    split
    · have hdot : isBlank '.' = Bool.true := h
      exact absurd hdot (by decide)
    · exact Bool.false_ne_true
  cases t with
  | number n => exact ⟨hdigit, hfraction⟩
  | identifier s => exact hname
  | true => exact hname
  | false => exact hname
  | null => exact hname
  | _ => exact trivial

theorem quoted_of_quotes {q : Char} (hq : q ≠ '\\') {cs content : List Char}
    (h : Quotes q cs content) (rest : List Char) :
    quoted q (cs ++ q :: rest) = some (content, rest) := by
  induction h with
  | nil =>
    unfold quoted
    exact if_pos rfl
  | plain hne hbackslash _ ih =>
    rw [List.cons_append]
    unfold quoted
    rw [if_neg hne, if_neg hbackslash, ih]
    rfl
  | escape e _ ih =>
    rw [List.cons_append, List.cons_append]
    unfold quoted
    rw [if_neg hq.symm, if_pos rfl]
    dsimp only
    rw [ih]
    rfl

/-- What a delimiter is not. -/
theorem of_ofDelimiter? {c : Char} {t : Token} (h : ofDelimiter? c = some t) :
    ¬ (c = '"' ∨ c = '\'') ∧ c ≠ '-' ∧ ¬ c.isDigit ∧ ¬ isNameStart c ∧ ¬ isBlank c := by
  unfold ofDelimiter? at h
  split at h
  case h_10 => cases h
  all_goals decide +kernel

/-- What the start of a name is not. -/
theorem of_isNameStart {c : Char} (h : isNameStart c) :
    ¬ (c = '"' ∨ c = '\'') ∧ c ≠ '-' ∧ ¬ c.isDigit ∧ ¬ isBlank c := by
  refine ⟨?_, ?_, fun hdigit => ?_, fun hblank => ?_⟩
  · rintro (rfl | rfl) <;> exact absurd h (by decide +kernel)
  · rintro rfl
    exact absurd h (by decide +kernel)
  · rw [isNameStart_of_isDigit hdigit] at h
    cases h
  · rw [isBlank_of_isNameStart h] at hblank
    cases hblank

theorem of_isDigit {c : Char} (h : c.isDigit) : ¬ (c = '"' ∨ c = '\'') ∧ c ≠ '-' := by
  refine ⟨?_, ?_⟩
  · rintro (rfl | rfl) <;> exact absurd h (by decide)
  · rintro rfl
    exact absurd h (by decide)

theorem number?_of_ends {p : Nat} {sign digits rest : List Char} {n : Int}
    (hrest : ¬ startsFraction rest) (h : Signed64.ofChars? (sign ++ digits) = some n) :
    number? p sign digits rest = .ok (number n, rest) := by
  rw [number?, if_neg hrest, h]

theorem ends_ofName {cs rest : List Char} :
    Ends (ofName cs) rest ↔ ¬ rest.head?.any isNameChar := by
  unfold ofName
  dsimp only
  split
  · exact Iff.rfl
  split
  · exact Iff.rfl
  split <;> exact Iff.rfl

/-- A spelling of a token is read as this token, up to its end. -/
theorem startingWith_of_lexeme {t : Token} {c : Char} {cs rest : List Char}
    (h : Lexeme t (c :: cs)) (hrest : Ends t rest) (p : Nat) :
    startingWith p c (cs ++ rest) = .ok (t, rest) := by
  rw [startingWith]
  generalize hw : c :: cs = w at h
  -- Each kind of spelling starts with characters that no other kind starts with, so the first
  -- character decides on the branch that reads it.
  cases h with
  | delimiter h =>
    cases hw
    obtain ⟨hquote, hminus, hdigit, hname, -⟩ := of_ofDelimiter? h
    rw [if_neg hquote, if_neg (fun hm => hminus hm.1), if_neg hdigit, if_neg hname, h]
    rfl
  | @text q body content hq hquotes =>
    cases hw
    have hbackslash : c ≠ '\\' := by
      rintro rfl
      exact absurd hq (by decide)
    have hquoted := quoted_of_quotes hbackslash hquotes rest
    have hshape : body.append [c] ++ rest = body ++ c :: rest := List.append_assoc body [c] rest
    rw [if_pos hq, hshape, hquoted]
  | @number c' cs' n hdigits hn =>
    cases hw
    rw [List.all_cons, Bool.and_eq_true] at hdigits
    obtain ⟨hquote, hminus⟩ := of_isDigit hdigits.1
    obtain ⟨htake, hdrop⟩ := takeWhile_dropWhile_append hdigits.2 hrest.1
    rw [if_neg hquote, if_neg (fun hm => hminus hm.1), if_pos hdigits.1, htake, hdrop]
    exact number?_of_ends hrest.2 hn
  | @negative c' cs' n hdigits hn =>
    cases hw
    obtain ⟨htake, hdrop⟩ := takeWhile_dropWhile_append hdigits hrest.1
    rw [List.all_cons, Bool.and_eq_true] at hdigits
    rw [if_neg (by decide), if_pos ⟨rfl, by simpa using hdigits.1⟩, htake, hdrop]
    exact number?_of_ends hrest.2 hn
  | @name c' cs' hstart hnext =>
    cases hw
    obtain ⟨hquote, hminus, hdigit, -⟩ := of_isNameStart hstart
    obtain ⟨htake, hdrop⟩ := takeWhile_dropWhile_append hnext (ends_ofName.1 hrest)
    rw [if_neg hquote, if_neg (fun hm => hminus hm.1), if_neg hdigit, if_pos hstart, htake, hdrop]

/-- A spelling of a token has no blank in front. -/
theorem isBlank_of_lexeme {t : Token} {c : Char} {cs : List Char} (h : Lexeme t (c :: cs)) :
    ¬ isBlank c := by
  generalize hw : c :: cs = w at h
  cases h with
  | delimiter h =>
    cases hw
    obtain ⟨-, -, -, -, hblank⟩ := of_ofDelimiter? h
    exact hblank
  | text hq _ =>
    cases hw
    rcases hq with rfl | rfl <;> decide
  | number hdigits _ =>
    cases hw
    rw [List.all_cons, Bool.and_eq_true] at hdigits
    rw [isBlank_of_isDigit hdigits.1]
    exact Bool.false_ne_true
  | negative _ _ =>
    cases hw
    decide
  | name hstart _ =>
    cases hw
    obtain ⟨-, -, -, hblank⟩ := of_isNameStart hstart
    exact hblank

/-- Only the end of the text is spelled by nothing. -/
theorem ne_nil_of_lexeme {t : Token} {cs : List Char} (h : Lexeme t cs) : cs ≠ [] := by
  cases h <;> exact List.cons_ne_nil _ _

theorem ne_endOfInput_of_lexeme {t : Token} {cs : List Char} (h : Lexeme t cs) :
    t ≠ .endOfInput := by
  rintro rfl
  generalize ht : Token.endOfInput = t at h
  cases h with
  | delimiter h =>
    subst ht
    unfold ofDelimiter? at h
    split at h <;> cases h
  | text => cases ht
  | number => cases ht
  | negative => cases ht
  | name =>
    unfold ofName at ht
    dsimp only at ht
    split at ht
    · cases ht
    split at ht
    · cases ht
    split at ht <;> cases ht

/-- The blanks before a spelling of a token are skipped, and the token is taken. -/
theorem next_of_lexeme {t : Token} {blanks cs rest : List Char} (hblanks : blanks.all isBlank)
    (h : Lexeme t cs) (hrest : Ends t rest) (total : Nat) :
    next total (blanks ++ (cs ++ rest)) = .ok (t, rest) := by
  cases cs with
  | nil => exact absurd rfl (ne_nil_of_lexeme h)
  | cons c cs =>
    have hhead : ¬ (c :: cs ++ rest).head?.any isBlank := isBlank_of_lexeme h
    have htrim : trimFront (blanks ++ (c :: cs ++ rest)) = c :: (cs ++ rest) :=
      (takeWhile_dropWhile_append hblanks hhead).2
    unfold next
    rw [htrim]
    exact startingWith_of_lexeme h hrest _

/-! ## Texts -/

/-- The spellings of tokens: each one with blanks in front, and blanks behind the last. -/
inductive Spelled : List Token → List Char → Prop
  | done {blanks : List Char} (hblanks : blanks.all isBlank) : Spelled [] blanks
  | token {t : Token} {ts : List Token} {blanks cs rest : List Char}
      (hblanks : blanks.all isBlank) (h : Lexeme t cs) (hends : Ends t rest)
      (hrest : Spelled ts rest) : Spelled (t :: ts) (blanks ++ (cs ++ rest))

theorem scanFrom_of_next {total : Nat} {cs rest : List Char} {t : Token} (ht : t ≠ .endOfInput)
    (h : next total cs = .ok (t, rest)) : scanFrom total cs =
      ⟨t :: (scanFrom total rest).tokens, (scanFrom total rest).fault⟩ := by
  rw [scanFrom]
  split
  · rename_i e he
    rw [h] at he
    cases he
  · rename_i t' rest' h'
    rw [h] at h'
    cases h'
    rw [dif_neg ht]

theorem scanFrom_of_end {total : Nat} {cs rest : List Char}
    (h : next total cs = .ok (.endOfInput, rest)) :
    scanFrom total cs = ⟨[.endOfInput], none⟩ := by
  rw [scanFrom]
  split
  · rename_i e he
    rw [h] at he
    cases he
  · rename_i t' rest' h'
    rw [h] at h'
    cases h'
    rw [dif_pos rfl]

theorem scanFrom_of_spelled {ts : List Token} {cs : List Char} (h : Spelled ts cs) (total : Nat) :
    scanFrom total cs = ⟨ts ++ [.endOfInput], none⟩ := by
  induction h with
  | @done blanks hblanks =>
    have hend : ¬ ([] : List Char).head?.any isBlank := Bool.false_ne_true
    have htrim := (takeWhile_dropWhile_append hblanks hend).2
    have hnext : next total blanks = .ok (.endOfInput, []) := by
      rw [List.append_nil] at htrim
      unfold next trimFront
      rw [htrim]
    exact scanFrom_of_end hnext
  | token hblanks h hends _ ih =>
    have hnext := next_of_lexeme hblanks h hends total
    rw [scanFrom_of_next (ne_endOfInput_of_lexeme h) hnext, ih]
    rfl

/-- Reading a spelling of tokens gives these tokens. -/
theorem ofText_of_spelled {ts : List Token} {text : String} (h : Spelled ts text.toList) :
    ofText text = .ok (ts ++ [.endOfInput]) := by
  unfold ofText scan
  rw [scanFrom_of_spelled h]

/-! ## One spelling -/

/-- The content of a text with a backslash in front of each quote and each backslash. -/
def escaped : List Char → List Char
  | [] => []
  | c :: cs => if c = '"' ∨ c = '\\' then '\\' :: c :: escaped cs else c :: escaped cs

/-- One spelling of a token, if it has any. -/
def written : Token → List Char
  | identifier s => s.toList
  | text s => '"' :: escaped s.toList ++ ['"']
  | number (.ofNat n) => Nat.toDigits 10 n
  | number (.negSucc n) => '-' :: Nat.toDigits 10 (n + 1)
  | true => ['t', 'r', 'u', 'e']
  | false => ['f', 'a', 'l', 's', 'e']
  | null => ['n', 'u', 'l', 'l']
  | dot => ['.']
  | comma => [',']
  | colon => [':']
  | leftParen => ['(']
  | rightParen => [')']
  | leftBrace => ['\x7b']
  | rightBrace => ['\x7d']
  | leftBracket => ['[']
  | rightBracket => [']']
  | endOfInput => []

/-- Whether a token can be spelled. -/
def Spellable : Token → Prop
  | identifier s => s.toList.head?.any isNameStart ∧ s.toList.all isNameChar ∧
      ofName s.toList = identifier s
  | number n => Signed64.Fits n
  | endOfInput => False
  | _ => True

instance (t : Token) : Decidable t.Spellable :=
  match t with
  | identifier s => inferInstanceAs (Decidable (s.toList.head?.any isNameStart ∧
      s.toList.all isNameChar ∧ ofName s.toList = identifier s))
  | number n => inferInstanceAs (Decidable (Signed64.Fits n))
  | endOfInput => isFalse id
  | text _ | true | false | null | dot | comma | colon | leftParen | rightParen | leftBrace
  | rightBrace | leftBracket | rightBracket => isTrue trivial

theorem quotes_escaped (content : List Char) : Quotes '"' (escaped content) content := by
  induction content with
  | nil => exact .nil
  | cons c content ih =>
    unfold escaped
    by_cases hc : c = '"' ∨ c = '\\'
    · rw [if_pos hc]
      have hescape := Quotes.escape c ih
      have hsame : unescape c = c := by rcases hc with rfl | rfl <;> rfl
      rw [hsame] at hescape
      exact hescape
    · rw [if_neg hc]
      rw [not_or] at hc
      exact .plain hc.1 hc.2 ih

theorem ofChars?_of_digits {c : Char} {cs : List Char} (hdigits : (c :: cs).all Char.isDigit) :
    Signed64.ofChars? (c :: cs) = Signed64.check? (Signed64.ofDigits (c :: cs)) := by
  have hmagnitude : Signed64.magnitude? (c :: cs) = some (Signed64.ofDigits (c :: cs)) :=
    if_pos ⟨List.cons_ne_nil c cs, hdigits⟩
  rw [List.all_cons, Bool.and_eq_true] at hdigits
  unfold Signed64.ofChars?
  split
  · rename_i heq
    cases heq
    exact absurd hdigits.1 (by decide)
  · rename_i heq
    cases heq
    exact absurd hdigits.1 (by decide)
  · rw [hmagnitude]
    rfl

theorem ofChars?_minus_of_digits {c : Char} {cs : List Char}
    (hdigits : (c :: cs).all Char.isDigit) : Signed64.ofChars? ('-' :: c :: cs) =
      Signed64.check? (-(Signed64.ofDigits (c :: cs) : Int)) := by
  have hmagnitude : Signed64.magnitude? (c :: cs) = some (Signed64.ofDigits (c :: cs)) :=
    if_pos ⟨List.cons_ne_nil c cs, hdigits⟩
  show (Signed64.magnitude? (c :: cs)).bind (fun n : Nat => Signed64.check? (-n)) = _
  rw [hmagnitude]
  rfl

/-- The decimal digits of a number are digits, and spell it. -/
theorem exists_toDigits (n : Nat) : ∃ c cs, Nat.toDigits 10 n = c :: cs ∧
    (c :: cs).all Char.isDigit ∧ Signed64.ofDigits (c :: cs) = n := by
  obtain ⟨c, cs, hcons⟩ := List.exists_cons_of_ne_nil (Nat.toDigits_ne_nil : Nat.toDigits 10 n ≠ [])
  have hdigits : ∀ d ∈ Nat.toDigits 10 n, d.isDigit :=
    fun d hd => Nat.isDigit_of_mem_toDigits (by decide) (by decide) hd
  have hvalue : Nat.ofDigitChars 10 (Nat.toDigits 10 n) 0 = n := Nat.ofDigitChars_ten_toDigits
  rw [Nat.ofDigitChars_eq_foldl] at hvalue
  rw [hcons] at hdigits hvalue
  exact ⟨c, cs, hcons, List.all_eq_true.2 hdigits, hvalue⟩

theorem lexeme_written_number {n : Int} (h : Signed64.Fits n) :
    Lexeme (number n) (written (number n)) := by
  cases n with
  | ofNat n =>
    obtain ⟨c, cs, hcons, hdigits, hvalue⟩ := exists_toDigits n
    have hn : Signed64.ofChars? (c :: cs) = some (n : Int) := by
      rw [ofChars?_of_digits hdigits, hvalue]
      exact if_pos h
    have hwritten : written (number (.ofNat n)) = c :: cs := hcons
    rw [hwritten]
    exact .number hdigits hn
  | negSucc n =>
    obtain ⟨c, cs, hcons, hdigits, hvalue⟩ := exists_toDigits (n + 1)
    have hn : Signed64.ofChars? ('-' :: c :: cs) = some (.negSucc n) := by
      rw [ofChars?_minus_of_digits hdigits, hvalue]
      exact if_pos h
    have hwritten : written (number (.negSucc n)) = '-' :: c :: cs := congrArg ('-' :: ·) hcons
    rw [hwritten]
    exact .negative hdigits hn

/-- What is written for a token is a spelling of it. -/
theorem lexeme_written {t : Token} (h : t.Spellable) : Lexeme t t.written := by
  cases t with
  | identifier s =>
    obtain ⟨hstart, hall, hname⟩ := h
    show Lexeme (identifier s) s.toList
    rw [← hname]
    cases hs : s.toList with
    | nil =>
      rw [hs] at hstart
      cases hstart
    | cons c cs =>
      rw [hs] at hstart hall
      rw [List.all_cons, Bool.and_eq_true] at hall
      exact .name hstart hall.2
  | text s =>
    have hlexeme := Lexeme.text (.inl rfl) (quotes_escaped s.toList)
    rw [String.ofList_toList] at hlexeme
    exact hlexeme
  | number n => exact lexeme_written_number h
  | true =>
    have hstart : isNameStart 't' := by decide +kernel
    have hnext : ['r', 'u', 'e'].all isNameChar := by decide +kernel
    exact .name hstart hnext
  | false =>
    have hstart : isNameStart 'f' := by decide +kernel
    have hnext : ['a', 'l', 's', 'e'].all isNameChar := by decide +kernel
    exact .name hstart hnext
  | null =>
    have hstart : isNameStart 'n' := by decide +kernel
    have hnext : ['u', 'l', 'l'].all isNameChar := by decide +kernel
    exact .name hstart hnext
  | endOfInput => exact h.elim
  | dot => exact .delimiter rfl
  | comma => exact .delimiter rfl
  | colon => exact .delimiter rfl
  | leftParen => exact .delimiter rfl
  | rightParen => exact .delimiter rfl
  | leftBrace => exact .delimiter rfl
  | rightBrace => exact .delimiter rfl
  | leftBracket => exact .delimiter rfl
  | rightBracket => exact .delimiter rfl

/-- One spelling of tokens: each of them behind a blank. -/
def line : List Token → List Char
  | [] => []
  | t :: ts => ' ' :: (t.written ++ line ts)

/-- A line starts with a blank. -/
theorem ends_line (t : Token) (ts : List Token) : Ends t (line ts) := by
  refine ends_of_blank ?_ t
  cases ts with
  | nil => rfl
  | cons u ts => exact (by decide : isBlank ' ' = Bool.true)

/-- Tokens that can be spelled are spelled by their line. -/
theorem spelled_line {ts : List Token} (h : ∀ t ∈ ts, t.Spellable) : Spelled ts (line ts) := by
  induction ts with
  | nil => exact .done rfl
  | cons t ts ih =>
    rw [List.forall_mem_cons] at h
    have hblank : [' '].all isBlank := by decide
    exact .token hblank (lexeme_written h.1) (ends_line t ts) (ih h.2)

end Token

end ArtifactQuery
