import ArtifactQuery.Language.Parser
import ArtifactQuery.Proofs.Outcome
import ArtifactQuery.Proofs.Spelling
import ArtifactQuery.Text.Segments

/-!
# Printing statements

The tokens that spell a statement, and that reading them gives the statement back.

* `Entry.tokens`, `Method.tokens`, `Statement.tokens`: the tokens of a tree.
* `Entry.Proper`: a tree that text can spell: keys are no signs, and a field has a test.
* `Parsed.Yields`: a reader's result is a given value, with given tokens left.
* `ofTokens_tokens`: a statement is read back from its tokens.
* `exists_spelled`, `statement_ofText`: it has a text, and all its texts are read as it.
-/

namespace ArtifactQuery

/-! ## Tokens of trees -/

/-- Runs of tokens with a comma between two. -/
def Token.listed : List (List Token) → List Token
  | [] => []
  | [p] => p
  | p :: q :: ps => p ++ comma :: listed (q :: ps)

theorem Token.listed_cons {p : List Token} {ps : List (List Token)} (h : ps ≠ []) :
    listed (p :: ps) = p ++ comma :: listed ps := by
  cases ps with
  | nil => exact absurd rfl h
  | cons q ps => rfl

/-- The token of a literal. -/
def Literal.token : Literal → Token
  | text s => .text s
  | number n => .number n
  | truth true => .true
  | truth false => .false
  | null => .null

/-- The tokens of a key and of what stands under it. -/
def Token.keyed (key : String) (ts : List Token) : List Token := text key :: colon :: ts

theorem Token.keyed_append (key : String) (ts rest : List Token) :
    keyed key ts ++ rest = text key :: colon :: (ts ++ rest) := rfl

/-- The tokens between two signs. -/
def Token.enclosed (opening closing : Token) (ts : List Token) : List Token :=
  opening :: (ts ++ [closing])

theorem Token.enclosed_append (opening closing : Token) (ts rest : List Token) :
    enclosed opening closing ts ++ rest = opening :: (ts ++ closing :: rest) := by
  rw [enclosed, List.cons_append, List.append_assoc, List.singleton_append]

mutual

/-- The tokens of an entry. -/
def Entry.tokens : Entry → List Token
  | .equals p v => Token.keyed p [v.token]
  | .compares p ts => Token.keyed p (Token.enclosed .leftBrace .rightBrace
      (Token.listed (ts.map fun t => Token.keyed t.1 [t.2.token])))
  | .objects c ms => Token.keyed c.signature
      (Token.enclosed .leftBracket .rightBracket (Token.listed (Entry.tokensOfMembers ms)))
  | .object c es => Token.keyed c.signature
      (Token.enclosed .leftBrace .rightBrace (Token.listed (Entry.tokensOfEntries es)))

/-- The tokens of each entry. -/
def Entry.tokensOfEntries : List Entry → List (List Token)
  | [] => []
  | e :: es => e.tokens :: Entry.tokensOfEntries es

/-- The tokens of each object in an array. -/
def Entry.tokensOfMembers : List (List Entry) → List (List Token)
  | [] => []
  | m :: ms =>
    Token.enclosed .leftBrace .rightBrace (Token.listed (Entry.tokensOfEntries m)) ::
      Entry.tokensOfMembers ms

end

/-- The tokens of texts. -/
def Token.texts (ss : List String) : List Token := listed (ss.map fun s => [text s])

namespace Method

/-- The name by which a method is called. -/
def name : Method → String
  | returning _ => "include"
  | sort _ _ => "sort"
  | offset _ => "offset"
  | limit _ => "limit"
  | dryRun _ => "dryRun"
  | keys _ => "keys"
  | newValue _ => "newValue"

/-- The tokens of a method's arguments. -/
def arguments : Method → List Token
  | returning ps => Token.texts ps
  | sort d ps => Token.enclosed .leftBrace .rightBrace
      (Token.keyed d (Token.enclosed .leftBracket .rightBracket (Token.texts ps)))
  | offset n => [.number n]
  | limit n => [.number n]
  | dryRun b => [(Literal.truth b).token]
  | keys ks => Token.texts ks
  | newValue v => [v.token]

/-- The tokens of a call. -/
def tokens (m : Method) : List Token :=
  .dot :: .identifier m.name :: Token.enclosed .leftParen .rightParen m.arguments

end Method

/-- The tokens of a statement, without the end of input. -/
def Statement.tokens (s : Statement) : List Token :=
  (segments '.' s.domain).flatMap (fun n => [.identifier n, .dot]) ++
    .identifier s.action :: Token.enclosed .leftParen .rightParen
      (Token.enclosed .leftBrace .rightBrace (Token.listed (Entry.tokensOfEntries s.criteria))) ++
    s.methods.flatMap Method.tokens

/-! ## Trees that text can spell -/

/-- Whether a key names a field or a property: it is no sign. -/
def IsFieldKey (key : String) : Prop := key.toList.head? ≠ some '$'

/-- Whether a literal is representable. -/
def Literal.Fits : Literal → Prop
  | number n => Signed64.Fits n
  | _ => True

/-- Whether the arguments of a method are representable. -/
def Method.Fits : Method → Prop
  | offset n | limit n => Signed64.Fits n
  | newValue v => v.Fits
  | _ => True

/-- Whether a comparator is spelled so. -/
def IsSignature (signature : String) : Prop := ∃ c : Comparator, c.signature = signature

mutual

/-- Whether an entry is one that text can spell, with known comparators: the key of a field does
not start with `$`, and a field has at least one test. -/
def Entry.Proper : Entry → Prop
  | .equals p v => IsFieldKey p ∧ v.Fits
  | .compares p ts => IsFieldKey p ∧ ts ≠ [] ∧ ∀ t ∈ ts, IsSignature t.1 ∧ t.2.Fits
  | .objects _ ms => Entry.ProperMembers ms
  | .object _ es => Entry.ProperEntries es

/-- Whether all entries are proper. -/
def Entry.ProperEntries : List Entry → Prop
  | [] => True
  | e :: es => e.Proper ∧ Entry.ProperEntries es

/-- Whether all entries of all objects are proper. -/
def Entry.ProperMembers : List (List Entry) → Prop
  | [] => True
  | m :: ms => Entry.ProperEntries m ∧ Entry.ProperMembers ms

end

theorem signed?_of_isFieldKey {key : String} (h : IsFieldKey key) :
    Connective.signed? key = none := by
  unfold Connective.signed?
  rw [List.find?_eq_none]
  intro c _ hc
  rw [decide_eq_true_eq] at hc
  subst hc
  cases c <;> exact h rfl

theorem signed?_signature (c : Connective) : Connective.signed? c.signature = some c := by
  cases c <;> rfl

/-! ## Reading -/

namespace Parsed

/-- Whether a reader takes the value `a` and leaves `rest`. -/
def Yields {α : Type} {n : Nat} (r : Result α n) (a : α) (rest : List Token) : Prop :=
  ∃ h, r = .ok ⟨a, rest, h⟩

section Yields

variable {α β : Type} {n m : Nat}

theorem Yields.ok {p : Parsed α n} {a : α} {rest : List Token} (ha : p.value = a)
    (hrest : p.rest = rest) : Yields (.ok p) a rest := by
  obtain ⟨value, left, hshorter⟩ := p
  cases ha
  cases hrest
  exact ⟨hshorter, rfl⟩

/-- Behind a reader, another one reads what is left. -/
theorem Yields.bind {r : Result α n} {k : Parsed α n → Result β m} {a : α} {b : β}
    {rest rest' : List Token} (h : Yields r a rest)
    (hk : ∀ h, Yields (k ⟨a, rest, h⟩) b rest') : Yields (r >>= k) b rest' := by
  obtain ⟨hshorter, rfl⟩ := h
  exact hk hshorter

theorem Yields.asMethod {f : α → Method} {r : Result α n} {a : α} {rest : List Token}
    (h : Yields r a rest) : Yields (Parsed.asMethod f r) (f a) rest := by
  obtain ⟨hshorter, rfl⟩ := h
  exact ⟨hshorter, rfl⟩

theorem Yields.bind_eq {r : Result α n} {k : Parsed α n → Except QueryError β} {a : α}
    {rest : List Token} {x : Except QueryError β} (h : Yields r a rest)
    (hk : ∀ h, k ⟨a, rest, h⟩ = x) : (r >>= k) = x := by
  obtain ⟨hshorter, rfl⟩ := h
  exact hk hshorter

theorem Yields.widen {r : Result α n} {a : α} {rest : List Token} (h : Yields r a rest) :
    Yields (r.map fun p => (⟨p.value, p.rest, Nat.lt_succ_of_lt p.shorter⟩ : Parsed α (n + 1)))
      a rest := by
  obtain ⟨hshorter, rfl⟩ := h
  exact .ok rfl rfl

end Yields

/-! ### Single tokens -/

theorem yields_sign (t : Token) (rest : List Token) : Yields (sign t (t :: rest)) () rest :=
  ⟨by simp, if_pos rfl⟩

theorem yields_identifier (s : String) (rest : List Token) :
    Yields (identifier (.identifier s :: rest)) s rest :=
  ⟨by simp, rfl⟩

theorem yields_text (s : String) (rest : List Token) : Yields (text (.text s :: rest)) s rest :=
  ⟨by simp, rfl⟩

theorem yields_number (n : Int) (rest : List Token) :
    Yields (number (.number n :: rest)) n rest :=
  ⟨by simp, rfl⟩

theorem yields_literal (v : Literal) (rest : List Token) :
    Yields (literal (v.token :: rest)) v rest := by
  cases v with
  | text s => exact ⟨by simp, rfl⟩
  | number n => exact ⟨by simp, rfl⟩
  | truth b => cases b <;> exact ⟨by simp, rfl⟩
  | null => exact ⟨by simp, rfl⟩

theorem yields_truth (b : Bool) (rest : List Token) :
    Yields (truth ((Literal.truth b).token :: rest)) b rest := by
  cases b <;> exact ⟨by simp, rfl⟩

theorem token_ne_leftBrace (v : Literal) : v.token ≠ .leftBrace := by
  cases v with
  | truth b => cases b <;> exact Token.noConfusion
  | _ => exact Token.noConfusion

/-! ### Runs of texts -/

theorem textRun_texts (ss : List String) {closing : Token}
    (hclosing : closing = .rightParen ∨ closing = .rightBracket) (rest : List Token) :
    (textRun (Token.texts ss ++ closing :: rest)).value = ss ∧
      (textRun (Token.texts ss ++ closing :: rest)).rest = closing :: rest := by
  induction ss with
  | nil => rcases hclosing with rfl | rfl <;> exact ⟨rfl, rfl⟩
  | cons s ss ih =>
    cases ss with
    | nil => rcases hclosing with rfl | rfl <;> exact ⟨rfl, rfl⟩
    | cons s' ss => exact ⟨congrArg (s :: ·) ih.1, ih.2⟩

/-- Texts without brackets, up to the parenthesis. -/
theorem yields_texts (ss : List String) (rest : List Token) :
    Yields (texts (Token.texts ss ++ .rightParen :: rest)) ss (.rightParen :: rest) := by
  obtain ⟨hvalue, hrest⟩ := textRun_texts ss (.inl rfl) rest
  have hrun := Yields.ok hvalue hrest
  cases ss with
  | nil => exact hrun
  | cons s ss => cases ss <;> exact hrun

/-- Texts in brackets. -/
theorem yields_texts_enclosed (ss : List String) (rest : List Token) :
    Yields (texts (Token.enclosed .leftBracket .rightBracket (Token.texts ss) ++ rest)) ss
      rest := by
  rw [Token.enclosed_append]
  obtain ⟨hvalue, hrest⟩ := textRun_texts ss (.inr rfl) rest
  have hsign : Yields (sign .rightBracket (textRun (Token.texts ss ++ .rightBracket :: rest)).rest)
      () rest := by
    rw [hrest]
    exact yields_sign _ rest
  unfold texts
  exact hsign.bind fun _ => .ok hvalue rfl

/-! ### Criteria -/

theorem peek_cons (t : Token) (ts : List Token) : peek (t :: ts) = t := rfl

theorem yields_tests (ts : List (String × Literal)) (rest : List Token) :
    Yields (tests (Token.listed (ts.map fun t => Token.keyed t.1 [t.2.token]) ++
      .rightBrace :: rest)) ts rest := by
  -- A list of tests ends in the closing brace, and a comma stands between two of them only, so the
  -- last test is a case of its own. The same holds of entries and of members.
  induction ts with
  | nil =>
    show Yields (tests (.rightBrace :: rest)) [] rest
    unfold tests
    rw [if_pos (peek_cons .rightBrace rest)]
    exact (yields_sign _ rest).bind fun _ => .ok rfl rfl
  | cons t ts ih =>
    cases ts with
    | nil =>
      show Yields (tests (.text t.1 :: .colon :: t.2.token :: .rightBrace :: rest)) [t] rest
      unfold tests
      rw [if_neg Token.noConfusion]
      refine (yields_text t.1 _).bind fun _ => (yields_sign _ _).bind fun _ =>
        (yields_literal t.2 _).bind fun _ => ?_
      dsimp only
      rw [if_neg Token.noConfusion]
      exact (yields_sign _ rest).bind fun _ => .ok rfl rfl
    | cons t' ts =>
      have hmore : (t' :: ts).map (fun t => Token.keyed t.1 [t.2.token]) ≠ [] :=
        List.cons_ne_nil _ _
      rw [List.map_cons, Token.listed_cons hmore, List.append_assoc, List.cons_append,
        Token.keyed_append, List.singleton_append]
      unfold tests
      rw [if_neg Token.noConfusion]
      refine (yields_text t.1 _).bind fun _ => (yields_sign _ _).bind fun _ =>
        (yields_literal t.2 _).bind fun _ => ?_
      dsimp only
      rw [if_pos (peek_cons .comma _)]
      exact (yields_sign _ _).bind fun _ => ih.bind fun _ => .ok rfl rfl

/-- An entry starts with its key. -/
theorem exists_tokens (e : Entry) : ∃ key ts, e.tokens = .text key :: ts := by
  cases e with
  | equals p v => exact ⟨p, _, by rw [Entry.tokens, Token.keyed]⟩
  | compares p ts => exact ⟨p, _, by rw [Entry.tokens, Token.keyed]⟩
  | objects c ms => exact ⟨c.signature, _, by rw [Entry.tokens, Token.keyed]⟩
  | object c es => exact ⟨c.signature, _, by rw [Entry.tokens, Token.keyed]⟩

theorem peek_tokens_append (e : Entry) (ts : List Token) :
    peek (e.tokens ++ ts) ≠ .rightBrace := by
  obtain ⟨key, us, hus⟩ := exists_tokens e
  rw [hus]
  exact Token.noConfusion

/-- The entries of an object up to the closing brace, as far as each entry is read. -/
theorem yields_entries {es : List Entry}
    (hes : ∀ e ∈ es, ∀ rest, Yields (entry (e.tokens ++ rest)) e rest) (rest : List Token) :
    Yields (entries (Token.listed (es.map Entry.tokens) ++ .rightBrace :: rest)) es rest := by
  induction es with
  | nil =>
    show Yields (entries (.rightBrace :: rest)) [] rest
    unfold entries
    rw [if_pos (peek_cons .rightBrace rest)]
    exact (yields_sign _ rest).bind fun _ => .ok rfl rfl
  | cons e es ih =>
    rw [List.forall_mem_cons] at hes
    cases es with
    | nil =>
      show Yields (entries (e.tokens ++ .rightBrace :: rest)) [e] rest
      unfold entries
      rw [if_neg (peek_tokens_append e _)]
      refine (hes.1 _).bind fun _ => ?_
      dsimp only
      rw [if_neg Token.noConfusion]
      exact (yields_sign _ rest).bind fun _ => .ok rfl rfl
    | cons e' es =>
      have hmore : (e' :: es).map Entry.tokens ≠ [] := List.cons_ne_nil _ _
      rw [List.map_cons, Token.listed_cons hmore, List.append_assoc, List.cons_append]
      unfold entries
      rw [if_neg (peek_tokens_append e _)]
      refine (hes.1 _).bind fun _ => ?_
      dsimp only
      rw [if_pos (peek_cons .comma _)]
      exact (yields_sign _ _).bind fun _ => (ih hes.2).bind fun _ => .ok rfl rfl

/-- The tokens of an object. -/
def objectTokens (es : List Entry) : List Token :=
  Token.enclosed .leftBrace .rightBrace (Token.listed (es.map Entry.tokens))

theorem objectTokens_append (es : List Entry) (rest : List Token) : objectTokens es ++ rest =
    .leftBrace :: (Token.listed (es.map Entry.tokens) ++ .rightBrace :: rest) :=
  Token.enclosed_append ..

/-- The objects of an array up to the closing bracket, as far as each entry is read. -/
theorem yields_members {ms : List (List Entry)}
    (hms : ∀ m ∈ ms, ∀ e ∈ m, ∀ rest, Yields (entry (e.tokens ++ rest)) e rest)
    (rest : List Token) :
    Yields (members (Token.listed (ms.map objectTokens) ++ .rightBracket :: rest)) ms rest := by
  induction ms with
  | nil =>
    show Yields (members (.rightBracket :: rest)) [] rest
    unfold members
    rw [if_neg Token.noConfusion]
    exact (yields_sign _ rest).bind fun _ => .ok rfl rfl
  | cons m ms ih =>
    rw [List.forall_mem_cons] at hms
    cases ms with
    | nil =>
      show Yields (members (objectTokens m ++ .rightBracket :: rest)) [m] rest
      rw [objectTokens_append]
      unfold members
      rw [if_pos (peek_cons .leftBrace _)]
      refine (yields_sign _ _).bind fun _ => (yields_entries hms.1 _).bind fun _ => ?_
      dsimp only
      rw [if_neg Token.noConfusion]
      exact (yields_sign _ rest).bind fun _ => .ok rfl rfl
    | cons m' ms =>
      have hmore : (m' :: ms).map objectTokens ≠ [] := List.cons_ne_nil _ _
      rw [List.map_cons, Token.listed_cons hmore, List.append_assoc, List.cons_append,
        objectTokens_append]
      unfold members
      rw [if_pos (peek_cons .leftBrace _)]
      refine (yields_sign _ _).bind fun _ => (yields_entries hms.1 _).bind fun _ => ?_
      dsimp only
      rw [if_pos (peek_cons .comma _)]
      exact (yields_sign _ _).bind fun _ => (ih hms.2).bind fun _ => .ok rfl rfl

theorem tokensOfEntries_eq (es : List Entry) :
    Entry.tokensOfEntries es = es.map Entry.tokens := by
  induction es with
  | nil => rfl
  | cons e es ih => rw [Entry.tokensOfEntries, ih, List.map_cons]

theorem tokensOfMembers_eq (ms : List (List Entry)) :
    Entry.tokensOfMembers ms = ms.map objectTokens := by
  induction ms with
  | nil => rfl
  | cons m ms ih =>
    rw [Entry.tokensOfMembers, ih, tokensOfEntries_eq, List.map_cons]
    rfl

theorem entry_keyed {key : String} {ts rest : List Token} {c : Connective} {e : Entry}
    (hc : Connective.signed? key = some c) (h : Yields (clause c ts) e rest) :
    Yields (entry (.text key :: .colon :: ts)) e rest := by
  unfold entry
  refine (yields_text key _).bind fun _ => (yields_sign _ _).bind fun _ => ?_
  dsimp only
  rw [hc]
  exact h.bind fun _ => .ok rfl rfl

mutual

/-- A proper entry is read back from its tokens. -/
theorem yields_entry (e : Entry) (he : e.Proper) (rest : List Token) :
    Yields (entry (e.tokens ++ rest)) e rest := by
  -- Which of the readers goes on is decided by the key and by the token behind the colon.
  cases e with
  | equals p v =>
    rw [Entry.Proper] at he
    rw [Entry.tokens, Token.keyed_append, List.singleton_append]
    unfold entry
    refine (yields_text p _).bind fun _ => (yields_sign _ _).bind fun _ => ?_
    dsimp only
    rw [signed?_of_isFieldKey he.1]
    dsimp only
    rw [if_neg he.1, peek_cons, if_neg (token_ne_leftBrace v)]
    exact (yields_literal v rest).bind fun _ => .ok rfl rfl
  | compares p ts =>
    rw [Entry.Proper] at he
    obtain ⟨hkey, hne, -⟩ := he
    have hfound : ¬ ts.isEmpty := fun hempty => hne (List.isEmpty_iff.1 hempty)
    rw [Entry.tokens, Token.keyed_append, Token.enclosed_append]
    unfold entry
    refine (yields_text p _).bind fun _ => (yields_sign _ _).bind fun _ => ?_
    dsimp only
    rw [signed?_of_isFieldKey hkey]
    dsimp only
    rw [if_neg hkey, if_pos (peek_cons .leftBrace _)]
    refine (yields_sign _ _).bind fun _ => (yields_tests ts rest).bind fun _ => ?_
    dsimp only
    rw [if_neg hfound]
    exact .ok rfl rfl
  | objects c ms =>
    rw [Entry.Proper] at he
    rw [Entry.tokens, tokensOfMembers_eq, Token.keyed_append, Token.enclosed_append]
    refine entry_keyed (signed?_signature c) ?_
    unfold clause
    rw [if_pos (peek_cons .leftBracket _)]
    exact (yields_sign _ _).bind fun _ =>
      (yields_members (yields_entry_of_mem_members ms he) rest).bind fun _ => .ok rfl rfl
  | object c es =>
    rw [Entry.Proper] at he
    rw [Entry.tokens, tokensOfEntries_eq, Token.keyed_append, Token.enclosed_append]
    refine entry_keyed (signed?_signature c) ?_
    unfold clause
    rw [if_neg Token.noConfusion, if_pos (peek_cons .leftBrace _)]
    exact (yields_sign _ _).bind fun _ =>
      (yields_entries (yields_entry_of_mem es he) rest).bind fun _ => .ok rfl rfl

theorem yields_entry_of_mem (es : List Entry) (hes : Entry.ProperEntries es) :
    ∀ e ∈ es, ∀ rest, Yields (entry (e.tokens ++ rest)) e rest := by
  cases es with
  | nil => exact fun e he => absurd he List.not_mem_nil
  | cons e es =>
    rw [Entry.ProperEntries] at hes
    rw [List.forall_mem_cons]
    exact ⟨yields_entry e hes.1, yields_entry_of_mem es hes.2⟩

theorem yields_entry_of_mem_members (ms : List (List Entry)) (hms : Entry.ProperMembers ms) :
    ∀ m ∈ ms, ∀ e ∈ m, ∀ rest, Yields (entry (e.tokens ++ rest)) e rest := by
  cases ms with
  | nil => exact fun m hm => absurd hm List.not_mem_nil
  | cons m ms =>
    rw [Entry.ProperMembers] at hms
    rw [List.forall_mem_cons]
    exact ⟨yields_entry_of_mem m hms.1, yields_entry_of_mem_members ms hms.2⟩

end

/-- The criteria of an action, read back. -/
theorem yields_criteria {es : List Entry} (hes : Entry.ProperEntries es) (rest : List Token) :
    Yields (criteria (objectTokens es ++ rest)) es rest := by
  rw [objectTokens_append]
  unfold criteria
  rw [if_pos (peek_cons .leftBrace _)]
  exact (yields_sign _ _).bind fun _ =>
    (yields_entries (yields_entry_of_mem es hes) rest).bind fun _ => .ok rfl rfl

/-! ### Methods -/

theorem yields_sorting (d : String) (ps : List String) (rest : List Token) :
    Yields (sorting ((Method.sort d ps).arguments ++ rest)) (.sort d ps) rest := by
  rw [Method.arguments, Token.enclosed_append, Token.keyed_append]
  unfold sorting
  exact (yields_sign _ _).bind fun _ => (yields_text d _).bind fun _ =>
    (yields_sign _ _).bind fun _ => (yields_texts_enclosed ps _).bind fun _ =>
      (yields_sign _ rest).bind fun _ => .ok rfl rfl

theorem yields_arguments (m : Method) (rest : List Token) :
    Yields (arguments m.name (m.arguments ++ .rightParen :: rest)) m (.rightParen :: rest) := by
  cases m with
  | returning ps => exact (yields_texts ps rest).asMethod
  | sort d ps => exact (yields_sorting d ps _).widen
  | offset n => exact (yields_number n (.rightParen :: rest)).asMethod.widen
  | limit n => exact (yields_number n (.rightParen :: rest)).asMethod.widen
  | dryRun b => exact (yields_truth b (.rightParen :: rest)).asMethod.widen
  | keys ks => exact (yields_texts ks rest).asMethod
  | newValue v => exact (yields_literal v (.rightParen :: rest)).asMethod.widen

/-- Methods are read up to a token that is no dot. -/
theorem yields_methods (ms : List Method) {rest : List Token} (hrest : peek rest ≠ .dot) :
    Yields (methods (ms.flatMap Method.tokens ++ rest)) ms rest := by
  induction ms with
  | nil =>
    show Yields (methods rest) [] rest
    unfold methods
    rw [if_neg hrest]
    exact .ok rfl rfl
  | cons m ms ih =>
    have htokens : (m :: ms).flatMap Method.tokens ++ rest = .dot :: .identifier m.name ::
        .leftParen :: (m.arguments ++ .rightParen :: (ms.flatMap Method.tokens ++ rest)) := by
      simp [Method.tokens, Token.enclosed]
    rw [htokens]
    unfold methods
    rw [if_pos (peek_cons .dot _)]
    exact (yields_sign _ _).bind fun _ => (yields_identifier m.name _).bind fun _ =>
      (yields_sign _ _).bind fun _ => (yields_arguments m _).bind fun _ =>
        (yields_sign _ _).bind fun _ => ih.bind fun _ => .ok rfl rfl

/-! ### Statements -/

/-- Whether an action has the name. -/
def IsAction (name : String) : Prop := name = "find" ∨ name = "delete" ∨ name = "update"

/-- The names of a domain are read up to that of an action. -/
theorem yields_domainAndAction {action : String} (haction : IsAction action)
    (first : String) {more : List String} (hmore : ∀ n ∈ more, ¬ IsAction n)
    (rest : List Token) :
    Yields (domainAndAction first (.dot :: (more.flatMap (fun n => [.identifier n, .dot]) ++
      .identifier action :: rest))) (first :: more, action) rest := by
  unfold IsAction at haction hmore
  induction more generalizing first with
  | nil =>
    show Yields (domainAndAction first (.dot :: .identifier action :: rest)) ([first], action)
      rest
    unfold domainAndAction
    refine (yields_sign _ _).bind fun _ => (yields_identifier action rest).bind fun _ => ?_
    dsimp only
    rw [if_pos haction]
    exact .ok rfl rfl
  | cons name more ih =>
    rw [List.forall_mem_cons] at hmore
    have hnext := ih name hmore.2
    generalize htail : Token.dot :: (more.flatMap (fun n => [Token.identifier n, .dot]) ++
      .identifier action :: rest) = tail at hnext
    have htokens : (name :: more).flatMap (fun n => [Token.identifier n, .dot]) ++
        .identifier action :: rest = .identifier name :: tail := by
      rw [← htail]
      rfl
    rw [htokens]
    unfold domainAndAction
    refine (yields_sign _ _).bind fun _ => (yields_identifier name tail).bind fun _ => ?_
    dsimp only
    rw [if_neg hmore.1]
    exact hnext.bind fun _ => .ok rfl rfl

end Parsed

/-! ## Statements read back -/

/-- Whether a statement is one that text can spell and that names a domain and an action. -/
structure Statement.Proper (s : Statement) : Prop where
  domain : (Domain.ofName? s.domain).isSome
  action : Parsed.IsAction s.action
  criteria : Entry.ProperEntries s.criteria

/-- The names of domains: identifiers with dots between them, none of which is an action. -/
theorem segments_of_ofName? {name : String} (h : (Domain.ofName? name).isSome) :
    ∃ first more, segments '.' name = first :: more ∧ ".".intercalate (first :: more) = name ∧
      ∀ n ∈ more, ¬ Parsed.IsAction n := by
  unfold Domain.ofName? at h
  split at h
  case h_13 => cases h
  all_goals exact ⟨_, _, rfl, by decide, by unfold Parsed.IsAction; decide⟩

/-- A proper statement is read back from its tokens. -/
theorem ofTokens_tokens {s : Statement} (hs : s.Proper) :
    Statement.ofTokens (s.tokens ++ [.endOfInput]) = .ok s := by
  obtain ⟨first, more, hsegments, hname, hmore⟩ := segments_of_ofName? hs.domain
  have hend : Parsed.peek [Token.endOfInput] ≠ .dot := Token.noConfusion
  have htokens : s.tokens ++ [.endOfInput] = .identifier first :: .dot ::
      (more.flatMap (fun n => [Token.identifier n, .dot]) ++ .identifier s.action ::
        .leftParen :: (Parsed.objectTokens s.criteria ++ .rightParen ::
          (s.methods.flatMap Method.tokens ++ [.endOfInput]))) := by
    rw [Statement.tokens, hsegments, Parsed.tokensOfEntries_eq]
    simp [Token.enclosed, Parsed.objectTokens]
  rw [htokens]
  unfold Statement.ofTokens
  refine (Parsed.yields_identifier first _).bind_eq fun _ =>
    (Parsed.yields_domainAndAction hs.action first hmore _).bind_eq fun _ =>
    (Parsed.yields_sign _ _).bind_eq fun _ =>
    (Parsed.yields_criteria hs.criteria _).bind_eq fun _ =>
    (Parsed.yields_sign _ _).bind_eq fun _ =>
    (Parsed.yields_methods s.methods hend).bind_eq fun _ => ?_
  dsimp only
  rw [if_pos (Parsed.peek_cons .endOfInput []), hname]

/-! ## Tokens that can be spelled -/

namespace Token

/-- Whether all tokens of a run can be spelled. -/
def AllSpellable (ts : List Token) : Prop := ∀ t ∈ ts, t.Spellable

theorem allSpellable_cons {t : Token} {ts : List Token} :
    AllSpellable (t :: ts) ↔ t.Spellable ∧ AllSpellable ts :=
  List.forall_mem_cons

theorem allSpellable_append {ts us : List Token} (h : AllSpellable ts) (h' : AllSpellable us) :
    AllSpellable (ts ++ us) :=
  List.forall_mem_append.2 ⟨h, h'⟩

theorem allSpellable_listed {ps : List (List Token)} (h : ∀ p ∈ ps, AllSpellable p) :
    AllSpellable (listed ps) := by
  induction ps with
  | nil => exact fun t ht => absurd ht List.not_mem_nil
  | cons p ps ih =>
    rw [List.forall_mem_cons] at h
    by_cases hps : ps = []
    · rw [hps]
      exact h.1
    · rw [listed_cons hps]
      exact allSpellable_append h.1 (allSpellable_cons.2 ⟨trivial, ih h.2⟩)

theorem allSpellable_keyed {key : String} {ts : List Token} (h : AllSpellable ts) :
    AllSpellable (keyed key ts) :=
  allSpellable_cons.2 ⟨trivial, allSpellable_cons.2 ⟨trivial, h⟩⟩

theorem allSpellable_enclosed {o c : Token} {ts : List Token} (ho : o.Spellable)
    (hc : c.Spellable) (h : AllSpellable ts) : AllSpellable (enclosed o c ts) :=
  allSpellable_cons.2 ⟨ho, allSpellable_append h (List.forall_mem_singleton.2 hc)⟩

theorem allSpellable_texts (ss : List String) : AllSpellable (texts ss) := by
  refine allSpellable_listed ?_
  rw [List.forall_mem_map]
  exact fun s _ => List.forall_mem_singleton.2 trivial

end Token

theorem spellable_token {v : Literal} (h : v.Fits) : v.token.Spellable := by
  cases v with
  | text s => exact trivial
  | number n => exact h
  | truth b => cases b <;> exact trivial
  | null => exact trivial

open Token

mutual

theorem allSpellable_tokens (e : Entry) (he : e.Proper) : AllSpellable e.tokens := by
  cases e with
  | equals p v =>
    rw [Entry.Proper] at he
    rw [Entry.tokens]
    exact allSpellable_keyed (List.forall_mem_singleton.2 (spellable_token he.2))
  | compares p ts =>
    rw [Entry.Proper] at he
    rw [Entry.tokens]
    refine allSpellable_keyed (allSpellable_enclosed trivial trivial (allSpellable_listed ?_))
    rw [List.forall_mem_map]
    intro t ht
    have hfits := (he.2.2 t ht).2
    exact allSpellable_keyed (List.forall_mem_singleton.2 (spellable_token hfits))
  | objects c ms =>
    rw [Entry.Proper] at he
    rw [Entry.tokens]
    exact allSpellable_keyed (allSpellable_enclosed trivial trivial
      (allSpellable_listed (allSpellable_tokensOfMembers ms he)))
  | object c es =>
    rw [Entry.Proper] at he
    rw [Entry.tokens]
    exact allSpellable_keyed (allSpellable_enclosed trivial trivial
      (allSpellable_listed (allSpellable_tokensOfEntries es he)))

theorem allSpellable_tokensOfEntries (es : List Entry) (hes : Entry.ProperEntries es) :
    ∀ p ∈ Entry.tokensOfEntries es, AllSpellable p := by
  cases es with
  | nil => exact fun p hp => absurd hp List.not_mem_nil
  | cons e es =>
    rw [Entry.ProperEntries] at hes
    rw [Entry.tokensOfEntries, List.forall_mem_cons]
    exact ⟨allSpellable_tokens e hes.1, allSpellable_tokensOfEntries es hes.2⟩

theorem allSpellable_tokensOfMembers (ms : List (List Entry)) (hms : Entry.ProperMembers ms) :
    ∀ p ∈ Entry.tokensOfMembers ms, AllSpellable p := by
  cases ms with
  | nil => exact fun p hp => absurd hp List.not_mem_nil
  | cons m ms =>
    rw [Entry.ProperMembers] at hms
    rw [Entry.tokensOfMembers, List.forall_mem_cons]
    refine ⟨allSpellable_enclosed trivial trivial ?_, allSpellable_tokensOfMembers ms hms.2⟩
    exact allSpellable_listed (allSpellable_tokensOfEntries m hms.1)

end

theorem allSpellable_methodTokens {m : Method} (h : m.Fits) : AllSpellable m.tokens := by
  have hnames : ∀ n ∈ ["include", "sort", "offset", "limit", "dryRun", "keys", "newValue"],
      (identifier n).Spellable := by decide +kernel
  have hname : (identifier m.name).Spellable := by
    cases m <;> exact hnames _ (by simp [Method.name])
  have hargs : AllSpellable m.arguments := by
    cases m with
    | returning ps => exact allSpellable_texts ps
    | sort d ps =>
      have hpaths : AllSpellable (enclosed .leftBracket .rightBracket (texts ps)) :=
        allSpellable_enclosed trivial trivial (allSpellable_texts ps)
      exact allSpellable_enclosed trivial trivial (allSpellable_keyed hpaths)
    | offset n => exact List.forall_mem_singleton.2 h
    | limit n => exact List.forall_mem_singleton.2 h
    | dryRun b => exact List.forall_mem_singleton.2 (spellable_token trivial)
    | keys ks => exact allSpellable_texts ks
    | newValue v => exact List.forall_mem_singleton.2 (spellable_token h)
  exact allSpellable_cons.2 ⟨trivial, allSpellable_cons.2
    ⟨hname, allSpellable_enclosed trivial trivial hargs⟩⟩

theorem allSpellable_domainTokens {name : String} (h : (Domain.ofName? name).isSome) :
    AllSpellable ((segments '.' name).flatMap fun n => [.identifier n, .dot]) := by
  unfold Domain.ofName? at h
  split at h
  case h_13 => cases h
  all_goals
    unfold AllSpellable
    decide +kernel

/-- A proper statement can be spelled, if the arguments of its methods can. -/
theorem allSpellable_statementTokens {s : Statement} (hs : s.Proper)
    (hfits : ∀ m ∈ s.methods, m.Fits) : AllSpellable s.tokens := by
  have haction : (identifier s.action).Spellable := by
    rcases hs.action with h | h | h <;> rw [h] <;> decide +kernel
  have hcriteria := allSpellable_listed (allSpellable_tokensOfEntries s.criteria hs.criteria)
  have harguments := allSpellable_enclosed (o := .leftParen) (c := .rightParen) trivial trivial
    (allSpellable_enclosed (o := .leftBrace) (c := .rightBrace) trivial trivial hcriteria)
  have hmethods : AllSpellable (s.methods.flatMap Method.tokens) := by
    intro t ht
    obtain ⟨m, hm, ht⟩ := List.mem_flatMap.1 ht
    exact allSpellable_methodTokens (hfits m hm) t ht
  have hcall := allSpellable_cons.2 ⟨haction, harguments⟩
  have hdomain := allSpellable_domainTokens hs.domain
  exact allSpellable_append (allSpellable_append hdomain hcall) hmethods

/-! ## Texts of statements -/

/-- A proper statement with representable arguments has a text. -/
theorem exists_spelled {s : Statement} (hs : s.Proper) (hfits : ∀ m ∈ s.methods, m.Fits) :
    ∃ text : String, Spelled s.tokens text.toList := by
  refine ⟨String.ofList (line s.tokens), ?_⟩
  rw [String.toList_ofList]
  exact spelled_line (allSpellable_statementTokens hs hfits)

/-- A text of a proper statement is read as this statement. -/
theorem statement_ofText {s : Statement} (hs : s.Proper) {text : String}
    (htext : Spelled s.tokens text.toList) : Statement.ofText text = .ok s := by
  unfold Statement.ofText
  rw [ofText_of_spelled htext, ok_bind]
  exact ofTokens_tokens hs

/-- So is the line of its tokens, which says the phrases of the statement. -/
theorem phrases_ofText_line {s : Statement} (hs : s.Proper) (hfits : ∀ m ∈ s.methods, m.Fits)
    {text : String} (htext : text = String.ofList (line s.tokens)) :
    Phrase.ofText text = .ok s.phrases := by
  have hspelled : Spelled s.tokens text.toList := by
    rw [htext, String.toList_ofList]
    exact spelled_line (allSpellable_statementTokens hs hfits)
  rw [Phrase.ofText, statement_ofText hs hspelled]
  rfl

end ArtifactQuery
