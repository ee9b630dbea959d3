import ArtifactQuery.Proofs.TextParts
import Mathlib.Data.List.Basic

/-!
# Words of a text

Blanks stand between the words of a text, and some characters are words by themselves: the
parentheses of a condition, and commas too where a whole statement is read.

* `cutWords`: cuts characters into words.
* `words`, `tokens`: the words of a condition, and those of a statement.
* `cutWords_append`, `cutWords_trimChars`, `cutWords_eq_intercalate`: characters that are put behind
  each other, trimmed, or cut at a mark.
* `BreaksBefore.words_append`, `Separates.tokens_around`: the words of texts that are put behind
  each other.
-/

namespace ArtifactQuery

/-! ## Cutting characters -/

/-- A word of a text. -/
abbrev Word := List Char

/-- Whether a word ends in front of a character: a blank, or a mark that is a word by itself. -/
def endsWord (marks : List Char) (c : Char) : Bool := isBlank c || c ∈ marks

/-- Cuts a text into words. Blanks stand between words, and a mark is a word by itself. -/
def cutWords (marks : List Char) : List Char → List Word
  | [] => []
  | c :: cs =>
    if isBlank c then cutWords marks cs
    else if c ∈ marks ∨ cs.head?.all (endsWord marks) then [c] :: cutWords marks cs
    else consToFirst c (cutWords marks cs)

section Cutting

variable {marks : List Char} {c : Char}

theorem cutWords_cons_of_endsWord (hc : endsWord marks c) (cs : List Char) :
    cutWords marks (c :: cs) =
      if isBlank c then cutWords marks cs else [c] :: cutWords marks cs := by
  rw [cutWords]
  split
  · rfl
  · rename_i hblank
    rw [endsWord, Bool.eq_false_iff.2 hblank, Bool.false_or] at hc
    rw [if_pos (.inl (of_decide_eq_true hc))]

theorem cutWords_cons (hc : endsWord marks c = false) (cs : List Char) :
    cutWords marks (c :: cs) =
      if cs.head?.all (endsWord marks) then [c] :: cutWords marks cs
      else consToFirst c (cutWords marks cs) := by
  rw [endsWord, Bool.or_eq_false_iff, decide_eq_false_iff_not] at hc
  rw [cutWords, if_neg (by rw [hc.1]; exact Bool.false_ne_true)]
  simp only [hc.2, false_or]

theorem cutWords_ne_nil (hc : isBlank c = false) (cs : List Char) :
    cutWords marks (c :: cs) ≠ [] := by
  rw [cutWords, hc, if_neg Bool.false_ne_true]
  split
  · exact List.cons_ne_nil _ _
  · cases cutWords marks cs <;> exact List.cons_ne_nil _ _

theorem consToFirst_append {ws : List Word} (h : ws ≠ []) (ws' : List Word) :
    consToFirst c (ws ++ ws') = consToFirst c ws ++ ws' := by
  obtain ⟨w, ws, rfl⟩ := List.exists_cons_of_ne_nil h
  rfl

/-- Texts behind each other are cut where they meet, if no word goes on there. -/
theorem cutWords_append {cs rest : List Char}
    (h : rest.head?.all (endsWord marks) ∨ cs.getLast?.all (endsWord marks)) :
    cutWords marks (cs ++ rest) = cutWords marks cs ++ cutWords marks rest := by
  induction cs with
  | nil => rfl
  | cons c cs ih =>
    rw [List.cons_append]
    cases hc : endsWord marks c with
    | true =>
      -- Where the first text ends behind `c`, its rest has no last character to ask about.
      have hrest : rest.head?.all (endsWord marks) ∨ cs.getLast?.all (endsWord marks) := by
        refine h.imp_right fun hlast => ?_
        cases cs with
        | nil => rfl
        | cons c' cs => rwa [List.getLast?_cons_cons] at hlast
      rw [cutWords_cons_of_endsWord hc, cutWords_cons_of_endsWord hc, ih hrest]
      split <;> rfl
    | false =>
      cases cs with
      | nil =>
        have hhead : rest.head?.all (endsWord marks) := h.resolve_right (by simp [hc])
        rw [List.nil_append, cutWords_cons hc, if_pos hhead, cutWords_cons hc, List.head?_nil,
          Option.all_none, if_pos rfl]
        rfl
      | cons c' cs =>
        -- Whether the word of `c` goes on is decided by `c'`, within the first text.
        rw [List.getLast?_cons_cons] at h
        rw [cutWords_cons hc, cutWords_cons hc, ih h, List.cons_append, List.head?_cons,
          List.head?_cons, Option.all_some]
        cases hc' : endsWord marks c' with
        | true => rfl
        | false =>
          rw [endsWord, Bool.or_eq_false_iff] at hc'
          exact consToFirst_append (cutWords_ne_nil hc'.1 cs) _

theorem cutWords_eq_singleton {w : Word} (hne : w ≠ []) (h : w.all (! endsWord marks ·)) :
    cutWords marks w = [w] := by
  induction w with
  | nil => exact absurd rfl hne
  | cons c cs ih =>
    rw [List.all_cons, Bool.and_eq_true, Bool.not_eq_true'] at h
    rw [cutWords_cons h.1]
    cases cs with
    | nil => rfl
    | cons c' cs =>
      have hc' := List.all_eq_true.1 h.2 c' List.mem_cons_self
      rw [Bool.not_eq_true'] at hc'
      rw [List.head?_cons, Option.all_some, hc', ih (List.cons_ne_nil _ _) h.2]
      rfl

theorem cutWords_of_blanks {gap : List Char} (h : gap.all isBlank) : cutWords marks gap = [] := by
  induction gap with
  | nil => rfl
  | cons c gap ih =>
    rw [List.all_cons, Bool.and_eq_true] at h
    rw [cutWords, if_pos h.1, ih h.2]

/-- Blanks at the ends of a text are in none of its words. -/
theorem cutWords_trimChars (cs : List Char) :
    cutWords marks (trimChars cs) = cutWords marks cs := by
  have hblank : ∀ {c : Char}, isBlank c → endsWord marks c := fun hc => by rw [endsWord, hc]; rfl
  obtain ⟨front, back, hfront, hback, hcs⟩ := exists_blanks_around cs
  conv => rhs; rw [hcs]
  rw [cutWords_append (.inl ?_), cutWords_append (.inr ?_), cutWords_of_blanks hfront,
    cutWords_of_blanks hback, List.nil_append, List.append_nil]
  · cases hlast : front.getLast? with
    | none => rfl
    | some c => exact hblank (List.all_eq_true.1 hfront c (List.mem_of_getLast? hlast))
  · cases hhead : back.head? with
    | none => rfl
    | some c => exact hblank (List.all_eq_true.1 hback c (List.mem_of_head? hhead))

/-- The words of a text are those of its segments, with the mark that it is cut at between them. -/
theorem cutWords_eq_intercalate {mark : Char} (hmark : mark ∈ marks) (hblank : isBlank mark = false)
    (cs : List Char) :
    cutWords marks cs = [[mark]].intercalate ((cutAt mark cs).map (cutWords marks)) := by
  have hends : endsWord marks mark := by
    rw [endsWord, decide_eq_true hmark, Bool.or_true]
  induction hn : cs.length using Nat.strong_induction_on generalizing cs with
  | _ n ih =>
    by_cases hmem : mark ∈ cs
    · obtain ⟨first, rest, rfl, hfirst⟩ := List.eq_append_cons_of_mem hmem
      have hlength : rest.length < n := by
        rw [← hn, List.length_append, List.length_cons]
        omega
      have hhead : (mark :: rest).head?.all (endsWord marks) := hends
      have hne : (cutAt mark rest).map (cutWords marks) ≠ [] :=
        List.map_eq_nil_iff.not.2 cutAt_ne_nil
      rw [cutAt_append hfirst, List.map_cons, List.intercalate_cons_of_ne_nil hne,
        ← ih _ hlength rest rfl, cutWords_append (.inl hhead), cutWords_cons_of_endsWord hends,
        hblank, List.append_assoc]
      rfl
    · rw [cutAt_of_not_mem hmem, List.map_singleton, List.intercalate_singleton]

end Cutting

/-! ## Words of texts -/

/-- The words of a text. -/
def cutText (marks : List Char) (s : String) : List Word := cutWords marks s.toList

/-- The parentheses, which are words of conditions. -/
def parens : List Char := ['(', ')']

/-- The words of a condition. -/
def words (s : String) : List Word := cutText parens s

section Texts

variable {marks : List Char} {s t : String}

/-- Whether a word ends in front of a text. -/
def BreaksBefore (marks : List Char) (t : String) : Prop :=
  t.toList.head?.any (endsWord marks) = true

/-- Whether no word goes on behind a text. -/
def BreaksAfter (marks : List Char) (s : String) : Prop :=
  s.toList.getLast?.any (endsWord marks) = true

instance (t : String) : Decidable (BreaksBefore marks t) := inferInstanceAs (Decidable (_ = true))

instance (s : String) : Decidable (BreaksAfter marks s) := inferInstanceAs (Decidable (_ = true))

theorem BreaksBefore.append (h : BreaksBefore marks t) (u : String) :
    BreaksBefore marks (t ++ u) := by
  obtain ⟨c, hc, hends⟩ := (Option.any_eq_true _ _).1 h
  rw [BreaksBefore, String.toList_append, List.head?_append, hc]
  exact hends

theorem BreaksBefore.cutText_append (h : BreaksBefore marks t) (s : String) :
    cutText marks (s ++ t) = cutText marks s ++ cutText marks t := by
  obtain ⟨c, hc, hends⟩ := (Option.any_eq_true _ _).1 h
  rw [cutText, String.toList_append, cutWords_append (.inl (by rw [hc]; exact hends))]
  rfl

theorem BreaksAfter.cutText_append (h : BreaksAfter marks s) (t : String) :
    cutText marks (s ++ t) = cutText marks s ++ cutText marks t := by
  obtain ⟨c, hc, hends⟩ := (Option.any_eq_true _ _).1 h
  rw [cutText, String.toList_append, cutWords_append (.inr (by rw [hc]; exact hends))]
  rfl

theorem BreaksBefore.words_append (h : BreaksBefore parens t) (s : String) :
    words (s ++ t) = words s ++ words t :=
  h.cutText_append s

theorem BreaksAfter.words_append (h : BreaksAfter parens s) (t : String) :
    words (s ++ t) = words s ++ words t :=
  h.cutText_append t

/-- The words of two texts with a third one between them. -/
theorem words_around {sep : String} (h : BreaksBefore parens sep) (h' : BreaksAfter parens sep)
    (s t : String) : words (s ++ sep ++ t) = words s ++ words sep ++ words t := by
  rw [String.append_assoc, (h.append t).words_append, h'.words_append, List.append_assoc]

theorem words_around_blank (s t : String) : words (s ++ " " ++ t) = words s ++ words t := by
  have hblank : words " " = [] := by decide
  rw [words_around (by decide) (by decide), hblank, List.append_nil]

theorem words_intercalate (ss : List String) : words (" ".intercalate ss) = ss.flatMap words := by
  induction ss with
  | nil => rfl
  | cons s ss ih =>
    rw [List.flatMap_cons]
    cases ss with
    | nil => rw [List.flatMap_nil, List.append_nil, String.intercalate_singleton]
    | cons s' ss => rw [String.intercalate_cons_cons, words_around_blank, ih]

end Texts

/-! ## Tokens of statements -/

/-- The parentheses and the comma, which are tokens of statements. -/
def sqlMarks : List Char := ['(', ')', ',']

/-- The tokens of a statement. -/
def tokens (s : String) : List String := (cutText sqlMarks s).map String.ofList

section Statements

variable {s t : String}

theorem BreaksBefore.tokens_append (h : BreaksBefore sqlMarks t) (s : String) :
    tokens (s ++ t) = tokens s ++ tokens t := by
  rw [tokens, h.cutText_append, List.map_append]
  rfl

theorem BreaksAfter.tokens_append (h : BreaksAfter sqlMarks s) (t : String) :
    tokens (s ++ t) = tokens s ++ tokens t := by
  rw [tokens, h.cutText_append, List.map_append]
  rfl

/-- Whether a text has the tokens, and no token goes on at its ends. -/
structure Separates (sep : String) (ws : List String) : Prop where
  before : BreaksBefore sqlMarks sep
  after : BreaksAfter sqlMarks sep
  tokens : ArtifactQuery.tokens sep = ws

instance (sep : String) (ws : List String) : Decidable (Separates sep ws) :=
  decidable_of_iff
    (BreaksBefore sqlMarks sep ∧ BreaksAfter sqlMarks sep ∧ ArtifactQuery.tokens sep = ws)
    ⟨fun ⟨hbefore, hafter, htokens⟩ => ⟨hbefore, hafter, htokens⟩,
      fun h => ⟨h.before, h.after, h.tokens⟩⟩

theorem Separates.tokens_around {sep : String} {ws : List String} (h : Separates sep ws)
    (s t : String) : ArtifactQuery.tokens (s ++ sep ++ t) =
      ArtifactQuery.tokens s ++ ws ++ ArtifactQuery.tokens t := by
  rw [String.append_assoc, (h.before.append t).tokens_append, h.after.tokens_append, h.tokens,
    List.append_assoc]

theorem tokens_eq_singleton (hne : s.toList ≠ []) (h : s.toList.all (! endsWord sqlMarks ·)) :
    tokens s = [s] := by
  rw [tokens, cutText, cutWords_eq_singleton hne h, List.map_singleton, String.ofList_toList]

/-- A text that starts with another character than a blank has a token. -/
theorem TightStart.tokens_ne_nil (h : TightStart s) : tokens s ≠ [] := by
  obtain ⟨c, hc, hblank⟩ := (Option.any_eq_true _ _).1 h
  obtain ⟨cs, hcs⟩ := List.head?_eq_some_iff.1 hc
  rw [Bool.not_eq_true'] at hblank
  rw [tokens, cutText, hcs]
  exact List.map_eq_nil_iff.not.2 (cutWords_ne_nil hblank cs)

theorem tokens_trim (s : String) : tokens (trim s) = tokens s := by
  rw [tokens, cutText, trim, String.toList_ofList, cutWords_trimChars]
  rfl

theorem tokens_around_blank (s t : String) : tokens (s ++ " " ++ t) = tokens s ++ tokens t := by
  have hblank : Separates " " [] := by decide
  rw [hblank.tokens_around, List.append_nil]

theorem tokens_intercalate (ss : List String) :
    tokens (" ".intercalate ss) = ss.flatMap tokens := by
  induction ss with
  | nil => rfl
  | cons s ss ih =>
    rw [List.flatMap_cons]
    cases ss with
    | nil => rw [List.flatMap_nil, List.append_nil, String.intercalate_singleton]
    | cons s' ss => rw [String.intercalate_cons_cons, tokens_around_blank, ih]

theorem tokens_intercalate_comma (ss : List String) :
    tokens (", ".intercalate ss) = [","].intercalate (ss.map tokens) := by
  have hcomma : Separates ", " [","] := by decide
  induction ss with
  | nil => rfl
  | cons s ss ih =>
    cases ss with
    | nil => rw [String.intercalate_singleton, List.map_singleton, List.intercalate_singleton]
    | cons s' ss =>
      rw [String.intercalate_cons_cons, hcomma.tokens_around, ih]
      simp only [List.map_cons, List.intercalate_cons_cons]

theorem map_intercalate {α β : Type} (f : α → β) (sep : List α) (xs : List (List α)) :
    (sep.intercalate xs).map f = (sep.map f).intercalate (xs.map (List.map f)) := by
  induction xs with
  | nil => rfl
  | cons x xs ih =>
    cases xs with
    | nil => simp only [List.map_cons, List.map_nil, List.intercalate_singleton]
    | cons y ys =>
      rw [List.intercalate_cons_cons, List.map_append, List.map_append, ih]
      simp only [List.map_cons, List.intercalate_cons_cons]

/-- The tokens of a list are those of its parts, with commas between them. -/
theorem tokens_eq_intercalate (s : String) :
    tokens s = [","].intercalate (((cutAt ',' s.toList).map trimChars).map
      (tokens ∘ String.ofList)) := by
  have hpart : ∀ part : List Char, tokens (String.ofList (trimChars part)) =
      (cutWords sqlMarks part).map String.ofList := by
    intro part
    rw [tokens, cutText, String.toList_ofList, cutWords_trimChars]
  rw [tokens, cutText, cutWords_eq_intercalate (by decide : ',' ∈ sqlMarks) (by decide),
    map_intercalate, List.map_map, List.map_map]
  congr 1
  exact List.map_congr_left fun part _ => (hpart part).symm

end Statements

end ArtifactQuery
