import ArtifactQuery.Proofs.Formulas
import ArtifactQuery.Proofs.PlainNames
import ArtifactQuery.Proofs.Words

/-!
# Conditions read as texts

The text of a condition is read as any database reads it: first its words, then operands with the
connectives and parentheses between them, then the tree. An operand starts with a word, and whatever
stands in parentheses behind a word belongs to it: the arguments of a function, or a sub-select.

* `operandMarks`: words with operands taken together.
* `Reads`: a text is read as a tree; `Reads.unique`: as one tree at most.
* `Begins`, `Passes`, `Nests`: words that start an operand, go on with one, or stand in its
  parentheses.
* `Takes`: words that are taken as the same marks wherever they stand (`Takes.connect`,
  `Takes.parens`).
-/

namespace ArtifactQuery

/-! ## Operands -/

/-- The words of an operand. -/
abbrev Atom := List Word

/-- The mark that a word is behind an operand. -/
def connective? (w : Word) : Option (Mark Atom) :=
  if w = [')'] then some .closeParen
  else if w.map Char.toLower = "and".toList then some .and
  else if w.map Char.toLower = "or".toList then some .or
  else none

/-- The marks of an operand that has been read, if any. -/
def atomMarks (atom : Atom) : List (Mark Atom) := if atom = [] then [] else [.leaf atom]

/-- Takes the words of operands together. In front of the words stand those of the operand being
read, with `depth` parentheses open in it. -/
def operandMarks (atom : Atom) : Nat → List Word → Option (List (Mark Atom))
  | depth, [] => if depth = 0 then some (atomMarks atom) else none
  | 0, w :: ws =>
    if w = ['('] then
      if atom = [] then (operandMarks [] 0 ws).map (.openParen :: ·)
      else operandMarks (atom ++ [w]) 1 ws
    else match connective? w with
      | some m => (operandMarks [] 0 ws).map (atomMarks atom ++ m :: ·)
      | none => operandMarks (atom ++ [w]) 0 ws
  | depth + 1, w :: ws =>
    operandMarks (atom ++ [w])
      (if w = ['('] then depth + 2 else if w = [')'] then depth else depth + 1) ws

/-- Whether a text is read as a tree of operands, at a rank. -/
def Reads (r : Rank) (s : String) (f : Formula Atom) : Prop :=
  ∃ ms, operandMarks [] 0 (words s) = some ms ∧ Formula.Spells r ms f

/-- No text can be read in two ways. -/
theorem Reads.unique {r r' : Rank} {s : String} {f g : Formula Atom} (h : Reads r s f)
    (h' : Reads r' s g) : f = g := by
  obtain ⟨ms, hms, hf⟩ := h
  obtain ⟨ms', hms', hg⟩ := h'
  rw [hms] at hms'
  cases hms'
  exact hf.unique hg

/-- Whether an operand ends in front of words. -/
def EndsAtom (ws : List Word) : Prop := ws.head?.all fun w => (connective? w).isSome

/-- Whether words may start an operand. -/
def Begins (ws : List Word) : Prop :=
  ws ≠ [] ∧ ∀ rest, operandMarks [] 0 (ws ++ rest) = operandMarks ws 0 rest

/-- Whether words may go on with an operand. -/
def Passes (ws : List Word) : Prop :=
  ∀ atom rest, atom ≠ [] → operandMarks atom 0 (ws ++ rest) = operandMarks (atom ++ ws) 0 rest

/-- Whether words may stand in parentheses that belong to an operand. -/
def Nests (ws : List Word) : Prop :=
  ∀ atom depth rest,
    operandMarks atom (depth + 1) (ws ++ rest) = operandMarks (atom ++ ws) (depth + 1) rest

section Operands

variable {ws ws' : List Word} {w : Word}

theorem connective?_openParen : connective? ['('] = none := by decide

/-- The operand being read ends in front of a connective and at the end. -/
theorem operandMarks_of_endsAtom {rest : List Word} (h : EndsAtom rest) (atom : Atom) :
    operandMarks atom 0 rest = (operandMarks [] 0 rest).map (atomMarks atom ++ ·) := by
  cases rest with
  | nil => simp [operandMarks, atomMarks]
  | cons w ws =>
    obtain ⟨m, hm⟩ := Option.isSome_iff_exists.1 h
    have hparen : w ≠ ['('] := by
      rintro rfl
      rw [connective?_openParen] at hm
      cases hm
    simp only [operandMarks, if_neg hparen, hm, Option.map_map]
    rfl

theorem passes_nil : Passes [] := by
  intro atom rest _
  rw [List.append_nil, List.nil_append]

theorem Passes.append (h : Passes ws) (h' : Passes ws') : Passes (ws ++ ws') := by
  intro atom rest hatom
  rw [List.append_assoc, h atom _ hatom, h' _ _ (List.append_ne_nil_of_left_ne_nil hatom ws),
    List.append_assoc]

theorem Begins.append (h : Begins ws) (h' : Passes ws') : Begins (ws ++ ws') := by
  refine ⟨List.append_ne_nil_of_left_ne_nil h.1 ws', fun rest => ?_⟩
  rw [List.append_assoc, h.2, h' _ _ h.1]

theorem Nests.append (h : Nests ws) (h' : Nests ws') : Nests (ws ++ ws') := by
  intro atom depth rest
  rw [List.append_assoc, h, h', List.append_assoc]

/-- Whether a word is neither a parenthesis nor a connective. -/
def IsOrdinary (w : Word) : Prop := w ≠ ['('] ∧ connective? w = none

instance (w : Word) : Decidable (IsOrdinary w) := inferInstanceAs (Decidable (_ ∧ _))

theorem passes_of_ordinary (h : ∀ w ∈ ws, IsOrdinary w) : Passes ws := by
  induction ws with
  | nil => exact passes_nil
  | cons w ws ih =>
    obtain ⟨⟨hparen, hword⟩, hws⟩ := List.forall_mem_cons.1 h
    intro atom rest hatom
    rw [List.cons_append, operandMarks, if_neg hparen, hword]
    dsimp only
    rw [ih hws _ _ (List.append_ne_nil_of_left_ne_nil hatom _), List.append_assoc]
    rfl

theorem begins_of_ordinary (hne : ws ≠ []) (h : ∀ w ∈ ws, IsOrdinary w) : Begins ws := by
  refine ⟨hne, fun rest => ?_⟩
  obtain ⟨w, ws, rfl⟩ := List.exists_cons_of_ne_nil hne
  obtain ⟨⟨hparen, hword⟩, hws⟩ := List.forall_mem_cons.1 h
  rw [List.cons_append, operandMarks, if_neg hparen, hword]
  exact passes_of_ordinary hws [w] rest (List.cons_ne_nil _ _)

/-- Connectives in parentheses of an operand are words of it like others. -/
theorem nests_of_unparenthesized (h : ∀ w ∈ ws, w ≠ ['('] ∧ w ≠ [')']) : Nests ws := by
  induction ws with
  | nil =>
    intro atom depth rest
    rw [List.append_nil, List.nil_append]
  | cons w ws ih =>
    obtain ⟨⟨hopen, hclose⟩, hws⟩ := List.forall_mem_cons.1 h
    intro atom depth rest
    rw [List.cons_append, operandMarks, if_neg hopen, if_neg hclose, ih hws, List.append_assoc]
    rfl

theorem nests_of_ordinary (h : ∀ w ∈ ws, IsOrdinary w) : Nests ws := by
  refine nests_of_unparenthesized fun w hw => ⟨(h w hw).1, ?_⟩
  rintro rfl
  exact absurd (h _ hw).2 (by decide)

theorem Nests.parens (h : Nests ws) : Nests (['('] :: ws ++ [[')']]) := by
  intro atom depth rest
  rw [List.cons_append, List.cons_append, operandMarks, if_pos rfl, List.append_assoc, h]
  simp [operandMarks]

theorem Nests.passes (h : Nests ws) : Passes (['('] :: ws ++ [[')']]) := by
  intro atom rest hatom
  rw [List.cons_append, List.cons_append, operandMarks, if_pos rfl, if_neg hatom,
    List.append_assoc, h]
  simp [operandMarks]

end Operands

/-! ## Words that stand by themselves -/

/-- Whether words are taken as the marks wherever an operand may end behind them. -/
def Takes (ws : List Word) (ms : List (Mark Atom)) : Prop :=
  ∀ rest, EndsAtom rest → operandMarks [] 0 (ws ++ rest) = (operandMarks [] 0 rest).map (ms ++ ·)

section Taking

variable {ws ws' : List Word} {ms ms' : List (Mark Atom)}

theorem Begins.takes (h : Begins ws) : Takes ws [.leaf ws] := by
  intro rest hrest
  rw [h.2, operandMarks_of_endsAtom hrest, atomMarks, if_neg h.1]

theorem operandMarks_connective {w : Word} {m : Mark Atom} (hw : connective? w = some m)
    (rest : List Word) :
    operandMarks [] 0 (w :: rest) = (operandMarks [] 0 rest).map (m :: ·) := by
  have hparen : w ≠ ['('] := by
    rintro rfl
    rw [connective?_openParen] at hw
    cases hw
  rw [operandMarks, if_neg hparen, hw]
  rfl

/-- Connectives stand between words that are taken by themselves. -/
theorem Takes.connect (h : Takes ws ms) (h' : Takes ws' ms') {w : Word} {m : Mark Atom}
    (hw : connective? w = some m) : Takes (ws ++ w :: ws') (ms ++ m :: ms') := by
  intro rest hrest
  have hends : EndsAtom (w :: (ws' ++ rest)) := by
    rw [EndsAtom, List.head?_cons, Option.all_some, hw]
    rfl
  rw [List.append_assoc, List.cons_append, h _ hends, operandMarks_connective hw, h' _ hrest,
    Option.map_map, Option.map_map]
  congr 1
  funext more
  simp

theorem connective?_closeParen : connective? [')'] = some .closeParen := by decide

theorem Takes.parens (h : Takes ws ms) :
    Takes (['('] :: ws ++ [[')']]) (.openParen :: ms ++ [.closeParen]) := by
  intro rest _
  have hends : EndsAtom ([')'] :: rest) := by
    rw [EndsAtom, List.head?_cons, Option.all_some, connective?_closeParen]
    rfl
  rw [List.cons_append, List.cons_append, operandMarks, if_pos rfl, if_pos rfl, List.append_assoc,
    List.singleton_append, h _ hends, operandMarks_connective connective?_closeParen,
    Option.map_map, Option.map_map]
  congr 1
  funext more
  simp

theorem Takes.reads {s : String} (h : Takes (words s) ms) {r : Rank} {f : Formula Atom}
    (hf : Formula.Spells r ms f) : Reads r s f := by
  have hall := h [] rfl
  rw [List.append_nil] at hall
  refine ⟨ms, ?_, hf⟩
  rw [hall]
  simp [operandMarks, atomMarks]

end Taking

end ArtifactQuery
