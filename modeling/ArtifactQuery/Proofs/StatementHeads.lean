import ArtifactQuery.Proofs.StatementWords

/-!
# The head of a statement

A statement starts with its select list, its tables and its conditions, whichever words stand around
it or behind it. They are read from the tokens of the text as they stand there: each item with the
name of its column and its own name, and each join with both columns that it compares.

* `ListedItem`, `NamedTable`, `ListedJoin`, `StatementHead`: what is read.
* `StatementHead.ofTokens?`: the head of a statement.
* `StatementHead.ofTokens?_words`: what is read from the words of a head.
* `readStatement?`: the head, the order and the page of a statement in a dialect
  (`readStatement?_eq`).
-/

namespace ArtifactQuery.Sql

/-! ## Parts of a head -/

/-- An item of a select list: the column that it reads, and its own name. -/
structure ListedItem where
  source : ColumnName
  name : String
  deriving DecidableEq, Repr

/-- A table, and the name that it has within the statement. -/
structure NamedTable where
  table : String
  name : String
  deriving DecidableEq, Repr

/-- A table joined from the left, and the columns that are compared. -/
structure ListedJoin where
  joined : NamedTable
  own : ColumnName
  onto : ColumnName
  deriving DecidableEq, Repr

/-- The head of a statement. Its condition is kept in tokens. -/
structure StatementHead where
  items : List ListedItem
  main : NamedTable
  joins : List ListedJoin
  condition : List String
  deriving DecidableEq, Repr

/-- The tables that a statement introduces, in their order. -/
def StatementHead.tables (h : StatementHead) : List NamedTable :=
  h.main :: h.joins.map ListedJoin.joined

/-- The items at the front of tokens, with commas between them, and the tokens behind. -/
def itemsFrom : List String → List ListedItem × List String
  | source :: "as" :: name :: "," :: ws =>
    (⟨.ofToken source, name⟩ :: (itemsFrom ws).1, (itemsFrom ws).2)
  | source :: "as" :: name :: ws => ([⟨.ofToken source, name⟩], ws)
  | ws => ([], ws)

/-- The joins at the front of tokens, and the tokens behind. -/
def joinsFrom : List String → List ListedJoin × List String
  | "left" :: "outer" :: "join" :: table :: name :: "on" :: own :: "=" :: onto :: ws =>
    (⟨⟨table, name⟩, .ofToken own, .ofToken onto⟩ :: (joinsFrom ws).1, (joinsFrom ws).2)
  | ws => ([], ws)

/-- The tokens that may stand behind a condition. -/
def conditionEnds : List String := ["order", "offset", "limit"]

/-- The names that a statement has within the one around it. -/
def outerNames : List String := ["inner_query", "aa"]

/-- Whether a condition ends in front of a token and those behind it: the parenthesis around a
statement stands in front of the statement's name. -/
def endsCondition (w : String) (ws : List String) : Bool :=
  w ∈ conditionEnds || w = ")" && ws.head?.any (· ∈ outerNames)

/-- The tokens of a condition, up to where it ends. -/
def conditionFrom : List String → List String
  | [] => []
  | w :: ws => if endsCondition w ws then [] else w :: conditionFrom ws

/-- The column that a token of a condition names behind the name of its table. A colon starts what
the column is converted to. -/
def reference? (w : String) : Option ColumnName :=
  if '.' ∈ w.toList then some (.ofToken (String.ofList (w.toList.takeWhile (· ≠ ':')))) else none

namespace StatementHead

/-- The condition behind the tables of a statement. -/
def whereFrom : List String → List String
  | "where" :: ws => conditionFrom ws
  | _ => []

/-- The head of a statement. -/
def ofTokens? : List String → Option StatementHead
  | "select" :: "distinct" :: ws =>
    match itemsFrom ws with
    | (items, "from" :: table :: name :: ws) =>
      some ⟨items, ⟨table, name⟩, (joinsFrom ws).1, whereFrom (joinsFrom ws).2⟩
    | _ => none
  | _ => none

end StatementHead

/-! ## Words of a head -/

/-- The tokens of an item. -/
def ListedItem.words (i : ListedItem) : List String := [i.source.written, "as", i.name]

/-- The tokens of a join. -/
def ListedJoin.words (j : ListedJoin) : List String :=
  ["left", "outer", "join", j.joined.table, j.joined.name, "on", j.own.written, "=", j.onto.written]

/-- Whether no token of a condition may stand behind it. -/
def StaysInside (ws : List String) : Prop := ∀ w ∈ ws, w ∉ conditionEnds ∧ w ∉ outerNames

instance (ws : List String) : Decidable (StaysInside ws) := inferInstanceAs (Decidable (∀ _ ∈ _, _))

/-- Whether the head of a statement ends in front of tokens. -/
inductive EndsHead : List String → Prop
  | nil : EndsHead []
  | cons {w : String} {ws : List String} (h : endsCondition w ws) : EndsHead (w :: ws)

namespace StatementHead

/-- The tokens of the where clause. -/
def whereWords (h : StatementHead) : List String :=
  if h.condition = [] then [] else "where" :: h.condition

/-- The tokens of a head. -/
def words (h : StatementHead) : List String :=
  "select" :: "distinct" :: ([","].intercalate (h.items.map ListedItem.words) ++
    "from" :: h.main.table :: h.main.name :: (h.joins.flatMap ListedJoin.words ++ h.whereWords))

/-- Whether a head can be read back. -/
structure Plain (h : StatementHead) : Prop where
  items_ne : h.items ≠ []
  items : ∀ i ∈ h.items, i.source.Plain
  joins : ∀ j ∈ h.joins, j.own.Plain ∧ j.onto.Plain
  condition : StaysInside h.condition

end StatementHead

section Reading

variable {rest : List String}

theorem endsHead_cons {w : String} (hw : w ∈ conditionEnds) (ws : List String) :
    EndsHead (w :: ws) :=
  .cons (by rw [endsCondition, decide_eq_true hw, Bool.true_or])

/-- The first token behind a head is none of a condition, and no name of a statement. -/
theorem EndsHead.head_mem (h : EndsHead rest) {w : String} (hw : w ∈ rest.head?) :
    w ∈ ")" :: conditionEnds := by
  cases h with
  | nil => cases hw
  | cons h =>
    cases hw
    rw [endsCondition, Bool.or_eq_true, Bool.and_eq_true, decide_eq_true_eq,
      decide_eq_true_eq] at h
    rcases h with h | ⟨h, -⟩
    · exact List.mem_cons_of_mem _ h
    · exact h ▸ List.mem_cons_self

theorem EndsHead.ne_cons (h : EndsHead rest) {w : String} (hw : w ∉ ")" :: conditionEnds)
    (ws : List String) : rest ≠ w :: ws := by
  rintro rfl
  exact hw (h.head_mem rfl)

/-- A condition is read up to its end. -/
theorem conditionFrom_append {ws : List String} (hws : StaysInside ws) (hrest : EndsHead rest) :
    conditionFrom (ws ++ rest) = ws := by
  induction ws with
  | nil =>
    cases hrest with
    | nil => rfl
    | cons h => exact if_pos h
  | cons w ws ih =>
    obtain ⟨⟨hw, -⟩, hws⟩ := List.forall_mem_cons.1 hws
    have hinside : endsCondition w (ws ++ rest) = false := by
      have hhead : (ws ++ rest).head?.any (· ∈ outerNames) = false := by
        rw [Option.any_eq_false]
        intro w' hw'
        refine decide_eq_false ?_
        cases ws with
        | nil =>
          have hends : ∀ w ∈ ")" :: conditionEnds, w ∉ outerNames := by decide
          exact hends _ (hrest.head_mem hw')
        | cons w'' ws =>
          cases hw'
          exact (hws _ List.mem_cons_self).2
      rw [endsCondition, decide_eq_false hw, hhead, Bool.and_false]
      rfl
    rw [List.cons_append, conditionFrom, hinside, if_neg Bool.false_ne_true, ih hws]

theorem itemsFrom_comma {i : ListedItem} (hi : i.source.Plain) (ws : List String) :
    itemsFrom (i.words ++ ([","] ++ ws)) = (i :: (itemsFrom ws).1, (itemsFrom ws).2) := by
  simp [ListedItem.words, itemsFrom, hi.ofToken_written]

/-- Items are read up to the tables. -/
theorem itemsFrom_intercalate {items : List ListedItem} (hne : items ≠ [])
    (hitems : ∀ i ∈ items, i.source.Plain) (ws : List String) :
    itemsFrom ([","].intercalate (items.map ListedItem.words) ++ "from" :: ws) =
      (items, "from" :: ws) := by
  induction items with
  | nil => exact absurd rfl hne
  | cons i items ih =>
    obtain ⟨hi, hitems⟩ := List.forall_mem_cons.1 hitems
    cases items with
    | nil => simp [ListedItem.words, itemsFrom, hi.ofToken_written]
    | cons i' items =>
      have hmore := ih (List.cons_ne_nil _ _) hitems
      have hnot : (i' :: items).map ListedItem.words ≠ [] := List.cons_ne_nil _ _
      rw [List.map_cons, List.intercalate_cons_of_ne_nil hnot, List.append_assoc,
        List.append_assoc, itemsFrom_comma hi, hmore]

/-- Joins are read up to what stands behind them. -/
theorem joinsFrom_flatMap {joins : List ListedJoin}
    (hjoins : ∀ j ∈ joins, j.own.Plain ∧ j.onto.Plain) (hrest : ∀ ws, rest ≠ "left" :: ws) :
    joinsFrom (joins.flatMap ListedJoin.words ++ rest) = (joins, rest) := by
  induction joins with
  | nil =>
    rw [List.flatMap_nil, List.nil_append, joinsFrom]
    intro table name own onto ws hws
    exact hrest _ hws
  | cons j joins ih =>
    obtain ⟨hj, hjoins⟩ := List.forall_mem_cons.1 hjoins
    rw [List.flatMap_cons, List.append_assoc]
    simp [ListedJoin.words, joinsFrom, hj.1.ofToken_written, hj.2.ofToken_written, ih hjoins]

namespace StatementHead

variable {h : StatementHead}

theorem whereFrom_append (hcondition : StaysInside h.condition) (hrest : EndsHead rest) :
    whereFrom (h.whereWords ++ rest) = h.condition := by
  rw [whereWords]
  split
  case isTrue hnil =>
    rw [List.nil_append, hnil, whereFrom]
    exact fun ws => hrest.ne_cons (by decide) ws
  case isFalse =>
    rw [List.cons_append, whereFrom, conditionFrom_append hcondition hrest]

/-- A head is read from its words, whatever ends it. -/
theorem ofTokens?_words (hh : h.Plain) (hrest : EndsHead rest) :
    ofTokens? (h.words ++ rest) = some h := by
  have hleft : ∀ ws, h.whereWords ++ rest ≠ "left" :: ws := by
    intro ws
    rw [whereWords]
    split
    · exact hrest.ne_cons (by decide) ws
    · intro heq
      have hkeyword : "where" = "left" := (List.cons.inj heq).1
      exact absurd hkeyword (by decide)
  have hitems := itemsFrom_intercalate hh.items_ne hh.items
  rw [words, List.cons_append, List.cons_append, List.append_assoc, List.cons_append,
    List.cons_append, List.cons_append, List.append_assoc, ofTokens?, hitems]
  simp [joinsFrom_flatMap hh.joins hleft, whereFrom_append hh.condition hrest]

end StatementHead

end Reading

/-! ## Statements -/

/-- The tokens of the statement whose rows another one numbers, or of the statement that is there.
-/
def numberedTokens (d : Dialect) (ws : List String) : List String :=
  match d with
  | .oracle => (rowNumFront.isPrefixOf? ws).getD ws
  | .sqlserver =>
    ((rowNumberFront.isPrefixOf? ws).bind fun rest =>
      rowNumberMiddle.isPrefixOf? (numberingFrom rest).2).getD ws
  | .derby | .mysql | .postgresql => ws

/-- The head of a statement in a dialect, and how its rows are arranged. -/
def readStatement? (d : Dialect) (ws : List String) : Option (StatementHead × Arrangement) := do
  let head ← StatementHead.ofTokens? (numberedTokens d ws)
  return (head, ← Arrangement.ofTokens? d head.words ws)

section Statements

variable {d : Dialect} {start ws rest : List String} {a : Arrangement} {page : Page}

theorem endsHead_of_orderFrom (h : EndsHead (orderFrom rest).2) : EndsHead rest := by
  unfold orderFrom at h
  split at h
  · exact endsHead_cons (by decide) _
  · exact h

theorem endsHead_of_pageBehind? (h : pageBehind? d rest = some page) : EndsHead rest := by
  unfold pageBehind? at h
  split at h
  case h_6 => cases h
  all_goals exact endsHead_cons (by decide) _

theorem endsHead_of_rowNumPage? (h : rowNumPage? rest = some page) : EndsHead rest := by
  unfold rowNumPage? at h
  split at h
  case h_1 => exact .cons rfl
  case h_2 => cases h

theorem endsHead_of_rowNumberPage? {numbering : List SortKey}
    (h : rowNumberPage? numbering rest = some page) : EndsHead rest := by
  unfold rowNumberPage? at h
  split at h
  case h_1 => exact .cons rfl
  case h_2 => cases h

/-- A statement with a page read behind its order starts as given, and its head ends there. -/
theorem Arrangement.endsHead_of_within? {page? : List String → Option Page}
    (hpage? : ∀ {ws page}, page? ws = some page → EndsHead ws)
    (h : within? page? start ws = some a) : ∃ rest, ws = start ++ rest ∧ EndsHead rest := by
  obtain ⟨rest, hrest, h⟩ := Option.bind_eq_some_iff.1 h
  obtain ⟨page, hpage, -⟩ := Option.bind_eq_some_iff.1 h
  exact ⟨rest, (List.append_eq_of_isPrefixOf?_eq_some hrest).symm,
    endsHead_of_orderFrom (hpage? hpage)⟩

theorem Arrangement.endsHead_of_behind? (h : behind? d start ws = some a) :
    ∃ rest, ws = start ++ rest ∧ EndsHead rest := by
  obtain ⟨rest, hrest, h⟩ := Option.bind_eq_some_iff.1 h
  refine ⟨rest, (List.append_eq_of_isPrefixOf?_eq_some hrest).symm, endsHead_of_orderFrom ?_⟩
  dsimp only at h
  split at h
  case isTrue hnil => exact hnil ▸ .nil
  case isFalse =>
    obtain ⟨page, hpage, -⟩ := Option.bind_eq_some_iff.1 h
    exact endsHead_of_pageBehind? hpage

/-- Where a statement is read that starts as the generated ones do, its tokens start there. -/
theorem numberedTokens_eq {more : List String} (hstart : start = "select" :: "distinct" :: more)
    (h : Arrangement.ofTokens? d start ws = some a) :
    ∃ rest, numberedTokens d ws = start ++ rest ∧ EndsHead rest := by
  rcases Option.or_eq_some_iff.1 h with haround | ⟨-, hbehind⟩
  · cases d with
    | derby | mysql | postgresql => cases haround
    | oracle =>
      obtain ⟨inner, hinner, ha⟩ := Option.bind_eq_some_iff.1 haround
      obtain ⟨rest, hrest, hends⟩ := Arrangement.endsHead_of_within? endsHead_of_rowNumPage? ha
      refine ⟨rest, ?_, hends⟩
      rw [numberedTokens, hinner, Option.getD_some, hrest]
    | sqlserver =>
      obtain ⟨outer, houter, ha⟩ := Option.bind_eq_some_iff.1 haround
      obtain ⟨inner, hinner, ha⟩ := Option.bind_eq_some_iff.1 ha
      obtain ⟨rest, hrest, hends⟩ := Arrangement.endsHead_of_within? endsHead_of_rowNumberPage? ha
      have hmiddle : rowNumberMiddle.isPrefixOf? (numberingFrom outer).2 = some inner := hinner
      refine ⟨rest, ?_, hends⟩
      rw [numberedTokens, houter, Option.bind_some, hmiddle, Option.getD_some, hrest]
  · obtain ⟨rest, hrest, hends⟩ := Arrangement.endsHead_of_behind? hbehind
    refine ⟨rest, ?_, hends⟩
    rw [← hrest]
    -- No statement around it starts with `distinct`.
    have hfront : ∀ {front : List String}, front.take 2 ≠ ["select", "distinct"] →
        2 ≤ front.length → front.isPrefixOf? ws = none := by
      intro front hne hlength
      rw [Option.eq_none_iff_forall_ne_some]
      intro behind hbehind
      have hall := List.append_eq_of_isPrefixOf?_eq_some hbehind
      rw [hrest, hstart] at hall
      have htake := congrArg (List.take 2) hall
      rw [List.take_append_of_le_length hlength] at htake
      exact hne htake
    cases d with
    | derby | mysql | postgresql => rfl
    | oracle =>
      rw [numberedTokens, hfront (by decide) (by decide)]
      rfl
    | sqlserver =>
      rw [numberedTokens, hfront (by decide) (by decide)]
      rfl

/-- A statement is read as its head and its arrangement. -/
theorem readStatement?_eq {h : StatementHead} (hh : h.Plain)
    (ha : Arrangement.ofTokens? d h.words ws = some a) : readStatement? d ws = some (h, a) := by
  obtain ⟨rest, hrest, hends⟩ : ∃ rest, numberedTokens d ws = h.words ++ rest ∧ EndsHead rest :=
    numberedTokens_eq rfl ha
  rw [readStatement?, hrest, StatementHead.ofTokens?_words hh hends]
  simp [ha]

end Statements

end ArtifactQuery.Sql
