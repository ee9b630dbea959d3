import ArtifactQuery.Proofs.Words
import ArtifactQuery.Sql.Dialect
import Mathlib.Data.List.Chain
import Std.Data.String.ToInt

/-!
# The order and the page of a statement

Behind the conditions of a statement its text says in which order rows are returned, and which of
them. Each dialect has its own words for the rows: behind the statement, or around it. They are read
from the tokens of the text, without regard to what the text was written from.

* `ColumnName`, `SortKey`: a column under its name, and what rows are sorted by.
* `keysFrom`, `orderFrom`: the keys of an order, up to where it ends (`keysFrom_intercalate`).
* `Page`: the rows that are returned.
* `Arrangement.ofTokens?`: the order and the page of a statement that starts as given.
* `ofTokens?_bare`, `ofTokens?_behind`, `ofTokens?_inRowNums`, `ofTokens?_inRowNumbers`: what is
  read from the texts of the dialects.
-/

namespace ArtifactQuery.Sql

/-! ## Orders -/

/-- A column under its name, with the table that it is looked up in or without. -/
structure ColumnName where
  table : Option String := none
  column : String
  deriving DecidableEq, Repr

/-- The column that a token names: a dot stands between table and column. -/
def ColumnName.ofToken (w : String) : ColumnName :=
  match segments '.' w with
  | [table, column] => ⟨some table, column⟩
  | _ => ⟨none, w⟩

/-- The text of a column's name. -/
def ColumnName.written (c : ColumnName) : String := c.table.elim "" (· ++ ".") ++ c.column

/-- A name without dots, blanks and marks. -/
def IsPlainName (s : String) : Prop :=
  s.toList ≠ [] ∧ ∀ c ∈ s.toList, c ≠ '.' ∧ endsWord sqlMarks c = false

-- The characters of `s` are tried, not all characters there are.
instance (s : String) : Decidable (IsPlainName s) :=
  @instDecidableAnd _ _ inferInstance (List.decidableBAll _ _)

/-- Whether table and column have plain names. -/
structure ColumnName.Plain (c : ColumnName) : Prop where
  table : ∀ name ∈ c.table, IsPlainName name
  column : IsPlainName c.column

namespace ColumnName.Plain

variable {n : ColumnName} (hn : n.Plain)
include hn

theorem endsWord_written {c : Char} (hc : c ∈ n.written.toList) : endsWord sqlMarks c = false := by
  rw [written] at hc
  cases htable : n.table with
  | none =>
    rw [htable, Option.elim_none, String.empty_append] at hc
    exact (hn.column.2 c hc).2
  | some table =>
    rw [htable, Option.elim_some, String.toList_append, String.toList_append] at hc
    rcases List.mem_append.1 hc with hc | hc
    · rcases List.mem_append.1 hc with hc | hc
      · exact ((hn.table table htable).2 c hc).2
      · rw [List.mem_singleton.1 hc]
        decide
    · exact (hn.column.2 c hc).2

theorem written_ne_nil : n.written.toList ≠ [] := by
  rw [written, String.toList_append]
  exact List.append_ne_nil_of_right_ne_nil _ hn.column.1

theorem tokens_written : tokens n.written = [n.written] :=
  tokens_eq_singleton hn.written_ne_nil (List.all_eq_true.2 fun c hc => by
    rw [hn.endsWord_written hc]
    rfl)

/-- A column is read from its name. -/
theorem ofToken_written : ofToken n.written = n := by
  have hdot : ∀ {s : String}, IsPlainName s → '.' ∉ s.toList := fun hs hmem => (hs.2 _ hmem).1 rfl
  obtain ⟨table, column⟩ := n
  cases table with
  | none =>
    have hsegments : segments '.' ("" ++ column) = [column] :=
      (segments_eq_iff (List.cons_ne_nil _ _) (by simpa using hdot hn.column)).2 (by simp)
    rw [ofToken, written, Option.elim_none, hsegments]
    simp
  | some table =>
    have hsegments : segments '.' (table ++ "." ++ column) = [table, column] :=
      (segments_eq_iff (List.cons_ne_nil _ _)
        (by simpa using ⟨hdot (hn.table table rfl), hdot hn.column⟩)).2 (by simp)
    rw [ofToken, written, Option.elim_some, hsegments]

end ColumnName.Plain

/-- What rows are sorted by. -/
structure SortKey where
  source : ColumnName
  descending : Bool := false
  deriving DecidableEq, Repr

/-- The direction that a token names, in letters of either case: whether it is descending. -/
def direction? (w : String) : Option Bool :=
  let letters := w.toList.map Char.toLower
  if letters = "asc".toList then some false
  else if letters = "desc".toList then some true
  else none

/-- Puts a key in front of those that were read. -/
def SortKey.before (k : SortKey) (r : List SortKey × List String) : List SortKey × List String :=
  (k :: r.1, r.2)

/-- The keys at the front of tokens, with commas between them, and the tokens behind. A key is a
column's name and perhaps a direction. -/
def keysFrom : List String → List SortKey × List String
  | [] => ([], [])
  | [w] => ([⟨.ofToken w, false⟩], [])
  | w :: d :: ws =>
    if d = "," then SortKey.before ⟨.ofToken w, false⟩ (keysFrom ws)
    else match direction? d, ws with
      | none, _ => ([⟨.ofToken w, false⟩], d :: ws)
      | some descending, [] => ([⟨.ofToken w, descending⟩], [])
      | some descending, c :: cs =>
        if c = "," then SortKey.before ⟨.ofToken w, descending⟩ (keysFrom cs)
        else ([⟨.ofToken w, descending⟩], c :: cs)

/-- The order at the front of tokens, if any, and the tokens behind. -/
def orderFrom : List String → List SortKey × List String
  | "order" :: "by" :: ws => keysFrom ws
  | ws => ([], ws)

/-- The tokens of a key. -/
inductive SortKey.Words : SortKey → List String → Prop
  | bare {w : String} (hw : w ≠ "(") : Words ⟨.ofToken w, false⟩ [w]
  | directed {w d : String} {descending : Bool} (hw : w ≠ "(")
      (h : direction? d = some descending) : Words ⟨.ofToken w, descending⟩ [w, d]

/-- Whether no key goes on with a token. -/
def EndsKeys (ws : List String) : Prop := ws.head?.all fun w => w ≠ "," && (direction? w).isNone

instance (ws : List String) : Decidable (EndsKeys ws) := inferInstanceAs (Decidable (_ = true))

section Keys

variable {keys : List SortKey} {terms : List (List String)} {rest : List String}

theorem direction?_comma : direction? "," = none := by decide

theorem ne_comma_of_direction? {d : String} {descending : Bool}
    (h : direction? d = some descending) : d ≠ "," := by
  rintro rfl
  rw [direction?_comma] at h
  cases h

theorem SortKey.Words.keysFrom_append {k : SortKey} {ws : List String} (h : k.Words ws)
    (hrest : EndsKeys rest) : keysFrom (ws ++ rest) = ([k], rest) := by
  cases rest with
  | nil =>
    cases h with
    | bare hw => rfl
    | directed hw h => simp [keysFrom, h, ne_comma_of_direction? h]
  | cons r rs =>
    rw [EndsKeys, List.head?_cons, Option.all_some, Bool.and_eq_true, decide_eq_true_eq,
      Option.isNone_iff_eq_none] at hrest
    cases h with
    | bare hw => simp [keysFrom, hrest.1, hrest.2]
    | directed hw h => simp [keysFrom, h, ne_comma_of_direction? h, hrest.1]

theorem SortKey.Words.keysFrom_comma {k : SortKey} {ws : List String} (h : k.Words ws)
    (rest : List String) : keysFrom (ws ++ "," :: rest) = k.before (keysFrom rest) := by
  cases h with
  | bare hw => simp [keysFrom, direction?_comma]
  | directed hw h => simp [keysFrom, h, ne_comma_of_direction? h]

/-- Keys with commas between them are read up to their end. -/
theorem keysFrom_intercalate (h : List.Forall₂ SortKey.Words keys terms) (hne : keys ≠ [])
    (hrest : EndsKeys rest) : keysFrom ([","].intercalate terms ++ rest) = (keys, rest) := by
  induction h with
  | nil => exact absurd rfl hne
  | @cons k ws keys terms hk hkeys ih =>
    cases hkeys with
    | nil =>
      rw [List.intercalate_singleton]
      exact hk.keysFrom_append hrest
    | cons hk' hkeys' =>
      rw [List.intercalate_cons_of_ne_nil (List.cons_ne_nil _ _), List.append_assoc,
        List.append_assoc, List.singleton_append, hk.keysFrom_comma, ih (List.cons_ne_nil _ _)]
      rfl

/-- Keys start with a name. -/
theorem exists_cons_of_keys (h : List.Forall₂ SortKey.Words keys terms) (hne : keys ≠ []) :
    ∃ w more, w ≠ "(" ∧ [","].intercalate terms = w :: more := by
  cases h with
  | nil => exact absurd rfl hne
  | @cons k ws keys terms hk _ =>
    have hjoined : ∃ more, [","].intercalate (ws :: terms) = ws ++ more := by
      cases terms with
      | nil => exact ⟨[], by rw [List.intercalate_singleton, List.append_nil]⟩
      | cons t ts => exact ⟨_, by rw [List.intercalate_cons_cons, List.append_assoc]⟩
    obtain ⟨more, hmore⟩ := hjoined
    rw [hmore]
    cases hk with
    | bare hw => exact ⟨_, _, hw, rfl⟩
    | directed hw _ => exact ⟨_, _, hw, rfl⟩

/-- Two tokens that may stand behind each other in an order. -/
def FollowsInKeys (a b : String) : Prop := a = "," ∨ b = "," ∨ (direction? b).isSome

instance (a b : String) : Decidable (FollowsInKeys a b) := inferInstanceAs (Decidable (_ ∨ _))

theorem isChain_keys (h : List.Forall₂ SortKey.Words keys terms) :
    ([","].intercalate terms).IsChain FollowsInKeys := by
  have hkey : ∀ {k : SortKey} {ws : List String}, k.Words ws → ws.IsChain FollowsInKeys := by
    intro k ws hk
    cases hk with
    | bare hw => exact .singleton _
    | directed hw h => exact .cons_cons (.inr (.inr (by rw [h]; rfl))) (.singleton _)
  induction h with
  | nil => exact .nil
  | @cons k ws keys terms hk hkeys ih =>
    cases terms with
    | nil =>
      rw [List.intercalate_singleton]
      exact hkey hk
    | cons ws' terms =>
      -- A comma may stand behind any token, and any token behind it.
      rw [List.intercalate_cons_of_ne_nil (List.cons_ne_nil _ _), List.append_assoc,
        List.singleton_append]
      refine List.isChain_append.2 ⟨hkey hk, ih.cons fun b _ => .inl rfl, fun a _ b hb => ?_⟩
      cases hb
      exact .inr (.inl rfl)

end Keys

/-! ## Pages -/

/-- Which rows are returned. -/
inductive Page
  /-- `count` rows behind `skipped` others, or all behind these. -/
  | slice (skipped : Int) (count : Option Int)
  /-- The rows numbered from 1 as they come, up to `last`; of these those beyond `skipped`. -/
  | rowNum (skipped last : Int)
  /-- The rows numbered from 1 in an order, from `first` up to but not with `stop`. -/
  | rowNumber (order : List SortKey) (first stop : Int)
  deriving DecidableEq, Repr

/-- The order of a statement, and which of its rows are returned if not all. -/
structure Arrangement where
  order : List SortKey
  page : Option Page
  deriving DecidableEq, Repr

/-- The page that tokens behind a statement ask for. -/
def pageBehind? : Dialect → List String → Option Page
  | .derby, ["offset", o, "rows"] => do return .slice (← o.toInt?) none
  | .derby, ["offset", o, "rows", "fetch", "next", n, "rows", "only"] => do
    return .slice (← o.toInt?) (some (← n.toInt?))
  | .mysql, ["limit", o, ",", n] => do return .slice (← o.toInt?) (some (← n.toInt?))
  | .postgresql, ["offset", o] => do return .slice (← o.toInt?) none
  | .postgresql, ["limit", n, "offset", o] => do return .slice (← o.toInt?) (some (← n.toInt?))
  | _, _ => none

/-- The order in which rows are numbered: `(select 1)` asks for none. -/
def numberingFrom (ws : List String) : List SortKey × List String :=
  match ["order", "by", "(", "select", "1", ")"].isPrefixOf? ws with
  | some rest => ([], rest)
  | none => orderFrom ws

/-- The tokens in front of a statement whose rows are numbered as they come. -/
def rowNumFront : List String :=
  ["select", "*", "from", "(", "select", "inner_query.*", ",", "ROWNUM", "rnum", "from", "("]

/-- The tokens in front of the order in which rows are numbered. -/
def rowNumberFront : List String :=
  ["select", "bb.*", "from", "(", "select", "aa.*", ",", "ROW_NUMBER", "(", ")", "OVER", "("]

/-- The tokens between the order in which rows are numbered and the statement that returns them. -/
def rowNumberMiddle : List String := [")", "AS", "RN", "from", "("]

/-- The page that tokens behind a statement ask for whose rows are numbered as they come. -/
def rowNumPage? : List String → Option Page
  | [")", "inner_query", "where", "ROWNUM", "<=", last, ")", "where", "rnum", ">", skipped] => do
    return .rowNum (← skipped.toInt?) (← last.toInt?)
  | _ => none

/-- The page that tokens behind a statement ask for whose rows are numbered in an order. -/
def rowNumberPage? (numbering : List SortKey) : List String → Option Page
  | [")", "aa", ")", "bb", "where", "bb.RN", ">=", first, "and", "bb.RN", "<", stop] => do
    return .rowNumber numbering (← first.toInt?) (← stop.toInt?)
  | _ => none

namespace Arrangement

/-- A statement that starts with `start`, and the page that is read behind its order. -/
def within? (page? : List String → Option Page) (start ws : List String) : Option Arrangement := do
  let (order, rest) := orderFrom (← start.isPrefixOf? ws)
  return ⟨order, some (← page? rest)⟩

/-- A statement that starts with `start`, within one that numbers its rows. -/
def around? (d : Dialect) (start ws : List String) : Option Arrangement :=
  match d with
  | .oracle => do within? rowNumPage? start (← rowNumFront.isPrefixOf? ws)
  | .sqlserver => do
    let (numbering, rest) := numberingFrom (← rowNumberFront.isPrefixOf? ws)
    within? (rowNumberPage? numbering) start (← rowNumberMiddle.isPrefixOf? rest)
  | .derby | .mysql | .postgresql => none

/-- A statement that starts with `start`, with its page behind it if it has one. -/
def behind? (d : Dialect) (start ws : List String) : Option Arrangement := do
  let (order, rest) := orderFrom (← start.isPrefixOf? ws)
  if rest = [] then some ⟨order, none⟩ else return ⟨order, some (← pageBehind? d rest)⟩

/-- How the rows of a statement are arranged that starts with the tokens `start`, up to its
conditions. -/
def ofTokens? (d : Dialect) (start ws : List String) : Option Arrangement :=
  (around? d start ws).or (behind? d start ws)

end Arrangement

/-! ## Reading orders -/

/-- The tokens of an order, if there is one. -/
inductive OrderWords : List SortKey → List String → Prop
  | unsorted : OrderWords [] []
  | sorted {keys : List SortKey} {terms : List (List String)} (hne : keys ≠ [])
      (h : List.Forall₂ SortKey.Words keys terms) :
      OrderWords keys ("order" :: "by" :: [","].intercalate terms)

/-- Whether an order ends in front of tokens. -/
def EndsOrder (ws : List String) : Prop := ws.head?.all fun w => w ∈ [")", "offset", "limit"]

instance (ws : List String) : Decidable (EndsOrder ws) := inferInstanceAs (Decidable (_ = true))

section Orders

variable {keys : List SortKey} {ws rest : List String}

theorem endsOrder_cons {w : String} (hw : w ∈ [")", "offset", "limit"]) (ws : List String) :
    EndsOrder (w :: ws) :=
  decide_eq_true hw

theorem EndsOrder.endsKeys (h : EndsOrder rest) : EndsKeys rest := by
  have hmarks : ∀ w ∈ [")", "offset", "limit"], w ≠ "," ∧ (direction? w).isNone := by decide
  cases rest with
  | nil => rfl
  | cons w rest =>
    obtain ⟨hcomma, hdirection⟩ := hmarks w (of_decide_eq_true h)
    rw [EndsKeys, List.head?_cons, Option.all_some, decide_eq_true hcomma, hdirection]
    rfl

theorem EndsOrder.orderFrom_eq (h : EndsOrder rest) : orderFrom rest = ([], rest) := by
  have horder : "order" ∉ [")", "offset", "limit"] := by decide
  refine orderFrom.eq_2 rest fun ws hws => horder ?_
  rw [hws] at h
  exact of_decide_eq_true h

/-- An order is read up to its end. -/
theorem OrderWords.orderFrom_append (h : OrderWords keys ws) (hrest : EndsOrder rest) :
    orderFrom (ws ++ rest) = (keys, rest) := by
  cases h with
  | unsorted => exact hrest.orderFrom_eq
  | sorted hne h => exact keysFrom_intercalate h hne hrest.endsKeys

/-- What is left behind the keys stands at the end of the tokens. -/
theorem keysFrom_suffix (ws : List String) : (keysFrom ws).2 <:+ ws := by
  fun_induction keysFrom ws with
  | case1 => exact List.suffix_refl _
  | case2 => exact List.nil_suffix
  | case3 w ws ih => exact ih.trans ((List.suffix_cons _ _).trans (List.suffix_cons _ _))
  | case4 => exact List.suffix_cons _ _
  | case5 => exact List.nil_suffix
  | case6 w d descending h cs _ ih =>
    exact ih.trans
      ((List.suffix_cons _ _).trans ((List.suffix_cons _ _).trans (List.suffix_cons _ _)))
  | case7 => exact (List.suffix_cons _ _).trans (List.suffix_cons _ _)

theorem orderFrom_suffix (ws : List String) : (orderFrom ws).2 <:+ ws := by
  unfold orderFrom
  split
  · exact (keysFrom_suffix _).trans ((List.suffix_cons _ _).trans (List.suffix_cons _ _))
  · exact List.suffix_refl _

theorem numberingFrom_suffix (ws : List String) : (numberingFrom ws).2 <:+ ws := by
  rw [numberingFrom]
  split
  case h_1 rest h => exact ⟨_, List.append_eq_of_isPrefixOf?_eq_some h⟩
  case h_2 => exact orderFrom_suffix ws

/-- An order in which rows are numbered is read up to its end. -/
theorem OrderWords.numberingFrom_append (h : OrderWords keys ws) (hne : keys ≠ [])
    (hrest : EndsOrder rest) : numberingFrom (ws ++ rest) = (keys, rest) := by
  have hkeyword : ["order", "by", "(", "select", "1", ")"].isPrefixOf? (ws ++ rest) = none := by
    rw [Option.eq_none_iff_forall_ne_some]
    intro more hmore
    have hall := List.append_eq_of_isPrefixOf?_eq_some hmore
    cases h with
    | unsorted => exact hne rfl
    | sorted _ h =>
      obtain ⟨w, more', hw, hterms⟩ := exists_cons_of_keys h hne
      rw [hterms] at hall
      simp only [List.cons_append, List.cons.injEq] at hall
      exact hw hall.2.2.1.symm
  rw [numberingFrom, hkeyword]
  exact h.orderFrom_append hrest

/-- No order is asked for. -/
theorem numberingFrom_select (rest : List String) :
    numberingFrom (["order", "by", "(", "select", "1", ")"] ++ rest) = ([], rest) := by
  rw [numberingFrom, List.isPrefixOf?_eq_some_iff_append_eq.2 rfl]

/-- Whether tokens end as no order does: of the last three, the second may not follow the first. -/
def EndsAround (ws : List String) : Prop :=
  ∃ front a b c, 2 ≤ front.length ∧ ¬ FollowsInKeys a b ∧ ws = front ++ [a, b, c]

theorem OrderWords.not_endsAround (h : OrderWords keys ws) : ¬ EndsAround ws := by
  rintro ⟨front, a, b, c, hfront, hab, rfl⟩
  obtain ⟨x, y, front, rfl⟩ : ∃ x y more, front = x :: y :: more := by
    match front, hfront with
    | x :: y :: more, _ => exact ⟨x, y, more, rfl⟩
  generalize hws : x :: y :: front ++ [a, b, c] = ws at h
  cases h with
  | unsorted => cases hws
  | sorted hne h =>
    have hkeys := (List.cons.inj (List.cons.inj hws).2).2
    have hchain := (hkeys ▸ isChain_keys h).right_of_append
    exact hab (List.isChain_cons_cons.1 hchain).1

theorem EndsAround.append (h : EndsAround ws) (front : List String) : EndsAround (front ++ ws) := by
  obtain ⟨more, a, b, c, hmore, hab, rfl⟩ := h
  refine ⟨front ++ more, a, b, c, ?_, hab, (List.append_assoc _ _ _).symm⟩
  rw [List.length_append]
  omega

end Orders

/-! ## Reading arrangements -/

namespace Arrangement

variable {d : Dialect} {start ws rest : List String} {keys : List SortKey}

theorem isPrefixOf?_append (xs ys : List String) : xs.isPrefixOf? (xs ++ ys) = some ys :=
  List.isPrefixOf?_eq_some_iff_append_eq.2 rfl

/-- No order ends as a statement does that stands around another one. -/
theorem append_ne_of_endsAround (h : OrderWords keys ws) (hrest : EndsAround rest)
    {front : List String} (hfront : start.length ≤ front.length) :
    start ++ ws ≠ front ++ rest := by
  intro heq
  have hlengths := congrArg List.length heq
  rw [List.length_append, List.length_append] at hlengths
  have hsuffix : rest <:+ ws :=
    List.suffix_of_suffix_length_le (List.suffix_append front _)
      (heq ▸ List.suffix_append start ws) (by omega)
  obtain ⟨more, rfl⟩ := hsuffix
  exact h.not_endsAround (hrest.append more)

theorem endsAround_of_rowNumPage? {page : Page} (h : rowNumPage? rest = some page) :
    EndsAround rest := by
  unfold rowNumPage? at h
  split at h
  case h_1 last skipped =>
    exact ⟨[")", "inner_query", "where", "ROWNUM", "<=", last, ")", "where"], _, _, skipped,
      Nat.le_add_left 2 _, (by decide : ¬ FollowsInKeys "rnum" ">"), rfl⟩
  case h_2 => cases h

theorem endsAround_of_rowNumberPage? {page : Page} {numbering : List SortKey}
    (h : rowNumberPage? numbering rest = some page) : EndsAround rest := by
  unfold rowNumberPage? at h
  split at h
  case h_1 first stop =>
    exact ⟨[")", "aa", ")", "bb", "where", "bb.RN", ">=", first, "and"], _, _, stop,
      Nat.le_add_left 2 _, (by decide : ¬ FollowsInKeys "bb.RN" "<"), rfl⟩
  case h_2 => cases h

/-- Where a page is read behind an order, its tokens end the statement. -/
theorem append_of_within? {page? : List String → Option Page} {a : Arrangement}
    (h : within? page? start ws = some a) :
    ∃ middle rest page, page? rest = some page ∧ ws = start ++ (middle ++ rest) := by
  obtain ⟨behind, hbehind, h⟩ := Option.bind_eq_some_iff.1 h
  obtain ⟨page, hpage, -⟩ := Option.bind_eq_some_iff.1 h
  obtain ⟨middle, hmiddle⟩ := orderFrom_suffix behind
  rw [← hmiddle] at hbehind
  exact ⟨middle, _, page, hpage, (List.append_eq_of_isPrefixOf?_eq_some hbehind).symm⟩

/-- A statement without a page is not taken for one that stands within another. -/
theorem around?_bare (h : OrderWords keys ws) : around? d start (start ++ ws) = none := by
  rw [Option.eq_none_iff_forall_ne_some]
  intro a ha
  cases d with
  | derby | mysql | postgresql => cases ha
  | oracle =>
    obtain ⟨inner, hinner, ha⟩ := Option.bind_eq_some_iff.1 ha
    obtain ⟨middle, rest, page, hpage, rfl⟩ := append_of_within? ha
    -- Read as a page, the tokens would end in a comparison that no order ends in.
    have hall := List.append_eq_of_isPrefixOf?_eq_some hinner
    rw [← List.append_assoc, ← List.append_assoc] at hall
    refine append_ne_of_endsAround h (endsAround_of_rowNumPage? hpage) ?_ hall.symm
    simp only [List.length_append]
    omega
  | sqlserver =>
    obtain ⟨outer, houter, ha⟩ := Option.bind_eq_some_iff.1 ha
    obtain ⟨inner, hinner, ha⟩ := Option.bind_eq_some_iff.1 ha
    obtain ⟨middle, rest, page, hpage, rfl⟩ := append_of_within? ha
    obtain ⟨numbers, hnumbers⟩ := numberingFrom_suffix outer
    have hmiddle : rowNumberMiddle ++ (start ++ (middle ++ rest)) = (numberingFrom outer).2 :=
      List.append_eq_of_isPrefixOf?_eq_some hinner
    have hall := List.append_eq_of_isPrefixOf?_eq_some houter
    rw [← hnumbers, ← hmiddle, ← List.append_assoc,
      ← List.append_assoc, ← List.append_assoc, ← List.append_assoc] at hall
    refine append_ne_of_endsAround h (endsAround_of_rowNumberPage? hpage) ?_ hall.symm
    simp only [List.length_append]
    omega

/-- A statement without a page. -/
theorem ofTokens?_bare (h : OrderWords keys ws) (d : Dialect) (start : List String) :
    ofTokens? d start (start ++ ws) = some ⟨keys, none⟩ := by
  have hread : orderFrom ws = (keys, []) := by
    have hend : EndsOrder [] := rfl
    have hread := h.orderFrom_append hend
    rwa [List.append_nil] at hread
  rw [ofTokens?, around?_bare h, Option.none_or, behind?, isPrefixOf?_append]
  simp [hread]

/-- A statement with its page behind it. -/
theorem ofTokens?_behind (h : OrderWords keys ws) (hd : d ≠ .oracle) (hd' : d ≠ .sqlserver)
    {page : Page} (hrest : EndsOrder rest) (hpage : pageBehind? d rest = some page) :
    ofTokens? d start (start ++ ws ++ rest) = some ⟨keys, some page⟩ := by
  have haround : around? d start (start ++ ws ++ rest) = none := by
    cases d with
    | oracle => exact absurd rfl hd
    | sqlserver => exact absurd rfl hd'
    | derby | mysql | postgresql => rfl
  have hne : rest ≠ [] := by
    rintro rfl
    cases d <;> cases hpage
  rw [ofTokens?, haround, Option.none_or, behind?, List.append_assoc, isPrefixOf?_append]
  simp [h.orderFrom_append hrest, hne, hpage]

theorem within?_append (h : OrderWords keys ws) {page? : List String → Option Page} {page : Page}
    (hrest : EndsOrder rest) (hpage : page? rest = some page) :
    within? page? start (start ++ ws ++ rest) = some ⟨keys, some page⟩ := by
  rw [within?, List.append_assoc, isPrefixOf?_append]
  simp [h.orderFrom_append hrest, hpage]

/-- A statement within one that numbers its rows as they come. -/
theorem ofTokens?_inRowNums (h : OrderWords keys ws) {page : Page} (hrest : EndsOrder rest)
    (hpage : rowNumPage? rest = some page) :
    ofTokens? .oracle start (rowNumFront ++ (start ++ ws ++ rest)) = some ⟨keys, some page⟩ := by
  have haround : around? .oracle start (rowNumFront ++ (start ++ ws ++ rest)) =
      some ⟨keys, some page⟩ := by
    rw [around?, isPrefixOf?_append]
    exact within?_append h hrest hpage
  rw [ofTokens?, haround, Option.some_or]

/-- A statement within one that numbers its rows in an order. -/
theorem ofTokens?_inRowNumbers (h : OrderWords keys ws) {page : Page} {numbers : List String}
    {numbering : List SortKey}
    (hnumbers : ∀ more, EndsOrder more → numberingFrom (numbers ++ more) = (numbering, more))
    (hrest : EndsOrder rest) (hpage : rowNumberPage? numbering rest = some page) :
    ofTokens? .sqlserver start
        (rowNumberFront ++ (numbers ++ (rowNumberMiddle ++ (start ++ ws ++ rest)))) =
      some ⟨keys, some page⟩ := by
  have haround : around? .sqlserver start
      (rowNumberFront ++ (numbers ++ (rowNumberMiddle ++ (start ++ ws ++ rest)))) =
      some ⟨keys, some page⟩ := by
    have hmiddle : EndsOrder (rowNumberMiddle ++ (start ++ ws ++ rest)) := rfl
    rw [around?, isPrefixOf?_append]
    dsimp only [Option.bind_eq_bind, Option.bind_some]
    rw [hnumbers _ hmiddle]
    dsimp only
    rw [isPrefixOf?_append]
    exact within?_append h hrest hpage
  rw [ofTokens?, haround, Option.some_or]

end Arrangement

end ArtifactQuery.Sql
