import ArtifactQuery.Sql.Rendering

/-!
# Joins

A statement reads a main table and outer joins with others. Result fields share joins: there is one
for each chain of tables that leads from the main table to one of them. Criteria have joins of their
own, numbered by the criterion.

* `Join`, `JoinPlan`: the joins planned so far.
* `JoinPlan.shared`: the occurrence at the end of a chain for result fields.
* `JoinPlan.own`: the occurrence at the end of a chain for one criterion.
* `JoinPlan.forCriterion`: the occurrence that a criterion reads, and the owner of a denied
  property.
* `JoinPlan.written`: the text of the `from` clause.
-/

namespace ArtifactQuery.Sql

/-- An occurrence joined to another on a pair of columns. -/
structure Join where
  occurrence : Occurrence
  column : String
  onto : Occurrence
  ontoColumn : String
  deriving DecidableEq, Repr

/-- The text of a join. -/
def Join.written (j : Join) : String :=
  let name := j.occurrence.name
  "left outer join " ++ j.occurrence.table.name ++ " " ++ name ++ " on " ++
    name ++ "." ++ j.column ++ " = " ++ j.onto.name ++ "." ++ j.ontoColumn

/-- The joins of a statement. -/
structure JoinPlan where
  main : Occurrence
  /-- The joins in the order of the text. -/
  joins : List Join := []
  /-- The shared occurrences, each under the chain of tables that leads to it. -/
  chains : List (List Table × Occurrence) := []
  /-- How many shared occurrences have a number. -/
  numbered : Nat := 0
  deriving DecidableEq, Repr

namespace JoinPlan

/-- The plan of a statement on one table. -/
def start (t : Table) : JoinPlan := { main := .plain t }

/-- The occurrences that the statement reads. -/
def occurrences (p : JoinPlan) : List Occurrence := p.main :: p.joins.map Join.occurrence

/-- Joins `o` to `onto`, unless the statement reads `o` already. -/
def join (p : JoinPlan) (onto o : Occurrence) : Except QueryError JoinPlan :=
  if o ∈ p.occurrences then .ok p
  else (onto.table.link o.table).map fun c =>
    { p with joins := p.joins ++ [⟨o, c.2, onto, c.1⟩] }

/-- Whether the occurrence of `t` without a number is taken by a shared chain. -/
def takesPlain (p : JoinPlan) (t : Table) : Bool :=
  t = p.main.table ∨ p.chains.any fun c => c.2.table = t

/-- A shared occurrence of `t` for a new chain: the first has no number. -/
def newShared (p : JoinPlan) (t : Table) : Except QueryError (Occurrence × JoinPlan) :=
  if ¬ p.takesPlain t then .ok (.plain t, p)
  else if p.numbered + 1 < firstDynamicId then
    .ok (⟨t, p.numbered + 1⟩, { p with numbered := p.numbered + 1 })
  else .error (.malformed .tooManyJoins)

/-- Follows the tables of a chain from `o`, which ends the chain `done`, over shared occurrences. -/
def sharedFrom (p : JoinPlan) (o : Occurrence) (done : List Table) :
    List Table → Except QueryError (Occurrence × JoinPlan)
  | [] => .ok (o, p)
  | t :: rest =>
    let chain := done ++ [t]
    match p.chains.lookup chain with
    | some o' => p.sharedFrom o' chain rest
    | none => do
      let (o', p) ← p.newShared t
      let p ← p.join o o'
      { p with chains := p.chains ++ [(chain, o')] }.sharedFrom o' chain rest

/-- The shared occurrence at the end of a chain that starts at the main table. -/
def shared (p : JoinPlan) (chain : List Table) : Except QueryError (Occurrence × JoinPlan) :=
  p.sharedFrom p.main (chain.take 1) (chain.drop 1)

/-- Follows tables from `o` over occurrences with the number `id`. -/
def ownFrom (p : JoinPlan) (id : Nat) (o : Occurrence) :
    List Table → Except QueryError (Occurrence × JoinPlan)
  | [] => .ok (o, p)
  | t :: rest => do (← p.join o ⟨t, id⟩).ownFrom id ⟨t, id⟩ rest

/-- The occurrence with the number `id` at the end of a chain that starts at the main table. -/
def own (p : JoinPlan) (id : Nat) (chain : List Table) :
    Except QueryError (Occurrence × JoinPlan) :=
  p.ownFrom id p.main (chain.drop 1)

/-- The occurrence that returns a result field. -/
def forField (p : JoinPlan) (f : ResultField) : Except QueryError (Occurrence × JoinPlan) :=
  p.shared (tableChain f.path f.field.column.table)

end JoinPlan

/-- What a criterion reads. -/
structure Reading where
  occurrence : Occurrence
  /-- The occurrence that owns the properties, where it differs from the one read. -/
  owner : Option Occurrence

/-- The table that a criterion compares in; a comparison of values has none. -/
def comparedTable? (c : Criterion) : Option Table :=
  match c.left with
  | .field f => some f.column.table
  | .value _ => if c.kind.namesKey then some c.leftTable.table else none

namespace JoinPlan

/-- What a criterion reads at the end of a chain of several tables. The properties of a denied one
are read by a sub-select, so the chain is followed to their owner only. -/
def alongChain (p : JoinPlan) (c : Criterion) (chain : List Table) :
    Except QueryError (Reading × JoinPlan) :=
  let id := c.leftTable.id
  if id = 0 then (p.shared chain).map fun r => (⟨r.1, none⟩, r.2)
  else if c.kind.namesKey ∧ c.comparator.isNegative then
    (p.own id chain.dropLast).map fun r =>
      (⟨⟨chain.getLast?.getD p.main.table, id⟩, some r.1⟩, r.2)
  else (p.own id chain).map fun r => (⟨r.1, none⟩, r.2)

/-- What a criterion reads. -/
def forCriterion (p : JoinPlan) (c : Criterion) : Except QueryError (Reading × JoinPlan) :=
  match comparedTable? c with
  | none => .ok (⟨p.main, none⟩, p)
  | some t =>
    let chain := tableChain c.path t
    if chain.length = 1 then .ok (⟨p.main, some p.main⟩, p) else p.alongChain c chain

/-- The text of the `from` clause. -/
def written (p : JoinPlan) : String :=
  " ".intercalate ((p.main.table.name ++ " " ++ p.main.name) :: p.joins.map Join.written)

end JoinPlan

end ArtifactQuery.Sql
