import ArtifactQuery.Proofs.OuterJoins
import ArtifactQuery.Proofs.PropertyTests
import ArtifactQuery.Proofs.Writing

/-!
# Denied properties

Asking for a property reads a row that is joined to its owner. Denying one compares the owner with
a sub-select over all rows. Both are about the same rows, so that a denial is true where asking is
not, but for the value `*`: it asks for any value, and denies this text.

* `PropertyOwner`: items, modules and builds, with the domains and columns of their properties.
* `criterionOf_named`: the criterion of a test that names a property.
* `returns_joined`, `returns_denied`: the owners that a statement with one criterion returns.
* `deniedProperty_exact`: what a statement returns that asks for a property, and one that denies it.
-/

namespace ArtifactQuery

open Sql

/-! ## Owners -/

/-- What has properties. -/
inductive PropertyOwner
  | items
  | modules
  | builds
  deriving DecidableEq, Repr

namespace PropertyOwner

/-- The domain of the owners. -/
def domain : PropertyOwner → Domain
  | items => .items
  | modules => .modules
  | builds => .builds

/-- The domain of their properties. -/
def properties : PropertyOwner → Domain
  | items => .properties
  | modules => .moduleProperties
  | builds => .buildProperties

/-- The field of a property's key. -/
def keyField : PropertyOwner → Field
  | items => .propertyKey
  | modules => .modulePropertyKey
  | builds => .buildPropertyKey

/-- The field of a property's value. -/
def valueField : PropertyOwner → Field
  | items => .propertyValue
  | modules => .modulePropertyValue
  | builds => .buildPropertyValue

/-- The column that tells owners apart, in their table and in the one of their properties. -/
def column : PropertyOwner → String
  | items => "node_id"
  | modules => "module_id"
  | builds => "build_id"

/-- The occurrence of the properties that a criterion reads. -/
def occurrence (o : PropertyOwner) (n : Nat) : Occurrence := ⟨o.properties.table, n⟩

/-- The join of the properties that a criterion reads. -/
def join (o : PropertyOwner) (n : Nat) : Join :=
  ⟨o.occurrence n, o.column, .plain o.domain.table, o.column⟩

/-- The path from the owners to their properties. -/
def path (o : PropertyOwner) : List Domain := [o.domain, o.properties]

theorem properties?_eq (o : PropertyOwner) : o.domain.properties? = some o.properties := by
  cases o <;> rfl

theorem keyAndValue?_eq (o : PropertyOwner) :
    o.properties.keyAndValue? = some (o.keyField, o.valueField) := by
  cases o <;> rfl

theorem link_eq (o : PropertyOwner) :
    o.domain.table.link o.properties.table = .ok (o.column, o.column) := by
  cases o <;> rfl

theorem ownerColumns_eq (o : PropertyOwner) :
    ownerColumns o.domain.table o.properties.table = .ok (o.column, o.column) := by
  cases o <;> rfl

theorem tableChain_eq (o : PropertyOwner) :
    tableChain o.path o.properties.table = [o.domain.table, o.properties.table] := by
  cases o <;> rfl

theorem propertyPath_eq (o : PropertyOwner) (s : Draft) :
    s.propertyPath o.domain o.properties = (o.path, s.propertyId) := by
  cases o <;> rfl

end PropertyOwner

/-- The properties of an owner. -/
def Sql.Database.ownedBy (db : Database) (o : PropertyOwner) (owner : Record) : List Record :=
  (db.rows o.properties.table).filter fun row => row o.column = owner o.column

theorem Sql.Database.mem_ownedBy {db : Database} {o : PropertyOwner} {owner row : Record} :
    row ∈ db.ownedBy o owner ↔
      row ∈ db.rows o.properties.table ∧ row o.column = owner o.column := by
  rw [ownedBy, List.mem_filter, decide_eq_true_iff]

/-! ## Tests -/

/-- The test of a property by its key. -/
def Test.named (key : String) (cmp : Comparator) (l : Literal) : Test := ⟨"@" ++ key, cmp, l⟩

/-- A literal compared with the values of properties. -/
def Literal.asText : Literal → Value
  | .null => .null
  | l => .text l.shown

/-- Whether a property has a key and a value that satisfies a comparison. -/
def Sql.Record.HasProperty (db : Database) (key : String) (cmp : Comparator) (v : Value)
    (row : Record) : Prop :=
  row "prop_key" = .text key ∧ (row "prop_value").Satisfies db none cmp v

theorem Value.ofLiteral_text (l : Literal) : Value.ofLiteral .text l = .ok l.asText := by
  cases l <;> rfl

theorem Literal.asText_cases (l : Literal) : l.asText = .null ∨ ∃ s, l.asText = .text s := by
  cases l with
  | null => exact .inl rfl
  | text | number | truth => exact .inr ⟨_, rfl⟩

namespace Comparator

variable {cmp : Comparator} {key : String} {l : Literal}

/-- A comparator suits a literal if the one that asks for it does. -/
theorem check_eq_ok (h : cmp.Asks ∨ cmp.Denies) :
    cmp.check key .text l.asText = .ok () ↔ cmp.positive.CanAsk l.asText := by
  rcases l.asText_cases with hnull | ⟨s, hs⟩
  · rw [hnull]
    rcases h with (rfl | rfl) | (rfl | rfl) <;> simp [check, CanAsk, Asks, isEquality, positive,
      takesPattern]
  · rw [hs]
    rcases h with (rfl | rfl) | (rfl | rfl) <;> simp [check, CanAsk, Asks, positive]

end Comparator

namespace Draft

variable {now : Int} {s s' : Draft} {o : PropertyOwner} {key : String} {cmp : Comparator}
  {l : Literal} {c : Criterion}

/-- The criterion of a test that names a property. -/
theorem criterionOf_named (hs : s.query.domain = o.domain) (hcmp : cmp.Asks ∨ cmp.Denies) :
    s.criterionOf now (.named key cmp l) = .ok (c, s') ↔ cmp.positive.CanAsk l.asText ∧
      c = .ofProperty o.path (o.keyField, o.valueField) key (o.occurrence s.propertyId.1) cmp
        l.asText ∧
      s' = s.propertyId.2 := by
  -- The mark in front of the key is what makes it a test of a property.
  have hpath : (Test.named key cmp l).path.toList = '@' :: key.toList := by
    rw [Test.named, String.toList_append]
    rfl
  have hspan : cmp.ofSpan? = none := by
    rcases hcmp with (rfl | rfl) | (rfl | rfl) <;> rfl
  have hproperty : s.criterionOf now (.named key cmp l) = s.propertyCriterion key cmp l := by
    rw [criterionOf]
    split
    · rename_i k hk
      rw [hpath] at hk
      cases hk
      rw [String.ofList_toList]
      rfl
    · rename_i hnot
      exact absurd hpath (hnot _)
  rw [hproperty, propertyCriterion_eq_ok, hs]
  constructor
  · rintro ⟨own, fields, v, hown, hfields, -, hv, hcheck, rfl, rfl⟩
    cases o.properties?_eq.symm.trans hown
    cases o.keyAndValue?_eq.symm.trans hfields
    cases (Value.ofLiteral_text l).symm.trans hv
    rw [o.propertyPath_eq]
    exact ⟨(Comparator.check_eq_ok hcmp).1 hcheck, rfl, rfl⟩
  · rintro ⟨hask, rfl, rfl⟩
    refine ⟨_, _, _, o.properties?_eq, o.keyAndValue?_eq, hspan, Value.ofLiteral_text l,
      (Comparator.check_eq_ok hcmp).2 hask, ?_, ?_⟩
    · rw [o.propertyPath_eq]
      rfl
    · rw [o.propertyPath_eq]

end Draft

/-! ## Criteria -/

/-- Whether a criterion reads one row of the properties, and its condition says `P` of this row. -/
structure Criterion.SaysOfRow (c : Criterion) (o : PropertyOwner) (n : Nat)
    (P : Database → Record → Prop) : Prop where
  path : c.path = o.path
  place : c.leftTable = o.occurrence n
  compared : comparedTable? c = some o.properties.table
  joined : ¬ (c.kind.namesKey = true ∧ c.comparator.isNegative = true)
  render : ∃ k, c.render (o.occurrence n) none = .ok k ∧ ∀ db rows,
    k.holds db rows .missing = true ↔ P db (rows (o.occurrence n))

section Criteria

variable {o : PropertyOwner} {n : Nat} {key : String} {cmp : Comparator} {v : Value} {c : Criterion}

/-- A criterion that asks for a property says of a row that it is this property. Asked for the value
`*`, it says nothing of the value. -/
theorem saysOfRow_asked (hkey : key ≠ "*") (hcmp : cmp.CanAsk v) (n : Nat) :
    (Criterion.ofProperty o.path (o.keyField, o.valueField) key (o.occurrence n) cmp v).SaysOfRow
      o n fun db row => row "prop_key" = .text key ∧
        (v = .text "*" ∨ (row "prop_value").Satisfies db none cmp v) := by
  rw [Criterion.ofProperty, if_neg hkey]
  split
  -- Asked for any value, only the key is compared, by a criterion on its column.
  · rename_i hany
    have hcolumn : ∀ db rows, (Condition.compare (.column ⟨some (o.occurrence n), "prop_key"⟩) .eq
        (.param (.text key))).holds db rows .missing = true ↔
        rows (o.occurrence n) "prop_key" = .text key ∧ (v = .text "*" ∨
          (rows (o.occurrence n) "prop_value").Satisfies db none cmp v) := fun db rows =>
      (holds_key _).trans ⟨fun h => ⟨h, .inl hany.1⟩, And.left⟩
    cases o
    · exact ⟨rfl, rfl, rfl, by rintro ⟨⟨⟩, -⟩, _, rfl, hcolumn⟩
    · exact ⟨rfl, rfl, rfl, by rintro ⟨⟨⟩, -⟩, _, rfl, hcolumn⟩
    · exact ⟨rfl, rfl, rfl, by rintro ⟨⟨⟩, -⟩, _, rfl, hcolumn⟩
  · rename_i hnot
    have hne : v ≠ .text "*" := fun hany => hnot ⟨hany, hcmp.1⟩
    obtain ⟨k, hk, hholds⟩ := Criterion.renderProperty_asked
      (c := .property o.path key (o.occurrence n) cmp v) key hcmp (o.occurrence n) (o.occurrence n)
    refine ⟨rfl, rfl, rfl, ?_, k, hk, fun db rows => (hholds db rows .missing).trans ?_⟩
    · rintro ⟨-, hneg⟩
      exact Bool.false_ne_true (hcmp.1.isNegative_eq.symm.trans hneg)
    · exact and_congr_right fun _ => ⟨.inr, fun h => h.resolve_left hne⟩

theorem ofProperty_denied (hkey : key ≠ "*") (hcmp : cmp.Denies) (path : List Domain)
    (fields : Field × Field) (place : Occurrence) (v : Value) :
    Criterion.ofProperty path fields key place cmp v = .property path key place cmp v := by
  have hnot : ¬ (v = .text "*" ∧ (cmp = .equals ∨ cmp = .matching)) := by
    rcases hcmp with rfl | rfl
    · rintro ⟨-, h | h⟩ <;> cases h
    · rintro ⟨-, h | h⟩ <;> cases h
  rw [Criterion.ofProperty, if_neg hkey, if_neg hnot]

/-- A criterion that denies a property compares the owner with all rows that are this property. -/
theorem render_denied (hcmp : cmp.Denies) (hask : cmp.positive.CanAsk v) :
    ∃ k, (Criterion.property o.path key (o.occurrence n) cmp v).render (o.occurrence n)
        (some (.plain o.domain.table)) = .ok k ∧
      ∀ db rows, k.holds db rows .missing = true ↔ ∀ row ∈ db.rows o.properties.table,
        row.HasProperty db key cmp.positive v → rows (.plain o.domain.table) o.column ≠ .null ∧
          row o.column ≠ .null ∧ rows (.plain o.domain.table) o.column ≠ row o.column := by
  have hcolumns : ownerColumns (Occurrence.plain o.domain.table).table
      (o.occurrence n).table = .ok (o.column, o.column) := o.ownerColumns_eq
  obtain ⟨k, hk, hholds⟩ := Criterion.renderProperty_denied
    (c := .property o.path key (o.occurrence n) cmp v) key hcmp.isNegative_eq hask hcolumns
  refine ⟨k, hk, fun db rows => (hholds db rows .missing).trans ?_⟩
  exact forall₂_congr fun row _ => ⟨fun h hprop => h hprop.1 hprop.2, fun h hk hv => h ⟨hk, hv⟩⟩

end Criteria

/-! ## Joins -/

namespace Sql.JoinPlan

variable {o : PropertyOwner} {n : Nat} {c : Criterion} {p : JoinPlan}

/-- A criterion that reads one row joins the properties to the owners. -/
theorem forCriterion_of_join (hpath : c.path = o.path) (hplace : c.leftTable = o.occurrence n)
    (hcompared : comparedTable? c = some o.properties.table)
    (hjoined : ¬ (c.kind.namesKey = true ∧ c.comparator.isNegative = true)) (hn : n ≠ 0)
    {p' : JoinPlan} (hjoin : p.join p.main (o.occurrence n) = .ok p') :
    p.forCriterion c = .ok (⟨o.occurrence n, none⟩, p') := by
  have hid : ¬ c.leftTable.id = 0 := by
    rw [hplace]
    exact hn
  have hown : p.own c.leftTable.id [o.domain.table, o.properties.table] =
      .ok (o.occurrence n, p') := by
    rw [hplace]
    show (p.join p.main (o.occurrence n) >>= _) = _
    rw [hjoin]
    rfl
  rw [forCriterion, hcompared]
  dsimp only
  rw [hpath, o.tableChain_eq, if_neg (by simp), alongChain, if_neg hid, if_neg hjoined, hown]
  rfl

theorem forCriterion_joined {P : Database → Record → Prop} (hc : c.SaysOfRow o n P) (hn : n ≠ 0)
    (hp : p.main = .plain o.domain.table) (hnew : o.occurrence n ∉ p.occurrences) :
    p.forCriterion c =
      .ok (⟨o.occurrence n, none⟩, { p with joins := p.joins ++ [o.join n] }) := by
  refine forCriterion_of_join hc.path hc.place hc.compared hc.joined hn ?_
  rw [join, if_neg hnew, hp]
  show (o.domain.table.link o.properties.table).map _ = _
  rw [o.link_eq]
  rfl

/-- A criterion that denies a property needs no join. -/
theorem forCriterion_denied {key : String} {cmp : Comparator} {v : Value}
    (hneg : cmp.isNegative = true) (hn : n ≠ 0) :
    p.forCriterion (.property o.path key (o.occurrence n) cmp v) =
      .ok (⟨o.occurrence n, some p.main⟩, p) := by
  have hplan : p.forCriterion (.property o.path key (o.occurrence n) cmp v) =
      p.alongChain (.property o.path key (o.occurrence n) cmp v)
        [o.domain.table, o.properties.table] := by
    cases o <;> rfl
  have hdenies : (Criterion.property o.path key (o.occurrence n) cmp v).kind.namesKey = true ∧
      (Criterion.property o.path key (o.occurrence n) cmp v).comparator.isNegative = true :=
    ⟨rfl, hneg⟩
  have hid : ¬ (Criterion.property o.path key (o.occurrence n) cmp v).leftTable.id = 0 := hn
  rw [hplan, alongChain, if_neg hid, if_pos hdenies]
  rfl

end Sql.JoinPlan

/-! ## Statements with one criterion -/

section Statement

variable {o : PropertyOwner} {n : Nat} {c : Criterion} {q : Query} {s : Selection} {db : Database}
  {owner : Record}

/-- A statement with one criterion has its joins and its condition. -/
theorem Sql.Selection.ofQuery_single (he : q.elements = [.criterion c])
    (hs : Selection.ofQuery q = .ok s) :
    ∃ p : JoinPlan, p.main = .plain q.domain.table ∧ p.Follows [] ∧ ∃ r k,
      p.forCriterion c = .ok (r, s.joins) ∧ c.render r.occurrence r.owner = .ok k ∧
      s.condition = [.condition k] := by
  obtain ⟨p, hitems, hpieces⟩ := Selection.ofQuery_eq_ok hs
  obtain ⟨hmain, hp⟩ := Selection.follows_addItems (JoinPlan.follows_start _) hitems
  refine ⟨p, hmain, hp, ?_⟩
  rw [he, piecesOf] at hpieces
  obtain ⟨⟨piece, p'⟩, hpiece, hrest⟩ := bind_eq_ok.1 hpieces
  rw [pieceOf] at hpiece
  obtain ⟨⟨r, p''⟩, hplan, hrender⟩ := bind_eq_ok.1 hpiece
  dsimp only at hrender
  split at hrender
  · rename_i k hk
    cases hrender
    obtain ⟨hcondition, hjoins⟩ := Prod.mk.inj (Except.ok.inj hrest)
    exact ⟨r, k, hjoins ▸ hplan, hk, hcondition.symm⟩
  · cases hrender

theorem Sql.Selection.piecesOf_single {p p' : JoinPlan} {r : Reading} {k : Condition}
    (hplan : p.forCriterion c = .ok (r, p')) (hrender : c.render r.occurrence r.owner = .ok k) :
    piecesOf p [.criterion c] = .ok ([.condition k], p') := by
  rw [piecesOf, pieceOf, hplan, ok_bind]
  dsimp only
  rw [hrender]
  rfl

/-- The rows that the join of the properties puts beside an owner. -/
theorem exists_options_join {rows : Combination} {P : Record → Prop} (hmissing : ¬ P .missing)
    (hid : rows (.plain o.domain.table) o.column ≠ .null) :
    (∃ row ∈ (o.join n).options db rows, P row) ↔
      ∃ row ∈ db.ownedBy o (rows (.plain o.domain.table)), P row := by
  have hoptions : (o.join n).options db rows =
      if db.ownedBy o (rows (.plain o.domain.table)) = [] then [.missing]
      else db.ownedBy o (rows (.plain o.domain.table)) := Join.options_eq hid
  rw [hoptions]
  exact Join.exists_mem_or_missing hmissing

/-- A statement whose criterion says something of one row returns the owners of such a row. -/
theorem returns_joined (hd : q.domain = o.domain) (he : q.elements = [.criterion c])
    (hs : Selection.ofQuery q = .ok s) {P : Database → Record → Prop} (hc : c.SaysOfRow o n P)
    (hn : firstDynamicId ≤ n) (hmissing : ¬ P db .missing) (hid : owner o.column ≠ .null) :
    s.returns db owner = true ↔ ∃ row ∈ db.ownedBy o owner, P db row := by
  obtain ⟨p, hmain, hp, r, k, hplan, hrender, hcondition⟩ := Selection.ofQuery_single he hs
  rw [hd] at hmain
  -- Nothing has a dynamic number yet, so the criterion joins the properties, behind the joins of
  -- the result fields.
  have hnew : o.occurrence n ∉ p.occurrences := by
    rw [← hp.firstHop?_isSome hn]
    exact Bool.false_ne_true
  rw [JoinPlan.forCriterion_joined hc (Nat.ne_of_gt (Nat.lt_of_lt_of_le (by decide) hn)) hmain hnew]
    at hplan
  obtain ⟨rfl, hjoins⟩ := Prod.mk.inj (Except.ok.inj hplan)
  obtain ⟨k', hk', hholds⟩ := hc.render
  cases hk'.symm.trans hrender
  have hstart : s.joins.alone owner (.plain o.domain.table) = owner := by
    rw [← hmain, ← hjoins]
    exact JoinPlan.alone_main _ owner
  have hleft : ∀ j ∈ p.joins, j.occurrence ≠ (o.join n).onto := fun j hj => by
    rw [show (o.join n).onto = p.main from hmain.symm]
    exact hp.notMain j hj
  rw [Selection.returns_iff, hcondition]
  simp only [Piece.satisfied_condition, hholds]
  rw [show s.joins.joins = p.joins ++ [o.join n] by rw [← hjoins]]
  refine (exists_mem_combinations_concat db (s.joins.alone owner) hleft (P db)).trans ?_
  rw [exists_options_join hmissing (hstart.symm ▸ hid), hstart]

/-- A statement whose criterion denies a property returns the owners that do not have it. -/
theorem returns_denied {key : String} {cmp : Comparator} {v : Value} (hd : q.domain = o.domain)
    (he : q.elements = [.criterion (.property o.path key (o.occurrence n) cmp v)])
    (hs : Selection.ofQuery q = .ok s) (hcmp : cmp.Denies) (hask : cmp.positive.CanAsk v)
    (hn : firstDynamicId ≤ n) (hid : owner o.column ≠ .null)
    (hids : ∀ row ∈ db.rows o.properties.table, row o.column ≠ .null) :
    s.returns db owner = true ↔
      ¬ ∃ row ∈ db.ownedBy o owner, row.HasProperty db key cmp.positive v := by
  obtain ⟨p, hmain, hp, r, k, hplan, hrender, hcondition⟩ := Selection.ofQuery_single he hs
  rw [hd] at hmain
  rw [JoinPlan.forCriterion_denied hcmp.isNegative_eq
    (Nat.ne_of_gt (Nat.lt_of_lt_of_le (by decide) hn)), hmain] at hplan
  obtain ⟨rfl, rfl⟩ := Prod.mk.inj (Except.ok.inj hplan)
  obtain ⟨k', hk', hholds⟩ := render_denied (o := o) (n := n) hcmp hask
  cases hk'.symm.trans hrender
  have howner : ∀ rows ∈ combinations db s.joins.joins (s.joins.alone owner),
      rows (.plain o.domain.table) = owner := fun rows hrows => by
    rw [← hmain, apply_of_mem_combinations hp.notMain hrows]
    exact JoinPlan.alone_main _ owner
  -- The sub-select looks at all rows of the owner, whatever stands beside it, so the condition is
  -- the same on every combination.
  have hcond : ∀ rows ∈ combinations db s.joins.joins (s.joins.alone owner),
      (k.holds db rows .missing = true ↔
        ¬ ∃ row ∈ db.ownedBy o owner, row.HasProperty db key cmp.positive v) := by
    intro rows hrows
    rw [hholds, howner rows hrows]
    constructor
    · rintro hall ⟨row, hrow, hprop⟩
      obtain ⟨hmem, hsame⟩ := Database.mem_ownedBy.1 hrow
      exact (hall row hmem hprop).2.2 hsame.symm
    · intro hnone row hrow hprop
      refine ⟨hid, hids row hrow, fun hsame => hnone ⟨row, ?_, hprop⟩⟩
      exact Database.mem_ownedBy.2 ⟨hrow, hsame.symm⟩
  rw [Selection.returns_iff, hcondition]
  simp only [Piece.satisfied_condition]
  constructor
  · rintro ⟨rows, hrows, hk⟩
    exact (hcond rows hrows).1 hk
  · intro hnone
    obtain ⟨rows, hrows⟩ := List.exists_mem_of_ne_nil _
      (combinations_ne_nil db s.joins.joins (s.joins.alone owner))
    exact ⟨rows, hrows, (hcond rows hrows).2 hnone⟩

end Statement

/-! ## Asking and denying -/

/-- The filters of a query whose only test names a property. -/
theorem Clause.buildAll_named {now : Int} {o : PropertyOwner} {key : String} {cmp : Comparator}
    {l : Literal} (hcmp : cmp.Asks ∨ cmp.Denies) (hask : cmp.positive.CanAsk l.asText) :
    buildAll now (.start o.domain) [.test (.named key cmp l)] =
      .ok ([.criterion (.ofProperty o.path (o.keyField, o.valueField) key
        (o.occurrence firstDynamicId) cmp l.asText)], firstDynamicId + 1) := by
  have hcriterion : (Draft.start o.domain).criterionOf now (.named key cmp l) = .ok _ :=
    (Draft.criterionOf_named rfl hcmp).2 ⟨hask, rfl, rfl⟩
  refine buildAll_cons_eq_ok.2 ⟨_, _, _, ?_, rfl, rfl⟩
  rw [build, hcriterion]
  rfl

/-- The condition of a query whose only test names a property is one criterion. -/
theorem elements_of_named {now : Int} {o : PropertyOwner} {key : String} {cmp : Comparator}
    {l : Literal} (hcmp : cmp.Asks ∨ cmp.Denies) {f : FluentQuery} {q : Query}
    (hd : f.domain = o.domain) (hf : f.filters = [.test (.named key cmp l)])
    (hq : Query.ofFluent now f = .ok q) :
    cmp.positive.CanAsk l.asText ∧ q.domain = o.domain ∧
      q.elements = [.criterion (.ofProperty o.path (o.keyField, o.valueField) key
        (o.occurrence firstDynamicId) cmp l.asText)] := by
  have hask : cmp.positive.CanAsk l.asText := by
    obtain ⟨s, s', c, hagrees, -, hwrite, -⟩ := Query.exists_draft_of_ofFluent hq
    rw [hf, Clause.writeAll] at hwrite
    obtain ⟨s₁, htest, -⟩ := bind_eq_ok.1 hwrite
    rw [Clause.write, Draft.addTest] at htest
    obtain ⟨⟨c, s₂⟩, hc, -⟩ := bind_eq_ok.1 htest
    exact ((Draft.criterionOf_named (hagrees.domain.trans hd) hcmp).1 hc).1
  have hbuild : Clause.buildAll now (.start o.domain) [.test (.named key cmp l)] = .ok _ :=
    Clause.buildAll_named hcmp hask
  rw [← hd, ← hf] at hbuild
  obtain ⟨hdomain, helements⟩ := Query.flat_of_ofFluent hbuild hq
  exact ⟨hask, hdomain.trans hd, helements⟩

/-- A query for owners with nothing but filters becomes a statement, if their conditions can be
written. -/
theorem exists_selection_of_filters {now : Int} {o : PropertyOwner} {ms : List Clause}
    {fs : List Filter} {n : Nat} (hbuild : Clause.buildAll now (.start o.domain) ms = .ok (fs, n))
    {pieces : List Piece} {p : JoinPlan} (hpieces : Selection.piecesOf (.start o.domain.table)
      (Filter.flatOfAll .and fs) = .ok (pieces, p)) :
    ∃ q s, Selection.ofQuery q = .ok s ∧
      Query.ofFluent now { domain := o.domain, filters := ms } = .ok q := by
  have hown : ∀ f ∈ o.domain.defaults, f.column.table = o.domain.table := by
    cases o <;> decide
  have hdefaults : o.domain.defaults ≠ [] := by
    cases o <;> decide
  obtain ⟨items, hitems, hlength⟩ := Selection.addItems_main (.start o.domain.table) [] _ hown
  have hne : items ≠ [] := by
    rintro rfl
    rw [List.length_nil, Nat.zero_add, eq_comm, List.length_eq_zero_iff] at hlength
    exact hdefaults hlength
  exact ⟨_, _, Selection.ofQuery_of_unsorted rfl hitems hne hpieces,
    Query.ofFluent_of_filters hbuild⟩

/-- Such a query with nothing else set becomes a statement. -/
theorem exists_selection_named (now : Int) {o : PropertyOwner} {key : String} (hkey : key ≠ "*")
    {cmp : Comparator} {l : Literal} (hcmp : cmp.Asks ∨ cmp.Denies)
    (hask : cmp.positive.CanAsk l.asText) :
    ∃ q s, Selection.ofQuery q = .ok s ∧
      Query.ofFluent now { domain := o.domain, filters := [.test (.named key cmp l)] } = .ok q := by
  have hbuild : Clause.buildAll now (.start o.domain) [.test (.named key cmp l)] = .ok _ :=
    Clause.buildAll_named hcmp hask
  rcases hcmp with hasks | hdenies
  · rw [hasks.positive_eq] at hask
    have hsays := saysOfRow_asked (o := o) hkey hask firstDynamicId
    obtain ⟨k, hk, -⟩ := hsays.render
    have hnew : o.occurrence firstDynamicId ∉ (JoinPlan.start o.domain.table).occurrences := by
      cases o <;> decide
    exact exists_selection_of_filters hbuild (Selection.piecesOf_single
      (JoinPlan.forCriterion_joined hsays (by decide) rfl hnew) hk)
  · obtain ⟨k, hk, -⟩ := render_denied (o := o) (n := firstDynamicId) hdenies hask
    rw [ofProperty_denied hkey hdenies] at hbuild
    exact exists_selection_of_filters hbuild (Selection.piecesOf_single
      (JoinPlan.forCriterion_denied hdenies.isNegative_eq (by decide)) hk)

/-- A query that asks for a property returns the owners of a row with its key and a value that
satisfies the comparison; any value satisfies one with `*`. -/
theorem returns_of_asked {now : Int} {o : PropertyOwner} {key : String} (hkey : key ≠ "*")
    {cmp : Comparator} {l : Literal} (hcmp : cmp.Asks) {f : FluentQuery} {q : Query} {s : Selection}
    (hd : f.domain = o.domain) (hf : f.filters = [.test (.named key cmp l)])
    (hq : Query.ofFluent now f = .ok q) (hs : Selection.ofQuery q = .ok s) {db : Database}
    {owner : Record} (hid : owner o.column ≠ .null) :
    s.returns db owner = true ↔ ∃ row ∈ db.ownedBy o owner, row "prop_key" = .text key ∧
      (l.asText = .text "*" ∨ (row "prop_value").Satisfies db none cmp l.asText) := by
  obtain ⟨hask, hdomain, helements⟩ := elements_of_named (.inl hcmp) hd hf hq
  rw [hcmp.positive_eq] at hask
  have hmissing : ¬ (Record.missing "prop_key" = .text key ∧ (l.asText = .text "*" ∨
      (Record.missing "prop_value").Satisfies db none cmp l.asText)) := by
    rintro ⟨hnull, -⟩
    cases hnull
  exact returns_joined hdomain helements hs (saysOfRow_asked hkey hask firstDynamicId)
    (Nat.le_refl _) hmissing hid

/-- A query that denies a property returns the owners of no row with its key and a value that
satisfies the comparison. -/
theorem returns_of_denied {now : Int} {o : PropertyOwner} {key : String} (hkey : key ≠ "*")
    {cmp : Comparator} {l : Literal} (hcmp : cmp.Denies) {f : FluentQuery} {q : Query}
    {s : Selection} (hd : f.domain = o.domain) (hf : f.filters = [.test (.named key cmp l)])
    (hq : Query.ofFluent now f = .ok q) (hs : Selection.ofQuery q = .ok s) {db : Database}
    {owner : Record} (hid : owner o.column ≠ .null)
    (hids : ∀ row ∈ db.rows o.properties.table, row o.column ≠ .null) :
    s.returns db owner = true ↔
      ¬ ∃ row ∈ db.ownedBy o owner, row.HasProperty db key cmp.positive l.asText := by
  obtain ⟨hask, hdomain, helements⟩ := elements_of_named (.inr hcmp) hd hf hq
  rw [ofProperty_denied hkey hcmp] at helements
  exact returns_denied hdomain helements hs hcmp hask (Nat.le_refl _) hid hids

/-- A comparator is accepted if the one that asks can. -/
theorem Draft.exists_criterionOf_named {now : Int} {o : PropertyOwner} {key : String}
    {cmp : Comparator} {l : Literal} {s : Draft} (hs : s.query.domain = o.domain)
    (hcmp : cmp.Asks ∨ cmp.Denies) :
    (∃ r, s.criterionOf now (.named key cmp l) = .ok r) ↔ cmp.positive.CanAsk l.asText := by
  constructor
  · rintro ⟨⟨c, s'⟩, h⟩
    exact ((criterionOf_named hs hcmp).1 h).1
  · intro hask
    exact ⟨_, (criterionOf_named hs hcmp).2 ⟨hask, rfl, rfl⟩⟩

/-- Comparators that deny a property are accepted as those that ask for it. A statement that asks
for a property returns the owners of a row with its key and a value that satisfies the comparison;
the value `*` is satisfied by any. A statement that denies a property returns the owners of no such
row, and the value `*` is this text. So the denial is true exactly where asking is not, but for the
value `*`. Neither rows without values nor owners without rows make a difference. -/
theorem deniedProperty_exact (o : PropertyOwner) {key : String} (hkey : key ≠ "*") (l : Literal)
    {cmp : Comparator} (hcmp : cmp.Denies) (now : Int) :
    (∀ s : Draft, s.query.domain = o.domain →
      ((∃ r, s.criterionOf now (.named key cmp l) = .ok r) ↔
        ∃ r, s.criterionOf now (.named key cmp.positive l) = .ok r)) ∧
    (∀ s : Draft, s.query.domain = o.domain →
      (∃ r, s.criterionOf now (.named key cmp l) = .ok r) →
        ∀ c, c = cmp ∨ c = cmp.positive → ∃ q t, Selection.ofQuery q = .ok t ∧
          Query.ofFluent now { domain := o.domain, filters := [.test (.named key c l)] } = .ok q) ∧
    ∀ (f f' : FluentQuery) (q q' : Query) (s s' : Selection),
      f.domain = o.domain → f.filters = [.test (.named key cmp l)] →
      f'.domain = o.domain → f'.filters = [.test (.named key cmp.positive l)] →
      Query.ofFluent now f = .ok q → Selection.ofQuery q = .ok s →
      Query.ofFluent now f' = .ok q' → Selection.ofQuery q' = .ok s' →
      ∀ (db : Database) (owner : Record), owner o.column ≠ .null →
        (∀ row ∈ db.rows o.properties.table, row o.column ≠ .null) →
        (s.returns db owner = true ↔
          ¬ ∃ row ∈ db.ownedBy o owner, row.HasProperty db key cmp.positive l.asText) ∧
        (s'.returns db owner = true ↔ ∃ row ∈ db.ownedBy o owner, row "prop_key" = .text key ∧
          (l.asText = .text "*" ∨ (row "prop_value").Satisfies db none cmp.positive l.asText)) ∧
        (l.asText ≠ .text "*" → (s.returns db owner = true ↔ ¬ s'.returns db owner = true)) := by
  have hasks : cmp.positive.Asks := hcmp.asks_positive
  refine ⟨fun s hs => ?_, fun s hs hr c hc => ?_,
    fun f f' q q' s s' hd hf hd' hf' hq hs hq' hs' db owner hid hids => ?_⟩
  · rw [Draft.exists_criterionOf_named hs (.inr hcmp),
      Draft.exists_criterionOf_named hs (.inl hasks), hasks.positive_eq]
  · have hask := (Draft.exists_criterionOf_named hs (.inr hcmp)).1 hr
    have hpositive : c.positive = cmp.positive := by
      rcases hc with rfl | rfl
      · rfl
      · exact hasks.positive_eq
    have hcases : c.Asks ∨ c.Denies := by
      rcases hc with rfl | rfl
      · exact .inr hcmp
      · exact .inl hasks
    exact exists_selection_named now hkey hcases (hpositive ▸ hask)
  · have hdenied := returns_of_denied hkey hcmp hd hf hq hs hid hids
    have hasked : s'.returns db owner = true ↔ _ := returns_of_asked hkey hasks hd' hf' hq' hs' hid
    -- Only for the value that is satisfied by any do the two differ.
    refine ⟨hdenied, hasked, fun hany => ?_⟩
    rw [hdenied, hasked]
    refine not_congr (exists_congr fun row => and_congr_right fun _ => and_congr_right fun _ => ?_)
    exact ⟨.inr, fun h => h.resolve_left hany⟩

/-- All licenses are of the item. -/
theorem Sql.Database.mem_ownedBy_licensed {values : List String} {row : Record} :
    row ∈ (licensed values).ownedBy .items (.ofItem 1) ↔
      ∃ value ∈ values, .ofProperty 1 "license" (.text value) = row := by
  rw [mem_ownedBy, ← List.mem_map]
  constructor
  · rintro ⟨hrow, -⟩
    exact hrow
  · intro hrow
    refine ⟨hrow, ?_⟩
    obtain ⟨value, -, rfl⟩ := List.mem_map.1 hrow
    rfl

/-- Whether the item has a license. -/
theorem Sql.Database.hasProperty_licensed {values : List String} {license : String} :
    (∃ row ∈ (licensed values).ownedBy .items (.ofItem 1),
        row.HasProperty (licensed values) "license" .equals (.text license)) ↔
      license ∈ values := by
  constructor
  · rintro ⟨row, hrow, -, hvalue⟩
    obtain ⟨value, hmem, rfl⟩ := Database.mem_ownedBy_licensed.1 hrow
    rw [← Cell.text.inj hvalue]
    exact hmem
  · intro hmem
    exact ⟨_, Database.mem_ownedBy_licensed.2 ⟨license, hmem, rfl⟩, rfl, rfl⟩

/-- The item without the license that is denied. -/
theorem deniedProperty_exact_license : "license" ≠ "*" ∧ Comparator.notEquals.Denies ∧
    ∃ q s q' s', Query.ofFluent 0 { domain := .items, filters := [.test
        (.named "license" .notEquals (.text "MIT"))] } = .ok q ∧ Selection.ofQuery q = .ok s ∧
      Query.ofFluent 0 { domain := .items, filters := [.test
        (.named "license" .equals (.text "MIT"))] } = .ok q' ∧ Selection.ofQuery q' = .ok s' ∧
      s.returns (.licensed ["BSD"]) (.ofItem 1) = true ∧
      ¬ s'.returns (.licensed ["BSD"]) (.ofItem 1) = true := by
  have hkey : "license" ≠ "*" := by
    decide
  have hdenies : Comparator.notEquals.Denies := .inl rfl
  obtain ⟨-, hselects, hreturns⟩ :=
    deniedProperty_exact .items hkey (.text "MIT") hdenies 0
  have haccepted : ∃ r, (Draft.start .items).criterionOf 0
      (.named "license" .notEquals (.text "MIT")) = .ok r :=
    (Draft.exists_criterionOf_named (o := .items) rfl (.inr hdenies)).2 ⟨.inl rfl, .inl ⟨_, rfl⟩⟩
  obtain ⟨q, s, hs, hq⟩ := hselects _ rfl haccepted .notEquals (.inl rfl)
  obtain ⟨q', s', hs', hq'⟩ := hselects _ rfl haccepted .equals (.inr rfl)
  obtain ⟨hdenied, -, hcomplement⟩ := hreturns _ _ q q' s s' rfl rfl rfl rfl hq hs hq' hs'
    (.licensed ["BSD"]) (.ofItem 1) Cell.noConfusion Database.node_id_licensed
  have hreturned : s.returns (.licensed ["BSD"]) (.ofItem 1) = true :=
    hdenied.2 fun hprop => absurd (Database.hasProperty_licensed.1 hprop) (by decide)
  exact ⟨hkey, hdenies, q, s, q', s', hq, hs, hq', hs', hreturned,
    (hcomplement (by decide)).1 hreturned⟩

/-- An item with a license is returned when any license is asked for, and when this is denied. -/
theorem not_deniedProperty_anyLicense : ∃ q s q' s',
    Query.ofFluent 0 { domain := .items, filters := [.test
        (.named "license" .notEquals (.text "*"))] } = .ok q ∧ Selection.ofQuery q = .ok s ∧
      Query.ofFluent 0 { domain := .items, filters := [.test
        (.named "license" .equals (.text "*"))] } = .ok q' ∧ Selection.ofQuery q' = .ok s' ∧
      s.returns (.licensed ["MIT"]) (.ofItem 1) = true ∧
      s'.returns (.licensed ["MIT"]) (.ofItem 1) = true := by
  have hkey : "license" ≠ "*" := by
    decide
  have hdenies : Comparator.notEquals.Denies := .inl rfl
  have hasks : Comparator.equals.Asks := .inl rfl
  have hask : Comparator.equals.CanAsk (.text "*") := ⟨hasks, .inl ⟨_, rfl⟩⟩
  obtain ⟨q, s, hs, hq⟩ := exists_selection_named (o := .items) (l := .text "*") 0 hkey
    (.inr hdenies) hask
  obtain ⟨q', s', hs', hq'⟩ := exists_selection_named (o := .items) (l := .text "*") 0 hkey
    (.inl hasks) hask
  refine ⟨q, s, q', s', hq, hs, hq', hs', ?_, ?_⟩
  · refine (returns_of_denied (o := .items) hkey hdenies rfl rfl hq hs Cell.noConfusion
      Database.node_id_licensed).2 fun hprop => ?_
    exact absurd (Database.hasProperty_licensed.1 hprop) (by decide)
  · refine (returns_of_asked (o := .items) hkey hasks rfl rfl hq' hs' Cell.noConfusion).2 ?_
    exact ⟨_, Database.mem_ownedBy_licensed.2 ⟨"MIT", by decide, rfl⟩, rfl, .inl rfl⟩

end ArtifactQuery
