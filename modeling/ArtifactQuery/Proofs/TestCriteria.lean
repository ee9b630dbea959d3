import ArtifactQuery.Proofs.Outcome
import ArtifactQuery.Resolution
import Mathlib.Data.List.Basic

/-!
# Criteria of tests

What `Draft.criterionOf` does, said once.

* `fieldCriterion_eq_ok`, `propertyCriterion_eq_ok`: when a test becomes a criterion, and which.
* `criterionOf_congr`: whether it does depends on the domain alone.
* `criterionOf_mainDomain`: its path starts at the domain.
* `supplies_of_criterionOf`: where the number of its occurrence comes from.
* `criterionOf_frame`: of the draft at most the next number changes.
* `criterionOf_of_agrees`: the criterion and the next number depend on the domain, the open clauses
  and the number before.
-/

namespace ArtifactQuery

/-! ## Paths -/

namespace FieldPath

theorem head?_of_walk {d : Domain} {ss : List String} {path : List Domain}
    (h : walk d ss = some path) : path.head? = some d := by
  cases ss with
  | nil =>
    cases h
    rfl
  | cons s rest =>
    rw [walk] at h
    split at h <;> obtain ⟨p, -, rfl⟩ := Option.map_eq_some_iff.1 h <;> rfl

theorem resolve_eq_ok {d : Domain} {path : String} {f : ResultField}
    (h : resolve d path = .ok f) :
    walk d (segments '.' path).dropLast = some f.path ∧
      ∃ n, (segments '.' path).getLast? = some n ∧
        Field.named? (owner d f.path) n = some f.field := by
  rw [resolve] at h
  cases hr : resolve? d (segments '.' path) with
  | none => rw [hr] at h; cases h
  | some g =>
    rw [hr] at h
    cases h
    rw [resolve?] at hr
    obtain ⟨p, hwalk, hr⟩ := Option.bind_eq_some_iff.1 hr
    obtain ⟨n, hlast, hr⟩ := Option.bind_eq_some_iff.1 hr
    obtain ⟨g, hfield, hr⟩ := Option.bind_eq_some_iff.1 hr
    cases hr
    exact ⟨hwalk, n, hlast, hfield⟩

theorem head?_of_resolve {d : Domain} {path : String} {f : ResultField}
    (h : resolve d path = .ok f) : f.path.head? = some d :=
  head?_of_walk (resolve_eq_ok h).1

end FieldPath

/-! ## Numbers -/

namespace Draft

variable {s s' : Draft}

/-- The draft with another next number. -/
def renumbered (s : Draft) (n : Nat) : Draft := { s with nextId := n }

/-- Whether a draft supplies criteria in a table with a number, and what is the draft behind it: on
properties the number of the clause on one property that is open, otherwise a new one. -/
inductive Supplies (s : Draft) (t : Table) : Nat → Draft → Prop
  | shared (n : Nat) (ht : t.holdsProperties = true) (hn : s.sharedId? = some n) :
      Supplies s t n s
  | new (ht : t.holdsProperties = true → s.sharedId? = none) :
      Supplies s t s.nextId (s.renumbered (s.nextId + 1))

theorem supplies_propertyId (s : Draft) {t : Table} (ht : t.holdsProperties = true) :
    s.Supplies t s.propertyId.1 s.propertyId.2 := by
  rw [propertyId]
  split
  · rename_i n hn
    exact .shared n ht hn
  · rename_i hn
    exact .new fun _ => hn

theorem Supplies.frame {t : Table} {n : Nat} (h : s.Supplies t n s') :
    ∃ k, s' = s.renumbered k := by
  cases h with
  | shared => exact ⟨s.nextId, rfl⟩
  | new => exact ⟨s.nextId + 1, rfl⟩

theorem propertyPath_head? (s : Draft) (d own : Domain) :
    (s.propertyPath d own).1.head? = some d := by
  rw [propertyPath]
  split <;> rfl

end Draft

/-! ## Tests of fields -/

namespace Draft

variable {now : Int} {s s' : Draft} {t : Test} {c : Criterion}

/-- A test of a field becomes the criterion of the field that its path leads to. -/
theorem fieldCriterion_eq_ok :
    s.fieldCriterion now t = .ok (c, s') ↔ ∃ f cmp v,
      FieldPath.resolve s.query.domain t.path = .ok f ∧
      t.comparator.resolve now t.path f.field.column.type t.value = .ok (cmp, v) ∧
      cmp.check t.path f.field.column.type v = .ok () ∧
      c = .simple f.path f.field ⟨f.field.column.table, (s.idFor f.path f.field.column.table).1⟩
        cmp v ∧
      s' = (s.idFor f.path f.field.column.table).2 := by
  rw [fieldCriterion]
  constructor
  · intro h
    obtain ⟨f, hf, h⟩ := bind_eq_ok.1 h
    obtain ⟨⟨cmp, v⟩, hv, h⟩ := bind_eq_ok.1 h
    obtain ⟨⟨⟩, hcheck, h⟩ := bind_eq_ok.1 h
    cases h
    exact ⟨f, cmp, v, hf, hv, hcheck, rfl, rfl⟩
  · rintro ⟨f, cmp, v, hf, hv, hcheck, rfl, rfl⟩
    rw [hf, ok_bind]
    dsimp only
    rw [hv, ok_bind]
    dsimp only
    rw [hcheck, ok_bind]
    rfl

end Draft

/-! ## Tests of properties -/

/-- The criterion on the property `key`, where the key `*` stands for any key and the value `*` for
any value. -/
def Criterion.ofProperty (path : List Domain) (fields : Field × Field) (key : String)
    (o : Occurrence) (cmp : Comparator) (v : Value) : Criterion :=
  if key = "*" then .simple path fields.2 o cmp v
  else if v = .text "*" ∧ (cmp = .equals ∨ cmp = .matching) then
    .simple path fields.1 o .equals (.text key)
  else .property path key o cmp v

@[simp] theorem Criterion.ofProperty_path (path : List Domain) (fields : Field × Field)
    (key : String) (o : Occurrence) (cmp : Comparator) (v : Value) :
    (Criterion.ofProperty path fields key o cmp v).path = path := by
  rw [ofProperty]
  split
  · rfl
  · split <;> rfl

@[simp] theorem Criterion.ofProperty_leftTable (path : List Domain) (fields : Field × Field)
    (key : String) (o : Occurrence) (cmp : Comparator) (v : Value) :
    (Criterion.ofProperty path fields key o cmp v).leftTable = o := by
  rw [ofProperty]
  split
  · rfl
  · split <;> rfl

namespace Draft

variable {now : Int} {s s' : Draft} {key : String} {cmp : Comparator} {l : Literal} {c : Criterion}

/-- The end of `propertyCriterion`, behind its checks. -/
theorem return_ofProperty (path : List Domain) (fields : Field × Field) (key : String)
    (o : Occurrence) (cmp : Comparator) (v : Value) (s : Draft) :
    (if key = "*" then (return (.simple path fields.2 o cmp v, s) :
        Except QueryError (Criterion × Draft))
      else if v = .text "*" ∧ (cmp = .equals ∨ cmp = .matching) then
        return (.simple path fields.1 o .equals (.text key), s)
      else return (.property path key o cmp v, s)) =
    .ok (.ofProperty path fields key o cmp v, s) := by
  rw [Criterion.ofProperty]
  split
  · rfl
  · split <;> rfl

/-- A test of a property becomes a criterion on the domain that holds the properties. -/
theorem propertyCriterion_eq_ok :
    s.propertyCriterion key cmp l = .ok (c, s') ↔ ∃ own fields v,
      s.query.domain.properties? = some own ∧ own.keyAndValue? = some fields ∧
      cmp.ofSpan? = none ∧ Value.ofLiteral .text l = .ok v ∧ cmp.check key .text v = .ok () ∧
      c = .ofProperty (s.propertyPath s.query.domain own).1 fields key
        ⟨own.table, (s.propertyPath s.query.domain own).2.1⟩ cmp v ∧
      s' = (s.propertyPath s.query.domain own).2.2 := by
  rw [propertyCriterion]
  -- Every check on the way has to succeed, and there is one way only to do so.
  constructor
  · intro h
    cases hown : s.query.domain.properties? with
    | none => simp [hown] at h
    | some own =>
      cases hfields : own.keyAndValue? with
      | none => simp [hown, hfields] at h
      | some fields =>
        simp only [hown, hfields] at h
        cases hspan : cmp.ofSpan? with
        | some absolute => simp [hspan] at h
        | none =>
          rw [hspan] at h
          obtain ⟨v, hv, h⟩ := bind_eq_ok.1 h
          obtain ⟨⟨⟩, hcheck, h⟩ := bind_eq_ok.1 h
          have h := (return_ofProperty _ fields key _ cmp v _).symm.trans h
          cases h
          exact ⟨own, fields, v, rfl, hfields, rfl, hv, hcheck, rfl, rfl⟩
  · rintro ⟨own, fields, v, hown, hfields, hspan, hv, hcheck, rfl, rfl⟩
    simp only [hown, hfields, hspan]
    show ((Value.ofLiteral .text l).bind _) = _
    rw [hv]
    show ((cmp.check key .text v).bind _) = _
    rw [hcheck]
    exact return_ofProperty _ fields key _ cmp v _

end Draft

/-! ## Tests -/

namespace Draft

variable {now : Int} {s s' : Draft} {t : Test} {c : Criterion}

/-- A test is of a property or of a field. -/
theorem criterionOf_cases (now : Int) (s : Draft) (t : Test) :
    (∃ key, t.path.toList = '@' :: key ∧
      s.criterionOf now t = s.propertyCriterion (String.ofList key) t.comparator t.value) ∨
    (t.path.toList.head? ≠ some '@' ∧ s.criterionOf now t = s.fieldCriterion now t) := by
  rw [criterionOf]
  split
  · rename_i key h
    exact .inl ⟨key, h, rfl⟩
  · rename_i h
    refine .inr ⟨fun hhead => ?_, rfl⟩
    obtain ⟨key, hkey⟩ := List.head?_eq_some_iff.1 hhead
    exact h key hkey

/-- Whether a test becomes a criterion depends on the domain alone. -/
theorem criterionOf_congr (hd : s'.query.domain = s.query.domain) {r : Criterion × Draft}
    (h : s.criterionOf now t = .ok r) : ∃ r', s'.criterionOf now t = .ok r' := by
  obtain ⟨c, s₁⟩ := r
  -- Of all that is checked only the domain is of the draft.
  rcases criterionOf_cases now s t with ⟨key, hkey, hs⟩ | ⟨hkey, hs⟩
  · rw [hs] at h
    obtain ⟨own, fields, v, hown, hfields, hspan, hv, hcheck, -, -⟩ := propertyCriterion_eq_ok.1 h
    have hs' : s'.criterionOf now t =
        s'.propertyCriterion (String.ofList key) t.comparator t.value := by
      simp only [criterionOf, hkey]
    rw [← hd] at hown
    exact ⟨_, hs'.trans (propertyCriterion_eq_ok.2
      ⟨own, fields, v, hown, hfields, hspan, hv, hcheck, rfl, rfl⟩)⟩
  · rw [hs] at h
    obtain ⟨f, cmp, v, hf, hv, hcheck, -, -⟩ := fieldCriterion_eq_ok.1 h
    rw [← hd] at hf
    rcases criterionOf_cases now s' t with ⟨key, hkey', -⟩ | ⟨-, hs'⟩
    · simp [hkey'] at hkey
    · exact ⟨_, hs'.trans (fieldCriterion_eq_ok.2 ⟨f, cmp, v, hf, hv, hcheck, rfl, rfl⟩)⟩

/-- The path of a criterion starts at the domain. -/
theorem criterionOf_mainDomain (h : s.criterionOf now t = .ok (c, s')) :
    c.mainDomain? = some s.query.domain := by
  rcases criterionOf_cases now s t with ⟨key, -, hs⟩ | ⟨-, hs⟩ <;> rw [hs] at h
  · obtain ⟨own, fields, v, -, -, -, -, -, rfl, -⟩ := propertyCriterion_eq_ok.1 h
    rw [Criterion.mainDomain?, Criterion.ofProperty_path]
    exact propertyPath_head? _ _ _
  · obtain ⟨f, cmp, v, hf, -, -, rfl, -⟩ := fieldCriterion_eq_ok.1 h
    exact FieldPath.head?_of_resolve hf

/-- A criterion is reached over one table and takes no new number, or it is supplied with one. -/
theorem supplies_of_criterionOf (h : s.criterionOf now t = .ok (c, s')) :
    ((tableChain c.path c.leftTable.table).length = 1 ∧ s' = s ∧
      (c.leftTable.id = 0 ∨ s.sharedId? = some c.leftTable.id)) ∨
    s.Supplies c.leftTable.table c.leftTable.id s' := by
  rcases criterionOf_cases now s t with ⟨key, -, hs⟩ | ⟨-, hs⟩ <;> rw [hs] at h
  · obtain ⟨own, fields, v, -, hfields, -, -, -, rfl, rfl⟩ := propertyCriterion_eq_ok.1 h
    have hown : own.table.holdsProperties = true := by
      cases own <;> cases hfields <;> rfl
    rw [Criterion.ofProperty_path, Criterion.ofProperty_leftTable, propertyPath]
    split
    · rename_i hd
      refine .inl ⟨?_, rfl, ?_⟩
      · rw [hd]
        simp [tableChain]
      · cases hshared : s.sharedId? with
        | none => exact .inl rfl
        | some n => exact .inr rfl
    · exact .inr (s.supplies_propertyId hown)
  · obtain ⟨f, cmp, v, -, -, -, rfl, rfl⟩ := fieldCriterion_eq_ok.1 h
    rw [Criterion.simple, idFor]
    dsimp only
    split
    · rename_i hone
      exact .inl ⟨hone, rfl, .inl rfl⟩
    split
    · rename_i hproperties
      exact .inr (s.supplies_propertyId hproperties)
    · rename_i hproperties
      exact .inr (.new fun h => absurd h hproperties)

/-- Making a criterion changes at most the next number. -/
theorem criterionOf_frame (h : s.criterionOf now t = .ok (c, s')) : ∃ n, s' = s.renumbered n := by
  rcases supplies_of_criterionOf h with ⟨-, hsame, -⟩ | hsupplies
  · exact ⟨s.nextId, hsame⟩
  · exact hsupplies.frame

/-! ## What criteria depend on -/

/-- Whether two drafts differ neither in their domain, nor in their open clauses, nor in the next
number. -/
structure Agrees (s s' : Draft) : Prop where
  domain : s.query.domain = s'.query.domain
  clauses : s.clauses = s'.clauses
  nextId : s.nextId = s'.nextId

theorem Agrees.renumbered (h : Agrees s s') (n : Nat) :
    Agrees (s.renumbered n) (s'.renumbered n) :=
  ⟨h.domain, h.clauses, rfl⟩

/-- A number and a draft behind it, as far as criteria depend on it. -/
def Gives (r r' : Nat × Draft) : Prop := r.1 = r'.1 ∧ r.2.nextId = r'.2.nextId

theorem propertyId_gives (h : Agrees s s') : Gives s.propertyId s'.propertyId := by
  have hshared : s.sharedId? = s'.sharedId? := by
    rw [sharedId?, sharedId?, h.clauses]
  rw [propertyId, propertyId, hshared]
  cases s'.sharedId? with
  | some n => exact ⟨rfl, h.nextId⟩
  | none => exact ⟨h.nextId, congrArg (· + 1) h.nextId⟩

theorem idFor_gives (h : Agrees s s') (path : List Domain) (table : Table) :
    Gives (s.idFor path table) (s'.idFor path table) := by
  rw [idFor, idFor]
  split
  · exact ⟨rfl, h.nextId⟩
  split
  · exact propertyId_gives h
  · exact ⟨h.nextId, congrArg (· + 1) h.nextId⟩

theorem propertyPath_gives (h : Agrees s s') (d own : Domain) :
    (s.propertyPath d own).1 = (s'.propertyPath d own).1 ∧
      Gives (s.propertyPath d own).2 (s'.propertyPath d own).2 := by
  rw [propertyPath, propertyPath, sharedId?, sharedId?, h.clauses]
  split
  · exact ⟨rfl, rfl, h.nextId⟩
  · exact ⟨rfl, propertyId_gives h⟩

/-- Drafts that agree make the same criterion of a test, with the same next number behind it. -/
theorem criterionOf_of_agrees (ha : Agrees s' s) {s₁ : Draft}
    (h : s.criterionOf now t = .ok (c, s₁)) :
    ∃ s₁', s'.criterionOf now t = .ok (c, s₁') ∧ s₁'.nextId = s₁.nextId := by
  -- A criterion depends on the draft by its domain and by the number that it gets, and drafts that
  -- agree give the same one.
  rcases criterionOf_cases now s t with ⟨key, hkey, hs⟩ | ⟨hkey, hs⟩
  · rw [hs] at h
    obtain ⟨own, fields, v, hown, hfields, hspan, hv, hcheck, rfl, rfl⟩ :=
      propertyCriterion_eq_ok.1 h
    have hs' : s'.criterionOf now t =
        s'.propertyCriterion (String.ofList key) t.comparator t.value := by
      simp only [criterionOf, hkey]
    obtain ⟨hpath, hid, hnext⟩ := propertyPath_gives ha s.query.domain own
    rw [← ha.domain] at hown
    refine ⟨_, hs'.trans (propertyCriterion_eq_ok.2
      ⟨own, fields, v, hown, hfields, hspan, hv, hcheck, ?_, rfl⟩), ?_⟩
    · rw [ha.domain, hpath, hid]
    · rw [ha.domain]
      exact hnext
  · rw [hs] at h
    obtain ⟨f, cmp, v, hf, hv, hcheck, rfl, rfl⟩ := fieldCriterion_eq_ok.1 h
    obtain ⟨hid, hnext⟩ := idFor_gives ha f.path f.field.column.table
    rw [← ha.domain] at hf
    rcases criterionOf_cases now s' t with ⟨key, hkey', -⟩ | ⟨-, hs'⟩
    · simp [hkey'] at hkey
    · refine ⟨_, hs'.trans (fieldCriterion_eq_ok.2 ⟨f, cmp, v, hf, hv, hcheck, ?_, rfl⟩), hnext⟩
      rw [hid]

end Draft

end ArtifactQuery
