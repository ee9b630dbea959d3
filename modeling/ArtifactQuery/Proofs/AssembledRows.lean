import ArtifactQuery.Result.Assembly
import Mathlib.Data.List.Nodup

/-!
# Rows put together from cells

The cells of one read are put into a row one after the other, each at the end of the path of its
field. What is empty in the end is left out.

* `changeFirst?_cases`, `changeLast?_cases`: what becomes of a list one of whose elements is
  changed.
* `Row.OnePerDomain`: at every level, related rows differ in their domains.
* `Row.valueAt`: the value that stands at the end of a path.
* `valueAt_setAt`, `valueAt_pruned`: the values after a cell is put in, and after pruning.
* `onePerDomain_assemble`, `valueAt_assemble`: what holds of the row of a read.
-/

namespace ArtifactQuery

/-! ## Changing one element of a list -/

section Change

variable {α : Type} {p : α → Bool} {f : α → α}

/-- Either no element satisfies the condition, or the first one that does is changed. -/
theorem changeFirst?_cases (p : α → Bool) (f : α → α) (as : List α) :
    ((∀ a ∈ as, ¬ p a = true) ∧ changeFirst? p f as = none) ∨
      ∃ before a after, as = before ++ a :: after ∧ p a = true ∧
        (∀ b ∈ before, ¬ p b = true) ∧ changeFirst? p f as = some (before ++ f a :: after) := by
  induction as with
  | nil => exact .inl ⟨by simp, rfl⟩
  | cons x as ih =>
    by_cases hx : p x = true
    · refine .inr ⟨[], x, as, rfl, hx, by simp, ?_⟩
      rw [changeFirst?, if_pos hx]
      rfl
    · rw [changeFirst?, if_neg hx]
      rcases ih with ⟨hnone, hsame⟩ | ⟨before, a, after, rfl, ha, hbefore, hchanged⟩
      · refine .inl ⟨?_, by rw [hsame]; rfl⟩
        simpa [hx] using hnone
      · refine .inr ⟨x :: before, a, after, rfl, ha, ?_, by rw [hchanged]; rfl⟩
        simpa [hx] using hbefore

/-- Either no element satisfies the condition, or the last one that does is changed. -/
theorem changeLast?_cases (p : α → Bool) (f : α → α) (as : List α) :
    ((∀ a ∈ as, ¬ p a = true) ∧ changeLast? p f as = none) ∨
      ∃ before a after, as = before ++ a :: after ∧ p a = true ∧
        (∀ b ∈ after, ¬ p b = true) ∧ changeLast? p f as = some (before ++ f a :: after) := by
  rcases changeFirst?_cases p f as.reverse with
    ⟨hnone, hsame⟩ | ⟨before, a, after, has, ha, hbefore, hchanged⟩
  · refine .inl ⟨fun a ha => hnone a (List.mem_reverse.2 ha), ?_⟩
    rw [changeLast?, hsame]
    rfl
  · refine .inr ⟨after.reverse, a, before.reverse, ?_, ha, fun b hb => ?_, ?_⟩
    · rw [← List.reverse_reverse as, has]
      simp
    · exact hbefore b (List.mem_reverse.1 hb)
    · rw [changeLast?, hchanged]
      simp

end Change

namespace Row

/-! ## One related row for each domain -/

/-- Related rows differ in their domains, at every level. -/
inductive OnePerDomain : Row → Prop
  | intro {r : Row} (hdomains : r.children.Pairwise fun c d => c.domain ≠ d.domain)
      (hchildren : ∀ c ∈ r.children, OnePerDomain c) : OnePerDomain r

theorem onePerDomain_iff {r : Row} : r.OnePerDomain ↔
    r.children.Pairwise (fun c d => c.domain ≠ d.domain) ∧ ∀ c ∈ r.children, c.OnePerDomain := by
  constructor
  · rintro ⟨hdomains, hchildren⟩
    exact ⟨hdomains, hchildren⟩
  · rintro ⟨hdomains, hchildren⟩
    exact ⟨hdomains, hchildren⟩

variable {r : Row} {f g : Field} {v : Value} {d : Domain} {path : List Domain}

@[simp] theorem domain_setAt (f : Field) (v : Value) (path : List Domain) (r : Row) :
    (r.setAt f v path).domain = r.domain := by
  cases path <;> rfl

theorem domain_place (r : Row) (f : ResultField) (c : Cell) : (r.place f c).domain = r.domain :=
  domain_setAt _ _ _ _

/-- The related rows after a value has been put in behind a domain: the last row of this domain has
taken it, or a new one. -/
theorem children_setAt_cons (f : Field) (v : Value) (d : Domain) (path : List Domain) (r : Row) :
    ((∀ c ∈ r.children, c.domain ≠ d) ∧ (r.setAt f v (d :: path)).children =
        r.children ++ [setAt f v path { domain := d }]) ∨
      ∃ before c after, r.children = before ++ c :: after ∧ c.domain = d ∧
        (∀ b ∈ after, b.domain ≠ d) ∧
          (r.setAt f v (d :: path)).children = before ++ c.setAt f v path :: after := by
  rcases changeLast?_cases (·.domain = d) (setAt f v path) r.children with
    ⟨hnone, hsame⟩ | ⟨before, c, after, hchildren, hc, hafter, hchanged⟩
  · refine .inl ⟨by simpa using hnone, ?_⟩
    rw [setAt, hsame]
    rfl
  · refine .inr ⟨before, c, after, hchildren, by simpa using hc, by simpa using hafter, ?_⟩
    rw [setAt, hchanged]
    rfl

theorem OnePerDomain.setAt (h : r.OnePerDomain) (f : Field) (v : Value) (path : List Domain) :
    (r.setAt f v path).OnePerDomain := by
  induction path generalizing r with
  | nil => exact ⟨(onePerDomain_iff.1 h).1, (onePerDomain_iff.1 h).2⟩
  | cons d path ih =>
    obtain ⟨hdomains, hchildren⟩ := onePerDomain_iff.1 h
    rw [onePerDomain_iff]
    -- A related row is added only where none of its domain was there.
    rcases children_setAt_cons f v d path r with
      ⟨hnone, hadded⟩ | ⟨before, c, after, hold, -, -, hnew⟩
    · have hempty : ({ domain := d } : Row).OnePerDomain := ⟨.nil, by simp⟩
      rw [hadded]
      constructor
      · rw [List.pairwise_append]
        refine ⟨hdomains, List.pairwise_singleton _ _, fun c hc e he => ?_⟩
        rw [List.mem_singleton.1 he, domain_setAt]
        exact hnone c hc
      · intro c hc
        rcases List.mem_append.1 hc with hc | hc
        · exact hchildren c hc
        · rw [List.mem_singleton.1 hc]
          exact ih hempty
    · rw [hold] at hdomains hchildren
      rw [hnew]
      constructor
      · rw [← List.pairwise_map (f := Row.domain) (R := (· ≠ ·))] at hdomains ⊢
        simpa using hdomains
      · intro e he
        rcases List.mem_append.1 he with he | he
        · exact hchildren e (List.mem_append_left _ he)
        · rcases List.mem_cons.1 he with rfl | he
          · exact ih (hchildren c (by simp))
          · exact hchildren e (by simp [he])

theorem prunedAll_eq (rs : List Row) : prunedAll rs = (rs.map pruned).filter (! isEmpty ·) := by
  induction rs with
  | nil => rfl
  | cons c cs ih => cases hc : c.pruned.isEmpty <;> simp [prunedAll, hc, ih]

theorem children_pruned (r : Row) :
    r.pruned.children = (r.children.map pruned).filter (! isEmpty ·) := by
  cases r
  exact prunedAll_eq _

@[simp] theorem domain_pruned (r : Row) : r.pruned.domain = r.domain := by
  cases r
  rfl

@[simp] theorem get?_pruned (r : Row) (f : Field) : r.pruned.get? f = r.get? f := by
  cases r
  rfl

theorem OnePerDomain.pruned (h : r.OnePerDomain) : r.pruned.OnePerDomain := by
  induction h with
  | @intro r hdomains _ ih =>
    rw [onePerDomain_iff, children_pruned]
    constructor
    · refine List.Pairwise.filter _ ?_
      rw [List.pairwise_map]
      simpa using hdomains
    · intro c hc
      obtain ⟨b, hb, rfl⟩ := List.mem_map.1 (List.mem_of_mem_filter hc)
      exact ih b hb

/-- There is at most one related row of a domain. -/
theorem OnePerDomain.childrenOf_eq (h : r.OnePerDomain) (d : Domain) :
    r.childrenOf d = (r.childrenOf d).getLast?.toList := by
  have hdomains : (r.childrenOf d).Pairwise fun c e => c.domain ≠ e.domain :=
    (onePerDomain_iff.1 h).1.filter _
  have hsame : ∀ c ∈ r.childrenOf d, c.domain = d := fun c hc => by
    simpa using List.of_mem_filter hc
  match r.childrenOf d, hdomains, hsame with
  | [], _, _ => rfl
  | [c], _, _ => rfl
  | c :: e :: rest, hdomains, hsame =>
    have hne : c.domain ≠ e.domain := (List.pairwise_cons.1 hdomains).1 e (by simp)
    rw [hsame c (by simp), hsame e (by simp)] at hne
    exact absurd rfl hne

/-! ## Values at the end of a path -/

/-- The value of a field at the end of a path, where the last related row of each domain is taken.
-/
def valueAt : List Domain → Field → Row → Option Value
  | [], f, r => r.get? f
  | d :: path, f, r => (r.childrenOf d).getLast?.bind (valueAt path f)

theorem valueAt_empty (path : List Domain) (f : Field) (d : Domain) :
    ({ domain := d } : Row).valueAt path f = none := by
  cases path <;> rfl

theorem lookup_set (f g : Field) (v : Value) (vs : List (Field × Value)) :
    ((changeFirst? (·.1 = f) (fun _ => (f, v)) vs).getD (vs ++ [(f, v)])).lookup g =
      if g = f then some v else vs.lookup g := by
  rcases changeFirst?_cases (·.1 = f) (fun _ => (f, v)) vs with
    ⟨hnone, hsame⟩ | ⟨before, w, after, rfl, hw, hbefore, hchanged⟩
  · have hmissing : vs.lookup f = none := by
      rw [List.lookup_eq_none_iff]
      intro w hw
      have hne : ¬ w.1 = f := by simpa using hnone w hw
      simpa using fun h : f = w.1 => hne h.symm
    rw [hsame, Option.getD_none, List.lookup_append, List.lookup_cons, List.lookup_nil]
    by_cases hg : g = f
    · subst hg
      simp [hmissing]
    · have hbeq : (g == f) = false := by simpa using hg
      rw [hbeq, if_neg hg]
      cases vs.lookup g <;> rfl
  · have hw : w.1 = f := by simpa using hw
    -- The value that is changed is the one that is looked up, as none before it has the field.
    have hmissing : before.lookup f = none := by
      rw [List.lookup_eq_none_iff]
      intro b hb
      have hne : ¬ b.1 = f := by simpa using hbefore b hb
      simpa using fun h : f = b.1 => hne h.symm
    rw [hchanged, Option.getD_some, List.lookup_append, List.lookup_append, List.lookup_cons,
      List.lookup_cons, hw]
    by_cases hg : g = f
    · subst hg
      simp [hmissing]
    · have hbeq : (g == f) = false := by simpa using hg
      rw [hbeq, if_neg hg]

theorem get?_set (r : Row) (f g : Field) (v : Value) :
    (r.set f v).get? g = if g = f then some v else r.get? g :=
  lookup_set f g v r.values

/-- Behind a domain, a value that is put in goes to the last related row, or to a new one. -/
theorem getLast?_childrenOf_setAt (f : Field) (v : Value) (d e : Domain) (path : List Domain)
    (r : Row) : ((r.setAt f v (d :: path)).childrenOf e).getLast? =
      if e = d then some (((r.childrenOf d).getLast?.getD { domain := d }).setAt f v path)
      else (r.childrenOf e).getLast? := by
  rw [childrenOf, childrenOf, childrenOf]
  rcases children_setAt_cons f v d path r with
    ⟨hnone, hadded⟩ | ⟨before, c, after, hold, hc, hafter, hnew⟩
  · have hfilter : r.children.filter (·.domain = d) = [] := by
      simpa using hnone
    rw [hadded, hfilter, List.filter_append]
    by_cases he : e = d
    · simp [he]
    · have hde : ¬ d = e := fun h => he h.symm
      simp [he, hde]
  · have hfilter : after.filter (·.domain = d) = [] := by
      simpa using hafter
    rw [hold, hnew, List.filter_append, List.filter_append, List.filter_append, List.filter_cons,
      List.filter_cons, List.filter_cons, hfilter, domain_setAt, hc]
    by_cases he : e = d
    · subst he
      simp [hfilter]
    · have hde : ¬ d = e := fun h => he h.symm
      simp [he, hde]

/-- A value that is put in stands at its place, and nothing else changes. -/
theorem valueAt_setAt (f g : Field) (v : Value) (path path' : List Domain) (r : Row) :
    (r.setAt f v path).valueAt path' g =
      if path' = path ∧ g = f then some v else r.valueAt path' g := by
  induction path generalizing r path' with
  | nil =>
    cases path' with
    | nil => simpa [setAt, valueAt] using get?_set r f g v
    | cons e path' => simp [setAt, valueAt, set, childrenOf]
  | cons d path ih =>
    cases path' with
    | nil => simp [setAt, valueAt, get?]
    | cons e path' =>
      rw [valueAt, valueAt, getLast?_childrenOf_setAt]
      by_cases he : e = d
      · subst he
        rw [if_pos rfl, Option.bind_some, ih]
        cases (r.childrenOf e).getLast? with
        | none => simp [valueAt_empty]
        | some c => simp
      · simp [he]

theorem value_of_isEmpty {w : Value} (hr : r.isEmpty = true) (h : r.valueAt path f = some w) :
    w = .null := by
  obtain ⟨hvalues, hchildren⟩ : (∀ x ∈ r.values, x.2 = .null) ∧ r.children = [] := by
    simpa [isEmpty] using hr
  cases path with
  | nil =>
    obtain ⟨before, after, hsplit, -⟩ := List.lookup_eq_some_iff.1 h
    exact hvalues (f, w) (by rw [hsplit]; simp)
  | cons d path =>
    rw [valueAt, childrenOf, hchildren] at h
    cases h

theorem childrenOf_pruned (r : Row) (d : Domain) :
    r.pruned.childrenOf d = ((r.childrenOf d).map pruned).filter (! isEmpty ·) := by
  rw [childrenOf, childrenOf, children_pruned, List.filter_comm, List.filter_map]
  congr 3
  funext c
  simp

/-- Pruning leaves all values but null. -/
theorem valueAt_pruned {w : Value} (hr : r.OnePerDomain) (h : r.valueAt path f = some w)
    (hw : w ≠ .null) : r.pruned.valueAt path f = some w := by
  induction path generalizing r with
  | nil => rwa [valueAt, get?_pruned]
  | cons d path ih =>
    rw [valueAt] at h
    obtain ⟨c, hc, hvalue⟩ := Option.bind_eq_some_iff.1 h
    have hchild : c.OnePerDomain :=
      (onePerDomain_iff.1 hr).2 c (List.mem_of_mem_filter (List.mem_of_getLast? hc))
    have hpruned := ih hchild hvalue
    have hnonempty : c.pruned.isEmpty = false := by
      by_contra hempty
      exact hw (value_of_isEmpty (by simpa using hempty) hpruned)
    rw [valueAt, childrenOf_pruned, hr.childrenOf_eq, hc]
    simp [hnonempty, hpruned]

end Row

/-! ## The row of a read -/

namespace ResultField

/-- Where the cells of a field are put. -/
def slot (f : ResultField) : List Domain × Field := (f.path.drop 1, f.field)

/-- Different fields whose paths start at one domain are put at different places. -/
theorem nodup_slots {fs : List ResultField} {d : Domain} (hdistinct : fs.Nodup)
    (hstart : ∀ f ∈ fs, f.path.head? = some d) : (fs.map (·.slot)).Nodup := by
  have hsplit : ∀ f ∈ fs, f = ⟨f.field, d :: f.path.drop 1⟩ := by
    intro f hf
    obtain ⟨rest, hrest⟩ := List.head?_eq_some_iff.1 (hstart f hf)
    obtain ⟨field, path⟩ := f
    cases hrest
    rfl
  refine List.Nodup.map_on (fun f hf g hg heq => ?_) hdistinct
  obtain ⟨hpath, hfield⟩ := Prod.mk.inj heq
  rw [hsplit f hf, hsplit g hg, hpath, hfield]

end ResultField

/-- Only null is read as null. -/
theorem Value.ofCell_ne_null (t : FieldType) {c : Cell} (hc : c ≠ .null) : ofCell t c ≠ .null := by
  cases c with
  | null => exact absurd rfl hc
  | integer n =>
    cases t <;> simp only [ofCell, itemTypeOfCode, ne_eq, reduceCtorEq, not_false_eq_true]
    cases ItemType.ofCode? n <;> simp
  | text s =>
    cases t <;> simp only [ofCell, longOfText, dateOfText, itemTypeOfText, ne_eq, reduceCtorEq,
      not_false_eq_true]
    · split <;> simp
    · split <;> simp
    · split <;> simp
    · cases ItemType.named? s <;> simp

/-- Puts cells where their fields belong, one after the other. -/
def Row.placeAll (r : Row) (cells : List (ResultField × Cell)) : Row :=
  cells.foldl (fun r x => r.place x.1 x.2) r

namespace Row

/-- Cells of other slots leave a value as it is. -/
theorem valueAt_placeAll_of_ne {path : List Domain} {f : Field}
    {cells : List (ResultField × Cell)} (h : ∀ x ∈ cells, x.1.slot ≠ (path, f)) (r : Row) :
    (r.placeAll cells).valueAt path f = r.valueAt path f := by
  induction cells generalizing r with
  | nil => rfl
  | cons x cells ih =>
    obtain ⟨hx, hcells⟩ := List.forall_mem_cons.1 h
    rw [placeAll, List.foldl_cons, ← placeAll, ih hcells, place, valueAt_setAt, if_neg]
    rintro ⟨rfl, rfl⟩
    exact hx rfl

/-- Where slots differ, the cell of each is found in it. -/
theorem valueAt_placeAll {cells : List (ResultField × Cell)}
    (hslots : (cells.map fun x => x.1.slot).Nodup) {x : ResultField × Cell} (hx : x ∈ cells)
    (r : Row) : (r.placeAll cells).valueAt (x.1.path.drop 1) x.1.field =
      some (Value.ofCell x.1.field.column.type x.2) := by
  induction cells generalizing r with
  | nil => cases hx
  | cons y cells ih =>
    obtain ⟨hy, hrest⟩ := List.nodup_cons.1 hslots
    rw [placeAll, List.foldl_cons, ← placeAll]
    rcases List.mem_cons.1 hx with rfl | hx
    · rw [valueAt_placeAll_of_ne, place, valueAt_setAt, if_pos ⟨rfl, rfl⟩]
      intro z hz hslot
      exact hy (List.mem_map.2 ⟨z, hz, hslot⟩)
    · exact ih hrest hx _

theorem domain_placeAll (cells : List (ResultField × Cell)) (r : Row) :
    (r.placeAll cells).domain = r.domain := by
  induction cells generalizing r with
  | nil => rfl
  | cons x cells ih => exact (ih _).trans (domain_place r x.1 x.2)

theorem OnePerDomain.placeAll {r : Row} (h : r.OnePerDomain)
    (cells : List (ResultField × Cell)) : (r.placeAll cells).OnePerDomain := by
  induction cells generalizing r with
  | nil => exact h
  | cons x cells ih => exact ih (h.setAt _ _ _)

end Row

namespace Plan

variable {p : Plan} {cells : List Cell} {r : Row}

theorem assemble_eq_ok : p.assemble cells = .ok r ↔ p.fields.length ≤ cells.length ∧
    (Row.placeAll { domain := p.domain } (p.fields.zip cells)).pruned = r := by
  rw [assemble]
  split
  · rename_i h
    simp [Nat.not_le.2 h]
  · rename_i h
    simp [Nat.not_lt.1 h, Row.placeAll]

theorem exists_assemble (h : p.fields.length ≤ cells.length) : ∃ r, p.assemble cells = .ok r :=
  ⟨_, assemble_eq_ok.2 ⟨h, rfl⟩⟩

theorem domain_assemble (h : p.assemble cells = .ok r) : r.domain = p.domain := by
  obtain ⟨-, rfl⟩ := assemble_eq_ok.1 h
  rw [Row.domain_pruned, Row.domain_placeAll]

/-- The row of a read has one related row for each domain, at every level. -/
theorem onePerDomain_assemble (h : p.assemble cells = .ok r) : r.OnePerDomain := by
  obtain ⟨-, rfl⟩ := assemble_eq_ok.1 h
  have hempty : ({ domain := p.domain } : Row).OnePerDomain := ⟨.nil, by simp⟩
  exact (hempty.placeAll _).pruned

/-- A cell other than null is found at the end of the path of its field. -/
theorem valueAt_assemble (h : p.assemble cells = .ok r) (hslots : (p.fields.map (·.slot)).Nodup)
    {f : ResultField} {c : Cell} (hc : (f, c) ∈ p.fields.zip cells) (hnull : c ≠ .null) :
    r.valueAt (f.path.drop 1) f.field = some (Value.ofCell f.field.column.type c) := by
  obtain ⟨hlength, rfl⟩ := assemble_eq_ok.1 h
  have hempty : ({ domain := p.domain } : Row).OnePerDomain := ⟨.nil, by simp⟩
  have hzip : ((p.fields.zip cells).map fun x => x.1.slot).Nodup := by
    rw [← List.map_fst_zip hlength, List.map_map] at hslots
    exact hslots
  have hvalue := Row.valueAt_placeAll hzip hc { domain := p.domain }
  exact Row.valueAt_pruned (hempty.placeAll _) hvalue (Value.ofCell_ne_null _ hnull)

end Plan

end ArtifactQuery
