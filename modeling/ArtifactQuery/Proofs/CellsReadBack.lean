import ArtifactQuery.Proofs.AssembledRows

/-!
# Cells read back from rows

The row of a read is a tree with a node for each path of domains below which a cell is not null.
The cells of these paths are found in their nodes, and the row holds nothing else.

* `Row.Leads`: a path of domains leads from a row to one below it.
* `Row.Stores`: at the end of a path stands a row with a value.
* `valueAt_of_leads`: where domains do not repeat, a path leads to one row at most.
* `stores_placeAll`, `leads_pruned`: where values come from, and which rows pruning leaves.
* `Row.ReadsBack`: what a row says of the cells that it was put together from.
* `assemble_readsBack`: all of it, for the row of a read.
-/

namespace ArtifactQuery

/-- What a list has beyond the length of another one is not paired. -/
theorem zip_append_of_length_le {α β : Type} {as : List α} {bs : List β}
    (h : as.length ≤ bs.length) (cs : List β) : as.zip (bs ++ cs) = as.zip bs := by
  induction as generalizing bs with
  | nil => rw [List.zip_nil_left, List.zip_nil_left]
  | cons a as ih =>
    cases bs with
    | nil => cases h
    | cons b bs =>
      rw [List.cons_append, List.zip_cons_cons, List.zip_cons_cons, ih (by simpa using h)]

namespace Row

/-- The path of domains leads from a row down to a row below it. -/
inductive Leads : Row → List Domain → Row → Prop
  | here (r : Row) : Leads r [] r
  | down {r c n : Row} {path : List Domain} (hc : c ∈ r.children) (h : Leads c path n) :
      Leads r (c.domain :: path) n

/-- At the end of the path stands a row with the value `v` of the field `f`. -/
def Stores (r : Row) (path : List Domain) (f : Field) (v : Value) : Prop :=
  ∃ n, r.Leads path n ∧ (f, v) ∈ n.values

/-- A row says of the cells that it was put together from: it has one related row at most for each
domain, at every level, and one at the end of a path if a cell there or below it is not null. A cell
whose path leads to a row is the value of its field there, there are no values but those, and no
row but the first one is empty. -/
structure ReadsBack (r : Row) (cells : List (ResultField × Cell)) : Prop where
  onePerDomain : r.OnePerDomain
  exists_iff : ∀ path, path ≠ [] → ((∃ n, r.Leads path n) ↔
    ∃ x ∈ cells, path <+: x.1.path.drop 1 ∧ x.2 ≠ .null)
  found : ∀ x ∈ cells, ∀ n, r.Leads (x.1.path.drop 1) n →
    n.get? x.1.field = some (Value.ofCell x.1.field.column.type x.2)
  nothingElse : ∀ path f v, r.Stores path f v → ∃ x ∈ cells, x.1.slot = (path, f) ∧
    v = Value.ofCell x.1.field.column.type x.2
  nonempty : ∀ path n, path ≠ [] → r.Leads path n →
    (∃ w ∈ n.values, w.2 ≠ .null) ∨ n.children ≠ []

variable {r n m : Row} {path path' : List Domain} {d : Domain} {f g : Field} {v w : Value}

/-! ## Paths -/

@[simp] theorem leads_nil : r.Leads [] n ↔ n = r := by
  constructor
  · rintro ⟨⟩
    rfl
  · rintro rfl
    exact .here _

theorem leads_cons : r.Leads (d :: path) n ↔ ∃ c ∈ r.children, c.domain = d ∧ c.Leads path n := by
  constructor
  · intro h
    cases h with
    | down hc h => exact ⟨_, hc, rfl, h⟩
  · rintro ⟨c, hc, rfl, h⟩
    exact .down hc h

theorem leads_append :
    r.Leads (path ++ path') n ↔ ∃ m, r.Leads path m ∧ m.Leads path' n := by
  induction path generalizing r with
  | nil => simp
  | cons d path ih =>
    rw [List.cons_append, leads_cons]
    constructor
    · rintro ⟨c, hc, hd, h⟩
      obtain ⟨m, hm, hn⟩ := ih.1 h
      exact ⟨m, leads_cons.2 ⟨c, hc, hd, hm⟩, hn⟩
    · rintro ⟨m, hm, hn⟩
      obtain ⟨c, hc, hd, hm⟩ := leads_cons.1 hm
      exact ⟨c, hc, hd, ih.2 ⟨m, hm, hn⟩⟩

theorem OnePerDomain.of_leads (h : r.OnePerDomain) (hn : r.Leads path n) : n.OnePerDomain := by
  induction hn with
  | here => exact h
  | down hc _ ih => exact ih ((onePerDomain_iff.1 h).2 _ hc)

theorem OnePerDomain.getLast?_childrenOf (h : r.OnePerDomain) (hn : n ∈ r.children) :
    (r.childrenOf n.domain).getLast? = some n := by
  have hmem : n ∈ r.childrenOf n.domain := List.mem_filter.2 ⟨hn, by simp⟩
  rw [h.childrenOf_eq] at hmem
  exact Option.mem_toList.1 hmem

/-- A path leads to the row whose values stand at its end. -/
theorem OnePerDomain.valueAt_of_leads (h : r.OnePerDomain) (hn : r.Leads path n) (f : Field) :
    r.valueAt path f = n.get? f := by
  induction hn with
  | here => rfl
  | down hc _ ih =>
    rw [valueAt, h.getLast?_childrenOf hc, Option.bind_some]
    exact ih ((onePerDomain_iff.1 h).2 _ hc)

theorem exists_leads_of_valueAt (h : r.valueAt path f = some w) : ∃ n, r.Leads path n := by
  induction path generalizing r with
  | nil => exact ⟨r, .here r⟩
  | cons d path ih =>
    obtain ⟨c, hc, hvalue⟩ := Option.bind_eq_some_iff.1 h
    obtain ⟨n, hn⟩ := ih hvalue
    obtain ⟨hmem, hd⟩ := List.mem_filter.1 (List.mem_of_getLast? hc)
    exact ⟨n, leads_cons.2 ⟨c, hmem, by simpa using hd, hn⟩⟩

/-! ## Where values come from -/

theorem stores_nil : r.Stores [] f v ↔ (f, v) ∈ r.values := by
  simp [Stores]

theorem stores_cons :
    r.Stores (d :: path) f v ↔ ∃ c ∈ r.children, c.domain = d ∧ c.Stores path f v := by
  constructor
  · rintro ⟨n, hn, hv⟩
    obtain ⟨c, hc, hd, hn⟩ := leads_cons.1 hn
    exact ⟨c, hc, hd, n, hn, hv⟩
  · rintro ⟨c, hc, hd, n, hn, hv⟩
    exact ⟨n, leads_cons.2 ⟨c, hc, hd, hn⟩, hv⟩

theorem stores_append :
    r.Stores (path ++ path') f v ↔ ∃ n, r.Leads path n ∧ n.Stores path' f v := by
  constructor
  · rintro ⟨m, hm, hv⟩
    obtain ⟨n, hn, hm⟩ := leads_append.1 hm
    exact ⟨n, hn, m, hm, hv⟩
  · rintro ⟨n, hn, m, hm, hv⟩
    exact ⟨m, leads_append.2 ⟨n, hn, hm⟩, hv⟩

theorem not_stores_empty : ¬ ({ domain := d } : Row).Stores path f v := by
  cases path with
  | nil => simp [stores_nil]
  | cons e path => simp [stores_cons]

/-- A value that is set is there, and no other value is new. -/
theorem mem_values_set (h : (g, w) ∈ (r.set f v).values) : g = f ∧ w = v ∨ (g, w) ∈ r.values := by
  rcases changeFirst?_cases (·.1 = f) (fun _ => (f, v)) r.values with
    ⟨-, hsame⟩ | ⟨before, x, after, hvalues, -, -, hchanged⟩
  · rw [set, hsame] at h
    rcases List.mem_append.1 h with h | h
    · exact .inr h
    · cases List.mem_singleton.1 h
      exact .inl ⟨rfl, rfl⟩
  · rw [set, hchanged] at h
    rw [hvalues]
    rcases List.mem_append.1 h with h | h
    · exact .inr (List.mem_append_left _ h)
    · rcases List.mem_cons.1 h with h | h
      · cases h
        exact .inl ⟨rfl, rfl⟩
      · exact .inr (List.mem_append_right _ (List.mem_cons_of_mem _ h))

/-- A value that is put in is stored at its place, and no other value is new. -/
theorem stores_setAt (h : (r.setAt f v path).Stores path' g w) :
    path' = path ∧ g = f ∧ w = v ∨ r.Stores path' g w := by
  -- The place is followed down the row. On the way one related row is changed or added, and an
  -- added one was empty before.
  induction path generalizing r path' with
  | nil =>
    cases path' with
    | nil =>
      rcases mem_values_set (stores_nil.1 h) with hnew | hold
      · exact .inl ⟨rfl, hnew⟩
      · exact .inr (stores_nil.2 hold)
    | cons e path' =>
      obtain ⟨c, hc, he, hstores⟩ := stores_cons.1 h
      exact .inr (stores_cons.2 ⟨c, hc, he, hstores⟩)
  | cons d path ih =>
    cases path' with
    | nil =>
      have hold := stores_nil.1 h
      exact .inr (stores_nil.2 hold)
    | cons e path' =>
      obtain ⟨c, hc, he, hstores⟩ := stores_cons.1 h
      rcases children_setAt_cons f v d path r with
        ⟨-, hadded⟩ | ⟨before, b, after, hold, hb, -, hnew⟩
      · rw [hadded] at hc
        rcases List.mem_append.1 hc with hc | hc
        · exact .inr (stores_cons.2 ⟨c, hc, he, hstores⟩)
        · obtain rfl := List.mem_singleton.1 hc
          rw [domain_setAt] at he
          rcases ih hstores with ⟨rfl, hvalue⟩ | hstores
          · exact .inl ⟨by rw [← he], hvalue⟩
          · exact absurd hstores not_stores_empty
      · rw [hnew] at hc
        rcases List.mem_append.1 hc with hc | hc
        · exact .inr (stores_cons.2 ⟨c, by rw [hold]; exact List.mem_append_left _ hc, he, hstores⟩)
        rcases List.mem_cons.1 hc with rfl | hc
        · rw [domain_setAt] at he
          rcases ih hstores with ⟨rfl, hvalue⟩ | hstores
          · exact .inl ⟨by rw [← he, hb], hvalue⟩
          · exact .inr (stores_cons.2 ⟨b, by rw [hold]; simp, he, hstores⟩)
        · exact .inr (stores_cons.2 ⟨c, by rw [hold]; simp [hc], he, hstores⟩)

/-- Every value comes from a cell, or was there before. -/
theorem stores_placeAll {cells : List (ResultField × Cell)}
    (h : (r.placeAll cells).Stores path f v) :
    (∃ x ∈ cells, x.1.slot = (path, f) ∧ v = Value.ofCell x.1.field.column.type x.2) ∨
      r.Stores path f v := by
  induction cells generalizing r with
  | nil => exact .inr h
  | cons x cells ih =>
    rcases ih h with ⟨y, hy, hslot, hv⟩ | hplaced
    · exact .inl ⟨y, List.mem_cons_of_mem _ hy, hslot, hv⟩
    · rcases stores_setAt hplaced with ⟨rfl, rfl, rfl⟩ | hold
      · exact .inl ⟨x, List.mem_cons_self, rfl, rfl⟩
      · exact .inr hold

/-! ## Which rows pruning leaves -/

theorem isEmpty_eq_false_iff :
    r.isEmpty = false ↔ (∃ w ∈ r.values, w.2 ≠ .null) ∨ r.children ≠ [] := by
  simp only [isEmpty, Bool.and_eq_false_iff, List.all_eq_false, List.isEmpty_eq_false_iff,
    decide_eq_true_iff, ne_eq]

@[simp] theorem values_pruned (r : Row) : r.pruned.values = r.values := by
  cases r
  rfl

/-- A pruned row leads to pruned rows, none of which is empty. -/
theorem leads_pruned (h : r.pruned.Leads path n) :
    ∃ m, r.Leads path m ∧ n = m.pruned ∧ (path ≠ [] → n.isEmpty = false) := by
  induction path generalizing r with
  | nil => exact ⟨r, .here r, leads_nil.1 h, fun hne => absurd rfl hne⟩
  | cons d path ih =>
    obtain ⟨c, hc, hd, hn⟩ := leads_cons.1 h
    rw [children_pruned] at hc
    obtain ⟨hmem, hnonempty⟩ := List.mem_filter.1 hc
    obtain ⟨b, hb, rfl⟩ := List.mem_map.1 hmem
    obtain ⟨m, hm, rfl, hrest⟩ := ih hn
    refine ⟨m, leads_cons.2 ⟨b, hb, by simpa using hd, hm⟩, rfl, fun _ => ?_⟩
    cases path with
    | nil =>
      rw [leads_nil.1 hn]
      simpa using hnonempty
    | cons e path => exact hrest (List.cons_ne_nil e path)

theorem stores_of_pruned (h : r.pruned.Stores path f v) : r.Stores path f v := by
  obtain ⟨n, hn, hv⟩ := h
  obtain ⟨m, hm, rfl, -⟩ := leads_pruned hn
  rw [values_pruned] at hv
  exact ⟨m, hm, hv⟩

/-- A row that pruning leaves stores a value other than null, itself or below it. -/
theorem OnePerDomain.exists_stores (h : r.OnePerDomain) (hr : r.pruned.isEmpty = false) :
    ∃ path f v, r.Stores path f v ∧ v ≠ .null := by
  induction h with
  | @intro r _ _ ih =>
    rcases isEmpty_eq_false_iff.1 hr with ⟨w, hw, hne⟩ | hchildren
    · rw [values_pruned] at hw
      exact ⟨[], w.1, w.2, stores_nil.2 hw, hne⟩
    · obtain ⟨c, hc⟩ := List.exists_mem_of_ne_nil _ hchildren
      rw [children_pruned] at hc
      obtain ⟨hmem, hnonempty⟩ := List.mem_filter.1 hc
      obtain ⟨b, hb, rfl⟩ := List.mem_map.1 hmem
      obtain ⟨path, f, v, hstores, hne⟩ := ih b hb (by simpa using hnonempty)
      exact ⟨b.domain :: path, f, v, stores_cons.2 ⟨b, hb, rfl, hstores⟩, hne⟩

end Row

/-! ## The row of a read -/

namespace Plan

variable {p : Plan} {cells : List Cell} {r : Row}

open Row in
/-- The row of a read says of its cells all that there is to say. -/
theorem readsBack_of_assemble (h : p.assemble cells = .ok r)
    (hslots : (p.fields.map (·.slot)).Nodup) : r.ReadsBack (p.fields.zip cells) := by
  have hone : r.OnePerDomain := onePerDomain_assemble h
  obtain ⟨hlength, hrow⟩ := assemble_eq_ok.1 h
  have hempty : ({ domain := p.domain } : Row).OnePerDomain := ⟨.nil, by simp⟩
  have hplaced := hempty.placeAll (p.fields.zip cells)
  have hzip : ((p.fields.zip cells).map fun x => x.1.slot).Nodup := by
    rw [← List.map_fst_zip hlength, List.map_map] at hslots
    exact hslots
  have hstores : ∀ path f v,
      (placeAll { domain := p.domain } (p.fields.zip cells)).Stores path f v →
        ∃ x ∈ p.fields.zip cells, x.1.slot = (path, f) ∧
          v = Value.ofCell x.1.field.column.type x.2 := by
    intro path f v hv
    exact (stores_placeAll hv).resolve_right not_stores_empty
  refine ⟨hone, fun path hpath => ⟨?_, ?_⟩, fun x hx n hn => ?_, fun path f v hv => ?_,
    fun path n hpath hn => ?_⟩
  · rintro ⟨n, hn⟩
    rw [← hrow] at hn
    obtain ⟨m, hm, rfl, hnonempty⟩ := leads_pruned hn
    -- The row at the end of the path was left, so that a value stands in it or below it.
    obtain ⟨below, f, v, hv, hne⟩ := (hplaced.of_leads hm).exists_stores (hnonempty hpath)
    obtain ⟨x, hx, hslot, rfl⟩ := hstores _ f v (stores_append.2 ⟨m, hm, hv⟩)
    refine ⟨x, hx, ⟨below, (congrArg Prod.fst hslot).symm⟩, fun hnull => hne ?_⟩
    rw [hnull]
    cases x.1.field.column.type <;> rfl
  -- A value is found at its place, so every row on the way there was left.
  · rintro ⟨x, hx, ⟨below, hbelow⟩, hne⟩
    obtain ⟨n, hn⟩ := exists_leads_of_valueAt (valueAt_assemble h hslots hx hne)
    rw [← hbelow] at hn
    obtain ⟨m, hm, -⟩ := leads_append.1 hn
    exact ⟨m, hm⟩
  · rw [← hrow] at hn
    obtain ⟨m, hm, rfl, -⟩ := leads_pruned hn
    rw [get?_pruned, ← hplaced.valueAt_of_leads hm]
    exact valueAt_placeAll hzip hx _
  · rw [← hrow] at hv
    exact hstores path f v (stores_of_pruned hv)
  · rw [← hrow] at hn
    obtain ⟨m, -, rfl, hnonempty⟩ := leads_pruned hn
    exact isEmpty_eq_false_iff.1 (hnonempty hpath)

/-- Cells behind the last field do not count. -/
theorem assemble_append (h : p.fields.length ≤ cells.length) (more : List Cell) :
    p.assemble (cells ++ more) = p.assemble cells := by
  have hzip : p.fields.zip (cells ++ more) = p.fields.zip cells := zip_append_of_length_le h more
  have hmore : ¬ (cells ++ more).length < p.fields.length := by
    rw [List.length_append]
    omega
  rw [assemble, assemble, if_neg hmore, if_neg (Nat.not_lt.2 h), hzip]

/-- Cells are put into a row exactly if there are as many as fields. Where the fields differ and
start at the domain of the row, it says of its cells all that there is to say, and further cells
change nothing. -/
theorem assemble_readsBack (hdistinct : p.fields.Nodup)
    (hstart : ∀ f ∈ p.fields, f.path.head? = some p.domain) (cells : List Cell) :
    (∀ e, p.assemble cells = .error e ↔ cells.length < p.fields.length ∧
      e = .execution (.tooFewColumns p.fields.length cells.length)) ∧
    (p.fields.length ≤ cells.length → ∃ r, p.assemble cells = .ok r ∧ r.domain = p.domain ∧
      r.ReadsBack (p.fields.zip cells) ∧ ∀ more, p.assemble (cells ++ more) = .ok r) := by
  refine ⟨fun e => ?_, fun hlength => ?_⟩
  · rw [assemble]
    split
    · rename_i hfew
      simp [hfew, eq_comm]
    · rename_i hmany
      simp [hmany]
  · obtain ⟨r, hr⟩ := exists_assemble hlength
    have hslots := ResultField.nodup_slots hdistinct hstart
    exact ⟨r, hr, domain_assemble hr, readsBack_of_assemble hr hslots, fun more => by
      rw [assemble_append hlength, hr]⟩

end Plan

/-- Items with the properties of theirs and of the items in their archives. -/
def Plan.ofArchives : Plan where
  domain := .items
  fields := [⟨.propertyKey, [.items, .archives, .items, .properties]⟩, ⟨.itemName, [.items]⟩,
    ⟨.itemSize, [.items, .archives, .items]⟩, ⟨.propertyKey, [.items, .properties]⟩,
    ⟨.itemName, [.items, .archives, .items]⟩]
  action := .ofSpec true ⟨.find, none, [], none⟩

/-- Without properties of its own, an item leads to no such row; the archive between it and an item
with a name holds no values, and stays. -/
theorem Plan.assemble_readsBack_ofArchives :
    Plan.ofArchives.fields.Nodup ∧
    (∀ f ∈ Plan.ofArchives.fields, f.path.head? = some Plan.ofArchives.domain) ∧
    ∃ r, Plan.ofArchives.assemble
        [.null, .text "a.zip", .null, .null, .text "b.jar", .integer 1] = .ok r ∧
      (∃ n, r.Leads [.archives, .items] n ∧ n.get? .itemName = some (.text "b.jar") ∧
        n.get? .itemSize = some .null) ∧
      (∃ n, r.Leads [.archives] n) ∧
      ∀ n, ¬ r.Leads [.properties] n := by
  have hdistinct : Plan.ofArchives.fields.Nodup := by decide
  have hstart : ∀ f ∈ Plan.ofArchives.fields, f.path.head? = some Plan.ofArchives.domain := by
    decide
  obtain ⟨r, -, -, hback, hmore⟩ := (assemble_readsBack hdistinct hstart
    [.null, .text "a.zip", .null, .null, .text "b.jar"]).2 (by decide)
  refine ⟨hdistinct, hstart, r, hmore [.integer 1], ?_, ?_, fun n hn => ?_⟩
  · obtain ⟨n, hn⟩ := (hback.exists_iff [.archives, .items] (by decide)).2 (by decide)
    have hname := hback.found (⟨.itemName, [.items, .archives, .items]⟩, .text "b.jar") (by decide)
    have hsize := hback.found (⟨.itemSize, [.items, .archives, .items]⟩, .null) (by decide)
    exact ⟨n, hn, hname n hn, hsize n hn⟩
  · exact (hback.exists_iff [.archives] (by decide)).2 (by decide)
  · exact absurd ((hback.exists_iff [.properties] (by decide)).1 ⟨n, hn⟩) (by decide)

end ArtifactQuery
