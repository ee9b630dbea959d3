import ArtifactQuery.Proofs.TestCriteria
import Mathlib.Data.List.Chain

/-!
# Walks over domains

The paths of accepted queries lead along edges of the graph of domains, and the tables passed on the
way are linked one to the next.

* `Domain.Walk`, `ResultField.Reached`: a path along edges, and a field at the end of one.
* `reached_resolve`, `reached_resolveInclude`: what field paths and includes name is reached.
* `linked_tableChain`: the tables on the way to a reached field.
-/

namespace ArtifactQuery

/-! ## Walks -/

/-- Whether tables can be joined. -/
def Table.Linked (a b : Table) : Prop := (a.link? b).isSome

instance (a b : Table) : Decidable (a.Linked b) := inferInstanceAs (Decidable (_ = true))

/-- Whether a path leads from `d` along edges of the graph. -/
structure Domain.Walk (d : Domain) (path : List Domain) : Prop where
  start : path.head? = some d
  edges : path.IsChain fun a b => b ∈ a.subs

/-- Whether a field stands at the end of a walk from `d`. -/
structure ResultField.Reached (d : Domain) (f : ResultField) : Prop where
  walk : d.Walk f.path
  last : f.path.getLast? = some f.field.domain

theorem Domain.linked_of_mem_subs {a b : Domain} (h : b ∈ a.subs) : a.table.Linked b.table := by
  revert h
  cases a <;> cases b <;> decide

/-- A field is stored in the table of its domain or in one next to it. -/
theorem Field.linked_column (f : Field) :
    f.domain.table = f.column.table ∨ f.domain.table.Linked f.column.table := by
  cases f <;> decide

/-- The tables on a walk to a field are linked one to the next. -/
theorem linked_tableChain {d : Domain} {f : ResultField} (h : f.Reached d) :
    (tableChain f.path f.field.column.table).IsChain Table.Linked := by
  have htables : (f.path.map Domain.table).IsChain Table.Linked :=
    List.isChain_map_of_isChain _ (fun a b hab => Domain.linked_of_mem_subs hab) h.walk.edges
  have hlast : (f.path.map Domain.table).getLast? = some f.field.domain.table := by
    rw [List.getLast?_map, h.last]
    rfl
  rw [tableChain]
  split
  case isTrue => exact htables
  case isFalse hne =>
    refine htables.append (.singleton _) fun a ha b hb => ?_
    cases hlast.symm.trans ha
    cases hb
    rcases f.field.linked_column with heq | hlinked
    · exact absurd (heq ▸ hlast) hne
    · exact hlinked

/-! ## Field paths -/

namespace FieldPath

variable {d : Domain} {ss : List String} {path : List Domain}

theorem edges_of_steps : ∀ {ss : List String} {d : Domain} {path : List Domain},
    steps d ss = some path → (d :: path).IsChain fun a b => b ∈ a.subs := by
  intro ss
  induction ss with
  | nil =>
    intro d path h
    cases h
    exact .singleton _
  | cons s rest ih =>
    intro d path h
    rw [steps] at h
    obtain ⟨next, hnext, h⟩ := Option.bind_eq_some_iff.1 h
    obtain ⟨more, hmore, h⟩ := Option.bind_eq_some_iff.1 h
    cases h
    exact (ih hmore).cons fun b hb => Option.some.inj hb ▸ List.mem_of_find?_eq_some hnext

theorem walk_of_walk (h : walk d ss = some path) : d.Walk path := by
  refine ⟨head?_of_walk h, ?_⟩
  cases ss with
  | nil =>
    cases h
    exact .singleton _
  | cons s rest =>
    rw [walk] at h
    split at h
    all_goals
      obtain ⟨path', hsteps, rfl⟩ := Option.map_eq_some_iff.1 h
      exact edges_of_steps hsteps

/-- A walk ends at its owner. -/
theorem getLast?_of_walk (h : d.Walk path) : path.getLast? = some (owner d path) := by
  obtain ⟨rest, rfl⟩ := List.head?_eq_some_iff.1 h.start
  rw [owner, List.getLast?_eq_some_getLast (List.cons_ne_nil _ _)]
  rfl

theorem domain_of_named? {f : Field} {n : String} (h : Field.named? d n = some f) :
    f.domain = d := by
  have hf := List.find?_some (p := fun f : Field => decide (f.domain = d ∧ f.name = n)) h
  exact (of_decide_eq_true hf).1

/-- Fields of the domain at the end of a walk are reached. -/
theorem reached_of_domain (h : d.Walk path) {f : Field} (hf : f.domain = owner d path) :
    ResultField.Reached d ⟨f, path⟩ :=
  ⟨h, (getLast?_of_walk h).trans (congrArg some hf.symm)⟩

theorem reached_resolve? {f : ResultField} (h : resolve? d ss = some f) : f.Reached d := by
  rw [resolve?] at h
  obtain ⟨path, hwalk, h⟩ := Option.bind_eq_some_iff.1 h
  obtain ⟨n, -, h⟩ := Option.bind_eq_some_iff.1 h
  obtain ⟨f', hfield, h⟩ := Option.bind_eq_some_iff.1 h
  cases h
  exact reached_of_domain (walk_of_walk hwalk) (domain_of_named? hfield)

theorem reached_resolve {text : String} {f : ResultField} (h : resolve d text = .ok f) :
    f.Reached d := by
  rw [resolve] at h
  split at h
  · rename_i f' hf'
    cases h
    exact reached_resolve? hf'
  · cases h

theorem domain_of_mem_defaults {f : Field} (h : f ∈ d.defaults) : f.domain = d := by
  have hall : ∀ f ∈ d.defaults, f.domain = d := by cases d <;> decide
  exact hall f h

theorem reached_allOf (h : d.Walk path) : ∀ f ∈ allOf d path, f.Reached d := by
  intro f hf
  obtain ⟨f', hf', rfl⟩ := List.mem_map.1 hf
  exact reached_of_domain h (of_decide_eq_true (List.mem_filter.1 hf').2)

theorem reached_defaultsOf (h : d.Walk path) : ∀ f ∈ defaultsOf d path, f.Reached d := by
  intro f hf
  obtain ⟨f', hf', rfl⟩ := List.mem_map.1 hf
  exact reached_of_domain h (domain_of_mem_defaults hf')

theorem walk_singleton (d : Domain) : d.Walk [d] := ⟨rfl, .singleton d⟩

/-- Every field that an include names is reached. -/
theorem reached_resolveInclude {text : String} {fs : List ResultField}
    (h : resolveInclude d text = .ok fs) : ∀ f ∈ fs, f.Reached d := by
  rw [resolveInclude] at h
  split at h
  · cases h
    exact reached_allOf (walk_singleton d)
  split at h
  · split at h
    · rename_i path hpath
      cases h
      exact reached_allOf (walk_of_walk hpath)
    · cases h
  split at h
  · rename_i f hf
    cases h
    intro f' hf'
    rw [List.mem_singleton.1 hf']
    exact reached_resolve? hf
  split at h
  · rename_i path hpath
    split at h
    · cases h
      exact reached_defaultsOf (walk_of_walk hpath)
    · cases h
  · cases h

end FieldPath

end ArtifactQuery
