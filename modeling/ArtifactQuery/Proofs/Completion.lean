import ArtifactQuery.Proofs.Outcome
import ArtifactQuery.Resolution
import Mathlib.Data.List.Basic

/-!
# Settings and the condition

Window, returned fields, action and order are set beside the condition of a query: they leave it as
it is, and when they fail they blame a name and not the condition.

* `ActionKind.located`: the fields that an action reads.
* `Query.Alike`: queries with the same condition on the same domain.
* `setWindow_alike`, `complete_eq_ok`: setting a window and completing a draft keep its condition.
* `BlamesNames`: computations that fail only for what the query names.
* `blamesNames_setWindow`, `blamesNames_complete`: so do window and completion, if the final check
  accepts the condition.
-/

namespace ArtifactQuery

/-- The fields that an action reads. -/
def ActionKind.located : ActionKind → List ResultField
  | .find => []
  | .delete => locationFields.map (ResultField.main · .items)
  | .updateProperty => locationFields.map (⟨·, [.properties, .items]⟩)

/-! ## The condition is kept -/

/-- Whether two queries have the same condition on the same domain. -/
structure Query.Alike (q q' : Query) : Prop where
  domain : q.domain = q'.domain
  elements : q.elements = q'.elements

namespace Query

variable {q q' q'' : Query}

theorem Alike.refl (q : Query) : q.Alike q := ⟨rfl, rfl⟩

theorem Alike.trans (h : q.Alike q') (h' : q'.Alike q'') : q.Alike q'' :=
  ⟨h.domain.trans h'.domain, h.elements.trans h'.elements⟩

theorem Alike.checkElements (h : q.Alike q') : q.checkElements = q'.checkElements := by
  rw [Query.checkElements, Query.checkElements, h.domain, h.elements]

/-- Adding result fields changes nothing but these. -/
theorem exists_addResultFields (q : Query) (fs : List ResultField) :
    ∃ rs, q.addResultFields fs = { q with resultFields := rs } := by
  rw [addResultFields]
  induction fs generalizing q with
  | nil => exact ⟨q.resultFields, rfl⟩
  | cons f fs ih =>
    obtain ⟨rs, hrs⟩ := ih (q.addResultField f)
    refine ⟨rs, hrs.trans ?_⟩
    rw [addResultField]
    split <;> rfl

theorem addResultFields_alike (q : Query) (fs : List ResultField) :
    (q.addResultFields fs).Alike q := by
  obtain ⟨rs, hrs⟩ := q.exists_addResultFields fs
  rw [hrs]
  exact ⟨rfl, rfl⟩

theorem addResultFields_sort (q : Query) (fs : List ResultField) :
    (q.addResultFields fs).sort = q.sort := by
  obtain ⟨rs, hrs⟩ := q.exists_addResultFields fs
  rw [hrs]

theorem addResultFields_action (q : Query) (fs : List ResultField) :
    (q.addResultFields fs).action = q.action := by
  obtain ⟨rs, hrs⟩ := q.exists_addResultFields fs
  rw [hrs]

/-- Fields that differ from each other and from those there are put behind them. -/
theorem addResultFields_of_nodup {q : Query} {fs : List ResultField}
    (h : (q.resultFields ++ fs).Nodup) :
    q.addResultFields fs = { q with resultFields := q.resultFields ++ fs } := by
  rw [addResultFields]
  induction fs generalizing q with
  | nil => rw [List.append_nil, List.foldl_nil]
  | cons f fs ih =>
    have hf : f ∉ q.resultFields := fun hmem =>
      (List.nodup_append.1 h).2.2 f hmem f List.mem_cons_self rfl
    rw [List.append_cons] at h
    rw [List.foldl_cons, addResultField, if_neg hf, ih h, List.append_assoc]
    rfl

/-- Without includes the fields of the domain are returned. -/
theorem withIncludes_nil (q : Query) : q.withIncludes [] =
    .ok (q.addResultFields (q.domain.defaults.map (ResultField.main · q.domain))) := rfl

theorem withIncludes_alike {includes : List String} (h : q.withIncludes includes = .ok q') :
    q'.Alike q := by
  rw [withIncludes] at h
  obtain ⟨fs, -, h⟩ := bind_eq_ok.1 h
  cases h
  exact (addResultFields_alike _ _).trans (addResultFields_alike _ _)

/-- A query whose action is accepted returns the fields that it reads. -/
theorem withAction_eq (h : q.withAction = .ok q') :
    q.action.kind.supports q.domain = true ∧ q' = q.addResultFields q.action.kind.located := by
  rw [withAction] at h
  split at h
  · cases h
  rename_i hsupported
  refine ⟨not_not.1 hsupported, ?_⟩
  split at h
  · cases h
  split at h
  · cases h
  split at h
  all_goals
    rename_i hkind
    cases h
    rw [hkind]
    rfl

theorem withAction_alike (h : q.withAction = .ok q') : q'.Alike q := by
  obtain ⟨-, rfl⟩ := withAction_eq h
  exact addResultFields_alike _ _

end Query

namespace Draft

variable {s s' : Draft}

theorem setOffset_alike {n : Int} (h : s.setOffset n = .ok s') :
    ∃ q, s' = { s with query := q } ∧ q.Alike s.query := by
  rw [setOffset] at h
  split at h <;> cases h
  exact ⟨_, rfl, rfl, rfl⟩

theorem setLimit_alike {n : Int} (h : s.setLimit n = .ok s') :
    ∃ q, s' = { s with query := q } ∧ q.Alike s.query := by
  rw [setLimit] at h
  split at h <;> cases h
  exact ⟨_, rfl, rfl, rfl⟩

theorem setWindow_eq (s : Draft) (offset limit : Option Int) : s.setWindow offset limit =
    (offset.elim (.ok s) s.setOffset >>= fun s => limit.elim (.ok s) s.setLimit) := by
  cases offset <;> cases limit <;> rfl

theorem setWindow_alike {offset limit : Option Int} (h : s.setWindow offset limit = .ok s') :
    ∃ q, s' = { s with query := q } ∧ q.Alike s.query := by
  rw [setWindow_eq] at h
  obtain ⟨s₁, hoffset, hlimit⟩ := bind_eq_ok.1 h
  have hoffset' : ∃ q, s₁ = { s with query := q } ∧ q.Alike s.query := by
    cases offset with
    | none =>
      cases hoffset
      exact ⟨s.query, rfl, .refl _⟩
    | some n => exact setOffset_alike hoffset
  obtain ⟨q, rfl, hq⟩ := hoffset'
  cases limit with
  | none =>
    cases hlimit
    exact ⟨q, rfl, hq⟩
  | some n =>
    obtain ⟨q', rfl, hq'⟩ := setLimit_alike hlimit
    exact ⟨q', rfl, hq'.trans hq⟩

theorem sortBy_alike {dir : Direction} {paths : List String} (h : s.sortBy dir paths = .ok s') :
    ∃ q, s' = { s with query := q } ∧ q.Alike s.query := by
  rw [sortBy] at h
  obtain ⟨fields, -, h⟩ := bind_eq_ok.1 h
  rw [setSort] at h
  split at h
  · cases h
  split at h <;> cases h
  exact ⟨_, rfl, rfl, rfl⟩

/-- The order of a completion, set. -/
def sorted (s : Draft) (o : Option (Direction × List String)) : Except QueryError Draft :=
  o.elim (.ok s) fun o => s.sortBy o.1 o.2

theorem sorted_alike {o : Option (Direction × List String)} (h : s.sorted o = .ok s') :
    ∃ q, s' = { s with query := q } ∧ q.Alike s.query := by
  cases o with
  | none =>
    cases h
    exact ⟨s.query, rfl, .refl _⟩
  | some o => exact sortBy_alike h

theorem complete_eq (s : Draft) (c : Completion) : s.complete c =
    (s.query.withIncludes c.includes >>= fun q => q.withAction >>= fun q =>
      ({ s with query := q } : Draft).sorted c.sort >>= finish) := by
  obtain ⟨includes, sort⟩ := c
  cases sort <;> rfl

/-- A completed draft had its clauses closed and its condition accepted, and keeps the condition. -/
theorem complete_eq_ok {c : Completion} {q : Query} (h : s.complete c = .ok q) :
    q.Alike s.query ∧ s.clauses = [] ∧ q.checkElements = .ok () := by
  rw [complete_eq] at h
  obtain ⟨q₁, hincludes, h⟩ := bind_eq_ok.1 h
  obtain ⟨q₂, haction, h⟩ := bind_eq_ok.1 h
  obtain ⟨s₁, hsort, hfinish⟩ := bind_eq_ok.1 h
  obtain ⟨q₃, rfl, hq₃⟩ := sorted_alike hsort
  rw [finish] at hfinish
  split at hfinish
  · cases hfinish
  rename_i hclosed
  obtain ⟨⟨⟩, hcheck, rfl⟩ := map_eq_ok.1 hfinish
  have halike := (Query.withAction_alike haction).trans (Query.withIncludes_alike hincludes)
  exact ⟨hq₃.trans halike, not_not.1 hclosed, hcheck⟩

end Draft

/-! ## Errors -/

/-- Whether an error says that the elements form no condition on the domain. -/
def QueryError.OfCondition : QueryError → Prop
  | .malformed _ | .domainMismatch _ _ => True
  | _ => False

/-- Whether an error blames what a query names: a domain, a field, a value, a comparator, an order
or an action. -/
def QueryError.OfNames : QueryError → Prop
  | .unknownDomain _ | .unknownField _ | .invalidValue _ | .unsupportedComparator _ |
    .invalidSort _ | .invalidAction _ => True
  | .parse _ | .malformed _ | .domainMismatch _ _ | .configuration _ => False

theorem QueryError.OfNames.not_ofCondition {e : QueryError} (h : e.OfNames) : ¬ e.OfCondition := by
  cases e with
  | malformed cause => exact fun _ => h
  | domainMismatch c d => exact fun _ => h
  | _ => exact id

/-- Whether something fails, if it does, with an error that blames a name. -/
def BlamesNames {α : Type} (x : Except QueryError α) : Prop := ∀ e, x = .error e → e.OfNames

namespace BlamesNames

variable {α β : Type} {x : Except QueryError α}

theorem ok (a : α) : BlamesNames (.ok a) := fun e h => by cases h

theorem error {e : QueryError} (he : e.OfNames) : BlamesNames (.error e : Except QueryError α) := by
  intro e' h
  cases h
  exact he

theorem bind {f : α → Except QueryError β} (h : BlamesNames x)
    (hf : ∀ a, x = .ok a → BlamesNames (f a)) : BlamesNames (x >>= f) := by
  intro e he
  rcases bind_eq_error.1 he with hx | ⟨a, ha, hfa⟩
  · exact h e hx
  · exact hf a ha e hfa

theorem map (h : BlamesNames x) (f : α → β) : BlamesNames (x.map f) := by
  cases x with
  | error e => exact .error (h e rfl)
  | ok a => exact .ok (f a)

theorem mapM {f : α → Except QueryError β} {as : List α} (h : ∀ a ∈ as, BlamesNames (f a)) :
    BlamesNames (as.mapM f) := by
  intro e he
  obtain ⟨a, ha, hfa⟩ := mapM_eq_error he
  exact h a ha e hfa

theorem foldlM {f : β → α → Except QueryError β} (hf : ∀ b a, BlamesNames (f b a)) (as : List α)
    (b : β) : BlamesNames (as.foldlM f b) := by
  induction as generalizing b with
  | nil => exact .ok b
  | cons a as ih =>
    rw [List.foldlM_cons]
    exact (hf b a).bind fun b' _ => ih b'

end BlamesNames

theorem FieldPath.blamesNames_resolveInclude (d : Domain) (path : String) :
    BlamesNames (resolveInclude d path) := by
  have hunknown : BlamesNames (.error (unknown path) : Except QueryError (List ResultField)) :=
    .error trivial
  rw [resolveInclude]
  split
  · exact .ok _
  · split <;> split
    · exact .ok _
    · exact hunknown
    · exact .ok _
    · split
      · split
        · exact .ok _
        · exact hunknown
      · exact hunknown

namespace Query

theorem blamesNames_withIncludes (q : Query) (includes : List String) :
    BlamesNames (q.withIncludes includes) := by
  rw [withIncludes]
  exact (BlamesNames.mapM fun path _ => FieldPath.blamesNames_resolveInclude _ path).bind
    fun _ _ => .ok _

theorem blamesNames_withAction (q : Query) : BlamesNames q.withAction := by
  rw [withAction]
  split
  · exact .error trivial
  split
  · exact .error trivial
  split
  · exact .error trivial
  split <;> exact .ok _

end Query

namespace Draft

variable {s : Draft} {e : QueryError}

theorem blamesNames_setWindow (s : Draft) (offset limit : Option Int) :
    BlamesNames (s.setWindow offset limit) := by
  rw [setWindow_eq]
  refine BlamesNames.bind ?_ fun s₁ _ => ?_
  · cases offset with
    | none => exact .ok _
    | some n =>
      rw [Option.elim_some, setOffset]
      split
      · exact .error trivial
      · exact .ok _
  · cases limit with
    | none => exact .ok _
    | some n =>
      rw [Option.elim_some, setLimit]
      split
      · exact .error trivial
      · exact .ok _

theorem blamesNames_sorted (s : Draft) (o : Option (Direction × List String)) :
    BlamesNames (s.sorted o) := by
  cases o with
  | none => exact .ok _
  | some o =>
    show BlamesNames (s.sortBy o.1 o.2)
    rw [sortBy]
    refine BlamesNames.bind (.mapM fun path _ => ?_) fun fields _ => ?_
    · rw [sortField]
      split
      · exact .ok _
      · exact .error trivial
    · rw [setSort]
      split
      · exact .error trivial
      split
      · exact .error trivial
      · exact .ok _

/-- A draft whose clauses are closed and whose condition is accepted is refused for a name only. -/
theorem blamesNames_complete (c : Completion) (hclosed : s.clauses = [])
    (hcheck : s.query.checkElements = .ok ()) : BlamesNames (s.complete c) := by
  rw [complete_eq]
  refine (s.query.blamesNames_withIncludes c.includes).bind fun q₁ hincludes => ?_
  refine q₁.blamesNames_withAction.bind fun q₂ haction => ?_
  refine (blamesNames_sorted _ c.sort).bind fun s₁ hsort => ?_
  obtain ⟨q₃, rfl, hq₃⟩ := sorted_alike hsort
  have halike := (Query.withAction_alike haction).trans (Query.withIncludes_alike hincludes)
  rw [finish, if_neg (not_not.2 hclosed), (hq₃.trans halike).checkElements, hcheck]
  exact .ok _

theorem not_ofCondition_of_setWindow {offset limit : Option Int}
    (h : s.setWindow offset limit = .error e) : ¬ e.OfCondition :=
  (s.blamesNames_setWindow offset limit e h).not_ofCondition

theorem not_ofCondition_of_complete {c : Completion} (hclosed : s.clauses = [])
    (hcheck : s.query.checkElements = .ok ()) (h : s.complete c = .error e) : ¬ e.OfCondition :=
  (blamesNames_complete c hclosed hcheck e h).not_ofCondition

end Draft

end ArtifactQuery
