import ArtifactQuery.Engine
import ArtifactQuery.Proofs.Compiling
import ArtifactQuery.Proofs.Deeds
import ArtifactQuery.Proofs.MergedTrees
import ArtifactQuery.Proofs.ReadFilter

/-!
# Targets of actions

Every query that deletes or updates returns the fields that locate items. Their cells are found
again where the action looks for them, in rows that are put together and merged, so that such an
action never lacks its targets.

* `Query.Prepared`: queries that return the fields that their actions read, each field once.
* `prepared_ofText`, `prepared_ofFluent`: accepted queries are prepared.
* `Engine.plan_of_compile`: what is known of the result of a statement is what its query says.
* `place_assemble`, `places_assemble`: the place of an item in the row of a read.
* `Unites.childrenOf`, `Runs.merged`: what rows of one entity are merged into.
* `Action.OnlyRefused`, `Action.WorksOn`: an action that fails only where the host refuses it.
* `targets_found`: the places that an action works on.
-/

namespace ArtifactQuery

/-! ## Fields that are returned -/

/-- Whether a query returns the fields that its action reads, and returns no field twice. -/
structure Query.Prepared (q : Query) : Prop where
  supported : q.action.kind.supports q.domain = true
  located : ∀ f ∈ q.action.kind.located, f ∈ q.resultFields
  distinct : q.resultFields.Nodup
  reached : ∀ f ∈ q.resultFields, f.Reached q.domain

namespace Query

variable {now : Int} {q q' : Query}

theorem nodup_addResultFields (h : q.resultFields.Nodup) (fs : List ResultField) :
    (q.addResultFields fs).resultFields.Nodup := by
  rw [addResultFields]
  induction fs generalizing q with
  | nil => exact h
  | cons f fs ih =>
    rw [List.foldl_cons]
    refine ih ?_
    rw [addResultField]
    split
    · exact h
    · rename_i hf
      show (q.resultFields ++ [f]).Nodup
      rw [← List.concat_eq_append]
      exact h.concat hf

theorem prepared_of_complete {d : Domain} {s : Draft} {c : Completion} (hs : s.Unfinished d)
    (h : s.complete c = .ok q) : q.Prepared := by
  have hreached := (Draft.compilable_of_complete hs.fields hs.sort hs.criteria h).1.fields
  rw [Draft.complete_eq] at h
  obtain ⟨q₁, hincludes, h⟩ := bind_eq_ok.1 h
  obtain ⟨q₂, haction, h⟩ := bind_eq_ok.1 h
  obtain ⟨s₁, hsorted, hfinish⟩ := bind_eq_ok.1 h
  have hsort := (reached_withIncludes hs.fields hincludes).1.trans hs.sort
  -- Fields are only ever added where they are missing.
  have hdistinct : q₁.resultFields.Nodup := by
    rw [withIncludes] at hincludes
    obtain ⟨fs, -, hincludes⟩ := bind_eq_ok.1 hincludes
    cases hincludes
    refine nodup_addResultFields (nodup_addResultFields ?_ _) _
    rw [hs.fields]
    exact List.nodup_nil
  obtain ⟨hsupported, rfl⟩ := withAction_eq haction
  obtain ⟨sort, rfl, -⟩ := Draft.sorted_eq_ok ((addResultFields_sort _ _).trans hsort) hsorted
  rw [Draft.finish] at hfinish
  split at hfinish
  · cases hfinish
  obtain ⟨⟨⟩, -, rfl⟩ := map_eq_ok.1 hfinish
  refine ⟨?_, fun f hf => ?_, nodup_addResultFields hdistinct _, hreached⟩
  · show (q₁.addResultFields _).action.kind.supports (q₁.addResultFields _).domain = true
    rw [addResultFields_action, (addResultFields_alike _ _).domain, hsupported]
  · refine mem_addResultFields.2 (.inr ?_)
    rwa [← q₁.addResultFields_action q₁.action.kind.located]

theorem prepared_ofText {text : String} (h : ofText now text = .ok q) : q.Prepared := by
  obtain ⟨d, c, s, hs, hcomplete, -⟩ := unfinished_ofText h
  exact prepared_of_complete hs hcomplete

theorem prepared_ofFluent {f : FluentQuery} (h : ofFluent now f = .ok q) : q.Prepared := by
  obtain ⟨s, hs, hcomplete⟩ := unfinished_ofFluent h
  exact prepared_of_complete hs hcomplete

/-- Fields that are reached from one domain are put at different places. -/
theorem Prepared.nodup_slots (h : q.Prepared) : (q.resultFields.map (·.slot)).Nodup :=
  ResultField.nodup_slots h.distinct fun f hf => (h.reached f hf).walk.start

end Query

/-! ## From queries to results -/

/-- What is known of the result of a statement is what its query says. -/
theorem Engine.plan_of_compile {e : Engine} {q : Query} {st : Sql.Statement}
    (h : e.compile q = .ok st) : e.plan st =
      ⟨q.domain, q.resultFields, .ofSpec e.settings.dryRunDefault q.action⟩ := by
  have hcompile : q.compile e.settings.dialect e.surroundings = .ok st := by
    rw [compile] at h
    cases hq : q.compile e.settings.dialect e.surroundings with
    | error err =>
      rw [hq] at h
      cases h
    | ok st' =>
      rw [hq] at h
      cases h
      rfl
  rw [Query.compile, Query.toStatement] at hcompile
  obtain ⟨sel, hsel, hcompile⟩ := bind_eq_ok.1 hcompile
  obtain ⟨sql, -, hcompile⟩ := bind_eq_ok.1 hcompile
  obtain ⟨p, hitems, -⟩ := Sql.Selection.ofQuery_eq_ok hsel
  have hfields := Sql.Selection.fields_addItems hitems
  cases hcompile
  obtain ⟨es, hdecorated⟩ := q.decorate_eq e.surroundings Policy.all
  obtain ⟨es', htuned⟩ := (q.decorate e.surroundings Policy.all).tuned_eq e.settings.dialect
  rw [htuned, hdecorated] at hfields ⊢
  rw [plan, List.map_map]
  exact congrArg (Plan.mk _ · _) hfields

/-! ## Places in the row of a read -/

/-- Whether a read has a cell for each field, and none that an action reads is null. -/
structure Plan.Locates (p : Plan) (k : ActionKind) (cells : List Cell) : Prop where
  enough : p.fields.length ≤ cells.length
  notNull : ∀ f c, (f, c) ∈ p.fields.zip cells → f ∈ k.located → c ≠ .null

theorem Plan.locates_of_notNull {p : Plan} {cells : List Cell}
    (henough : p.fields.length ≤ cells.length) (hcells : ∀ c ∈ cells, c ≠ .null) (k : ActionKind) :
    p.Locates k cells :=
  ⟨henough, fun _ c hc _ => hcells c (List.of_mem_zip hc).2⟩

namespace Row

variable {r s : Row}

/-- An item has a place if repository, folder and name are texts. -/
theorem exists_repoPath? (hd : r.domain = .items)
    (htexts : ∀ f ∈ locationFields, ∃ text, r.get? f = some (.text text)) :
    ∃ p, r.repoPath? = some p := by
  obtain ⟨repo, hrepo⟩ := htexts .itemRepo (by decide)
  obtain ⟨folder, hfolder⟩ := htexts .itemPath (by decide)
  obtain ⟨name, hname⟩ := htexts .itemName (by decide)
  refine ⟨.ofColumns repo folder name, ?_⟩
  simp [repoPath?, text?, hd, hrepo, hfolder, hname, Value.text?]

/-- The place of an item is a matter of its entity. -/
theorem repoPath?_congr (h : r.entity = s.entity) : r.repoPath? = s.repoPath? := by
  obtain ⟨d, values, children⟩ := r
  obtain ⟨d', values', children'⟩ := s
  cases h
  rfl

end Row

namespace Plan

variable {p : Plan} {cells : List Cell} {r : Row}

/-- A cell other than null in a field that locates items is found as a text. -/
theorem text_assemble {k : ActionKind} (hslots : (p.fields.map (·.slot)).Nodup)
    (hfields : ∀ f ∈ k.located, f ∈ p.fields) (hcells : p.Locates k cells)
    (h : p.assemble cells = .ok r) (path : List Domain)
    (hk : k.located = locationFields.map (⟨·, path⟩)) {f : Field} (hf : f ∈ locationFields) :
    ∃ text, r.valueAt (path.drop 1) f = some (.text text) := by
  have hlocated : (⟨f, path⟩ : ResultField) ∈ k.located := hk ▸ List.mem_map_of_mem hf
  have hfirst := hfields _ hlocated
  rw [← List.map_fst_zip hcells.enough] at hfirst
  obtain ⟨⟨_, c⟩, hc, rfl⟩ := List.mem_map.1 hfirst
  have hnull := hcells.notNull _ c hc hlocated
  have htype : f.column.type = .text := by
    have hall : ∀ f ∈ locationFields, f.column.type = .text := by decide
    exact hall f hf
  have hvalue := valueAt_assemble h hslots hc hnull
  rw [htype] at hvalue
  cases c with
  | null => exact absurd rfl hnull
  | integer n => exact ⟨_, hvalue⟩
  | text s => exact ⟨_, hvalue⟩

/-- What is deleted has a place. -/
theorem place_assemble (hslots : (p.fields.map (·.slot)).Nodup)
    (hfields : ∀ f ∈ ActionKind.delete.located, f ∈ p.fields) (hcells : p.Locates .delete cells)
    (h : p.assemble cells = .ok r) (hd : p.domain = .items) :
    ∃ place, r.repoPath? = some place := by
  refine Row.exists_repoPath? ((domain_assemble h).trans hd) fun f hf => ?_
  exact text_assemble hslots hfields hcells h [.items] rfl hf

/-- What is updated has one item next to it, which has a place. -/
theorem places_assemble (hslots : (p.fields.map (·.slot)).Nodup)
    (hfields : ∀ f ∈ ActionKind.updateProperty.located, f ∈ p.fields)
    (hcells : p.Locates .updateProperty cells) (h : p.assemble cells = .ok r) :
    ∃ c place, r.childrenOf .items = [c] ∧ c.repoPath? = some place := by
  have htexts : ∀ f ∈ locationFields, ∃ c text, (r.childrenOf .items).getLast? = some c ∧
      c.get? f = some (.text text) := by
    intro f hf
    obtain ⟨text, hvalue⟩ :=
      text_assemble hslots hfields hcells h [.properties, .items] rfl hf
    obtain ⟨c, hc, hget⟩ := Option.bind_eq_some_iff.1 hvalue
    exact ⟨c, text, hc, hget⟩
  obtain ⟨c, -, hc, -⟩ := htexts .itemRepo (by decide)
  have hone : r.childrenOf .items = [c] := by
    rw [(onePerDomain_assemble h).childrenOf_eq, hc]
    rfl
  have hdomain : c.domain = .items := by
    have hmem : c ∈ r.childrenOf .items := List.mem_of_getLast? hc
    simpa using List.of_mem_filter hmem
  obtain ⟨place, hplace⟩ := Row.exists_repoPath? hdomain fun f hf => by
    obtain ⟨c', text, hc', hget⟩ := htexts f hf
    cases hc.symm.trans hc'
    exact ⟨text, hget⟩
  exact ⟨c, place, hone, hplace⟩

end Plan

/-! ## Related rows of merged rows -/

/-- The related rows of a domain are the entities that occur in the rows of the run, each where it
occurs first. -/
theorem Row.Unites.childrenOf {run : List Row} {r : Row} (h : Row.Unites run r) (d : Domain) :
    (r.childrenOf d).map Row.entity =
      ((run.flatMap (Row.childrenOf · d)).map Row.entity).eraseDups := by
  have hfilter : ∀ rs : List Row, (rs.filter (·.domain = d)).map Row.entity =
      (rs.map Row.entity).filter (·.1 = d) := by
    intro rs
    rw [List.filter_map]
    rfl
  have hrun : run.flatMap (Row.childrenOf · d) = (run.flatMap Row.children).filter (·.domain = d) :=
    List.filter_flatMap.symm
  have horder := h.order []
  rw [Row.beneath, Row.beneath] at horder
  rw [hrun, hfilter, ← filter_eraseDups, ← horder, ← hfilter]
  rfl

/-- Rows of one entity that follow each other are merged into one. -/
theorem Merger.run_of_same {r : Row} {rs : List Row} (h : ∀ s ∈ rs, r.entity = s.entity) :
    Merger.run {} (r :: rs) = [rs.foldl Row.merge r] := by
  have hall : ∀ s ∈ rs, r.sameEntity s = true := fun s hs => Row.sameEntity_iff.2 (h s hs)
  have htake : rs.takeWhile r.sameEntity = rs := List.takeWhile_eq_self_iff.2 hall
  have hdrop : rs.dropWhile r.sameEntity = [] := List.dropWhile_eq_nil_iff.2 hall
  have hrun : Merger.run {} (r :: rs) = Row.entities (r :: rs) := Merger.run_eq {} (r :: rs)
  rw [hrun, Row.entities, htake, hdrop, Row.entities_nil]

/-! ## Failures -/

namespace Action

/-- Whether a computation fails only where the host refuses something. -/
def OnlyRefused {α : Type} (m : Hosted (Except ActionFailure α)) : Prop :=
  ∀ calls f, (m calls).1 = .error f → f.kind = .actionFailed

variable (h : Host)

theorem onlyRefused_deleteAt (dry : Bool) (p : RepoPath) : OnlyRefused (deleteAt h dry p) := by
  intro calls f hf
  cases dry with
  | true =>
    have hmay : (if h.canDelete calls p then .ok () else .error (.mayNotDelete p) :
        Except ActionFailure Unit) = .error f := hf
    split at hmay <;> cases hmay
    rfl
  | false =>
    rw [deleteAt, if_neg Bool.false_ne_true, Hosted.bind_apply, Host.deletes, Host.ask] at hf
    cases hcause : h.undeploy calls p with
    | none =>
      simp only [hcause] at hf
      cases hf
    | some cause =>
      simp only [hcause] at hf
      cases hf
      rfl

theorem onlyRefused_setKeys (value : Option String) (p : RepoPath) (keys : List String) :
    OnlyRefused (setKeys h value p keys) := by
  induction keys with
  | nil =>
    intro calls f hf
    cases hf
  | cons key keys ih =>
    intro calls f hf
    rw [setKeys, Hosted.bind_apply, Host.edits, Host.ask] at hf
    cases hcause : h.edit calls p key value with
    | none =>
      simp only [hcause] at hf
      exact ih _ f hf
    | some cause =>
      simp only [hcause] at hf
      cases hf
      rfl

theorem onlyRefused_updateAt (a : Action) (p : RepoPath) : OnlyRefused (a.updateAt h p) := by
  intro calls f hf
  rw [updateAt] at hf
  split at hf
  · have hmay : (if h.canAnnotate calls p then .ok () else .error (.mayNotAnnotate p) :
        Except ActionFailure Unit) = .error f := hf
    split at hmay <;> cases hmay
    rfl
  · exact onlyRefused_setKeys h a.newValue p a.keys calls f hf

theorem onlyRefused_updateAll (a : Action) (ps : List RepoPath) :
    OnlyRefused (a.updateAll h ps) := by
  induction ps with
  | nil =>
    intro calls f hf
    cases hf
  | cons p ps ih =>
    intro calls f hf
    rw [updateAll, Hosted.bind_apply] at hf
    rcases hp : a.updateAt h p calls with ⟨_ | _, later⟩
    · simp only [hp] at hf
      cases hf
      exact onlyRefused_updateAt h a p calls f (congrArg Prod.fst hp)
    · simp only [hp] at hf
      exact ih later f hf

/-- On a row that has what it requires, the action fails only where the host refuses something. -/
theorem onlyRefused_run {s : ActionSpec} {r : Row} (hfits : s.fits r = true) (dryDefault : Bool) :
    OnlyRefused ((ofSpec dryDefault s).run h r) := by
  obtain ⟨_ | _ | _, dry, keys, value⟩ := s
  · intro calls f hf
    cases hf
  · obtain ⟨p, hp⟩ := Option.isSome_iff_exists.1 hfits
    simp only [run, ofSpec, ActionKind.supports, domain_of_repoPath? hp, hp, decide_true,
      not_true_eq_false, if_false]
    exact onlyRefused_deleteAt h _ p
  · obtain ⟨hdomain, hkeys, hplaces⟩ := of_decide_eq_true hfits
    simp only at hkeys
    simp only [run, ofSpec, ActionKind.supports, hdomain, targets_eq_places, decide_true,
      not_true_eq_false, if_false, if_neg hplaces, if_neg hkeys]
    exact onlyRefused_updateAll h _ _

theorem onlyRefused_apply {a : Action} {r : Row} (ha : OnlyRefused (a.run h r)) :
    OnlyRefused (a.apply h r) := by
  intro calls f hf
  rw [apply, Hosted.bind_apply] at hf
  rcases hrun : a.run h r calls with ⟨_ | _, later⟩
  · simp only [hrun] at hf
    cases hf
    exact ha calls f (congrArg Prod.fst hrun)
  · simp only [hrun] at hf
    cases hf

end Action

/-! ## Targets -/

namespace Action

/-- The calls by which an action works on a place. -/
def callsAt (a : Action) (p : RepoPath) : List HostCall :=
  match a.kind with
  | .find => []
  | .delete => [if a.dryRun then .canDelete p else .undeploy p]
  | .updateProperty =>
    if a.dryRun then [.canAnnotate p] else a.keys.map fun key => .edit p key a.newValue

/-- Whether an action works on some places when it is run on a row: it makes the calls that are due
there, and fails only where the host refuses one of them. -/
structure WorksOn (a : Action) (r : Row) (places : List RepoPath) : Prop where
  does : ∀ h : Host, h.Does (a.run h r) (places.flatMap a.callsAt)
  onlyRefused : ∀ h : Host, OnlyRefused (a.apply h r)

variable {s : ActionSpec} {r : Row} {dryDefault : Bool}

theorem worksOn_of_fits (hfits : s.fits r = true) {places : List RepoPath}
    (hdue : s.due (s.dryRun.getD dryDefault) r = places.flatMap (ofSpec dryDefault s).callsAt) :
    (ofSpec dryDefault s).WorksOn r places where
  does h := hdue ▸ does_run h hfits dryDefault
  onlyRefused h := onlyRefused_apply h (onlyRefused_run h hfits dryDefault)

theorem worksOn_delete (hs : s.kind = .delete) {p : RepoPath} (hp : r.repoPath? = some p) :
    (ofSpec dryDefault s).WorksOn r [p] := by
  refine worksOn_of_fits ?_ ?_
  · simp only [ActionSpec.fits, hs, hp, Option.isSome_some]
  · simp only [ActionSpec.due, hs, hp, ofSpec]
    rfl

theorem worksOn_update (hs : s.kind = .updateProperty) (hkeys : s.keys ≠ [])
    (hd : r.domain = .properties) (hplaces : (r.childrenOf .items).filterMap Row.repoPath? ≠ []) :
    (ofSpec dryDefault s).WorksOn r ((r.childrenOf .items).filterMap Row.repoPath?) := by
  have htargets : r.places = (r.childrenOf .items).filterMap Row.repoPath? := by
    have hnone : r.repoPath? = none := by
      rw [Row.repoPath?, hd]
      rfl
    rw [← targets_eq_places, targets, hnone]
  refine worksOn_of_fits ?_ ?_
  · simp only [ActionSpec.fits, hs, hd, htargets]
    exact decide_eq_true ⟨trivial, hkeys, hplaces⟩
  · have hcalls : s.dueAt (s.dryRun.getD dryDefault) = (ofSpec dryDefault s).callsAt := by
      funext p
      simp only [ActionSpec.dueAt, callsAt, ofSpec, hs]
    simp only [ActionSpec.due, hs, hd, htargets]
    rw [if_pos ⟨trivial, hkeys⟩, hcalls]

end Action

namespace Plan

variable {p : Plan} {r : Row} {run : List Row}

/-- Whether rows of one entity, among them a given one, are what a plan puts together. -/
def Runs (p : Plan) (r : Row) (run : List Row) : Prop :=
  r ∈ run ∧ ∀ s ∈ run, s.entity = r.entity ∧ ∃ cells, p.assemble cells = .ok s

/-- Such rows are merged into one. -/
theorem Runs.merged (h : p.Runs r run) :
    ∃ merged, Merger.run {} run = [merged] ∧ Row.Unites run merged := by
  obtain ⟨hr, hrun⟩ := h
  cases run with
  | nil => cases hr
  | cons first rest =>
    obtain ⟨⟨hfirst, cells, hcells⟩, hrest⟩ := List.forall_mem_cons.1 hrun
    have hsame : ∀ s ∈ rest, first.entity = s.entity := fun s hs =>
      hfirst.trans (hrest s hs).1.symm
    refine ⟨_, Merger.run_of_same hsame, ?_⟩
    refine Row.unites_foldl (.single (onePerDomain_assemble hcells).apart) fun s hs => ?_
    obtain ⟨-, cells', hcells'⟩ := hrest s hs
    exact ⟨(onePerDomain_assemble hcells').apart, hsame s hs⟩

end Plan

namespace Row.Unites

variable {run : List Row} {r c : Row}

/-- A related row of a merged row is of an entity that is related in one of the rows of the run. -/
theorem exists_of_mem_childrenOf (h : Unites run r) {d : Domain} (hc : c ∈ r.childrenOf d) :
    ∃ s ∈ run, ∃ b ∈ s.childrenOf d, b.entity = c.entity := by
  have hmem : c.entity ∈ (r.childrenOf d).map Row.entity := List.mem_map_of_mem hc
  rw [h.childrenOf, List.mem_eraseDups] at hmem
  obtain ⟨b, hb, hentity⟩ := List.mem_map.1 hmem
  obtain ⟨s, hs, hb⟩ := List.mem_flatMap.1 hb
  exact ⟨s, hs, b, hb, hentity⟩

/-- An entity that is related in one of the rows of the run is related in the merged row. -/
theorem exists_mem_childrenOf (h : Unites run r) {s : Row} (hs : s ∈ run) {d : Domain}
    (hc : c ∈ s.childrenOf d) : ∃ b ∈ r.childrenOf d, b.entity = c.entity := by
  have hmem : c.entity ∈ (r.childrenOf d).map Row.entity := by
    rw [h.childrenOf, List.mem_eraseDups]
    exact List.mem_map_of_mem (List.mem_flatMap.2 ⟨s, hs, hc⟩)
  exact List.mem_map.1 hmem

end Row.Unites

/-- For every accepted query that deletes or updates, and every read of its statement whose cells
locate an item: the row of the read exists, and merged with any rows of its entity into one row, it
is a row that the action works on. Deleting works on the place of the row itself. Updating works on
the places of the items next to it, each where it occurs first in the rows that are merged, and all
of them have a place if all of these rows are read from cells that locate an item. -/
theorem targets_found (e : Engine) {q : Query} {now : Int}
    (hq : (∃ text, Query.ofText now text = .ok q) ∨ ∃ f, Query.ofFluent now f = .ok q)
    {st : Sql.Statement} (hst : e.compile q = .ok st) {cells : List Cell}
    (hcells : (e.plan st).Locates q.action.kind cells) :
    ∃ r, (e.plan st).assemble cells = .ok r ∧ ∀ run, (e.plan st).Runs r run →
      ∃ merged, Merger.run {} run = [merged] ∧
        (q.action.kind = .delete →
          ∃ p, r.repoPath? = some p ∧ (e.plan st).action.WorksOn merged [p]) ∧
        (q.action.kind = .updateProperty → q.action.keys ≠ [] →
          (e.plan st).action.WorksOn merged ((merged.childrenOf .items).filterMap Row.repoPath?) ∧
          (merged.childrenOf .items).map Row.entity =
            ((run.flatMap (Row.childrenOf · .items)).map Row.entity).eraseDups ∧
          ((∀ s ∈ run, ∃ other, (e.plan st).Locates .updateProperty other ∧
              (e.plan st).assemble other = .ok s) →
            ∀ c ∈ merged.childrenOf .items, ∃ p, c.repoPath? = some p)) := by
  have hprepared : q.Prepared := by
    rcases hq with ⟨text, hq⟩ | ⟨f, hq⟩
    · exact Query.prepared_ofText hq
    · exact Query.prepared_ofFluent hq
  rw [Engine.plan_of_compile hst] at hcells ⊢
  obtain ⟨r, hr⟩ := Plan.exists_assemble hcells.enough
  refine ⟨r, hr, fun run hrun => ?_⟩
  -- Merging keeps the entity, and for related rows it keeps exactly the entities of the run. Places
  -- depend on the entity alone, so they can be found in the row of the read.
  obtain ⟨merged, hmerged, hunites⟩ := hrun.merged
  have hentity : r.entity = merged.entity := hunites.entity r hrun.1
  have hsupported := hprepared.supported
  have hlocated := hprepared.located
  refine ⟨merged, hmerged, fun hdelete => ?_,
    fun hupdate hkeys => ⟨?_, hunites.childrenOf .items, ?_⟩⟩
  · rw [hdelete] at hcells hsupported hlocated
    have hd : q.domain = .items := of_decide_eq_true hsupported
    obtain ⟨p, hp⟩ := Plan.place_assemble hprepared.nodup_slots hlocated hcells hr hd
    exact ⟨p, hp, Action.worksOn_delete hdelete ((Row.repoPath?_congr hentity).symm.trans hp)⟩
  · rw [hupdate] at hcells hsupported hlocated
    have hd : q.domain = .properties := of_decide_eq_true hsupported
    obtain ⟨c, p, hone, hp⟩ := Plan.places_assemble hprepared.nodup_slots hlocated hcells hr
    obtain ⟨b, hb, hbc⟩ := hunites.exists_mem_childrenOf hrun.1 (hone ▸ List.mem_singleton_self c)
    have hbp : b.repoPath? = some p := (Row.repoPath?_congr hbc).trans hp
    refine Action.worksOn_update hupdate hkeys ?_ ?_
    · exact (congrArg Prod.fst hentity).symm.trans ((Plan.domain_assemble hr).trans hd)
    · exact List.ne_nil_of_mem (List.mem_filterMap.2 ⟨b, hb, hbp⟩)
  -- A related row of the merged row has the entity of one in the run, which was read from cells of
  -- its own.
  · intro hall c hc
    rw [hupdate] at hlocated
    obtain ⟨s, hs, b, hb, hbc⟩ := hunites.exists_of_mem_childrenOf hc
    obtain ⟨other, hother, hs⟩ := hall s hs
    obtain ⟨b', p, hone, hp⟩ := Plan.places_assemble hprepared.nodup_slots hlocated hother hs
    rw [hone, List.mem_singleton] at hb
    rw [← hb] at hp
    exact ⟨p, (Row.repoPath?_congr hbc).symm.trans hp⟩

/-- An engine that asks for permissions only, unless a query says otherwise. -/
def Engine.idle : Engine := ⟨{}, .idle, .none⟩

theorem Engine.planned_idle {f : FluentQuery} {p : Plan} (h : (Query.ofFluent 0 f >>= fun q =>
      (q.compile .derby Engine.idle.surroundings).map Engine.idle.plan) = .ok p) :
    ∃ q st, Query.ofFluent 0 f = .ok q ∧ Engine.idle.compile q = .ok st ∧
      Engine.idle.plan st = p ∧ q.action.kind = p.action.kind ∧ q.action.keys = p.action.keys := by
  obtain ⟨q, hq, h⟩ := bind_eq_ok.1 h
  obtain ⟨st, hst, rfl⟩ := map_eq_ok.1 h
  have hcompile : Engine.idle.compile q = .ok st := congrArg Engine.unrun hst
  refine ⟨q, st, hq, hcompile, rfl, ?_, ?_⟩
  · rw [Engine.plan_of_compile hcompile]
    rfl
  · rw [Engine.plan_of_compile hcompile]
    rfl

/-- Deletes items. -/
def FluentQuery.deletion : FluentQuery :=
  FluentQuery.delete { domain := .items, includes := ["name"] }

/-- Gives the items of properties a licence. -/
def FluentQuery.licensing : FluentQuery :=
  FluentQuery.update { domain := .properties, includes := ["key"] } ["license"] (some "mit")

/-- What is known of the deletion: the name is returned once. -/
def Plan.ofDeletion : Plan where
  domain := .items
  fields := [.main .itemName .items, .main .itemRepo .items, .main .itemPath .items]
  action := ⟨.delete, true, [], none⟩

/-- What is known of the update. -/
def Plan.ofLicensing : Plan where
  domain := .properties
  fields := .main .propertyKey .properties :: ActionKind.located .updateProperty
  action := ⟨.updateProperty, true, ["license"], some "mit"⟩

/-- A property next to some items. -/
def Row.ofProperty (items : List Row) : Row where
  domain := .properties
  values := [(.propertyKey, .text "k")]
  children := items

/-- Deleting works on the item of a row, and updating on the items of two rows of a property. -/
theorem targets_found_ofTwoItems :
    (∃ q st merged, Query.ofFluent 0 .deletion = .ok q ∧ Engine.idle.compile q = .ok st ∧
      (Engine.idle.plan st).Locates q.action.kind [.text "a.jar", .text "libs", .text "."] ∧
      Merger.run {} [⟨.items, [(.itemName, .text "a.jar"), (.itemRepo, .text "libs"),
        (.itemPath, .text ".")], []⟩] = [merged] ∧
      (Engine.idle.plan st).action.WorksOn merged [⟨"libs", "a.jar"⟩]) ∧
    ∃ q st merged, Query.ofFluent 0 .licensing = .ok q ∧ Engine.idle.compile q = .ok st ∧
      (Engine.idle.plan st).Locates q.action.kind
        [.text "k", .text "libs", .text "org", .text "b.jar"] ∧
      Merger.run {} [.ofProperty [.ofItem "libs" "." "a.jar" []],
        .ofProperty [.ofItem "libs" "org" "b.jar" []]] = [merged] ∧
      (Engine.idle.plan st).action.WorksOn merged [⟨"libs", "a.jar"⟩, ⟨"libs", "org/b.jar"⟩] := by
  constructor
  · obtain ⟨q, st, hq, hcompile, hplan, hkind, -⟩ :=
      Engine.planned_idle (f := .deletion) (p := .ofDeletion) (by decide +kernel)
    have hlocates : (Engine.idle.plan st).Locates q.action.kind
        [.text "a.jar", .text "libs", .text "."] :=
      hplan ▸ Plan.locates_of_notNull (by decide) (by decide) _
    obtain ⟨r, hr, hall⟩ := targets_found Engine.idle (.inr ⟨_, hq⟩) hcompile hlocates
    rw [hplan] at hr hall
    obtain ⟨merged, hmerged, hdelete, -⟩ := hall [r] ⟨List.mem_singleton_self r,
      List.forall_mem_singleton.2 ⟨rfl, _, hr⟩⟩
    obtain ⟨p, hp, hworks⟩ := hdelete hkind
    obtain rfl := Except.ok.inj hr
    obtain rfl := Option.some.inj hp
    exact ⟨q, st, merged, hq, hcompile, hlocates, hmerged, hplan ▸ hworks⟩
  · obtain ⟨q, st, hq, hcompile, hplan, hkind, hkeys⟩ :=
      Engine.planned_idle (f := .licensing) (p := .ofLicensing) (by decide +kernel)
    have hlocates : (Engine.idle.plan st).Locates q.action.kind
        [.text "k", .text "libs", .text "org", .text "b.jar"] :=
      hplan ▸ Plan.locates_of_notNull (by decide) (by decide) _
    obtain ⟨r, hr, hall⟩ := targets_found Engine.idle (.inr ⟨_, hq⟩) hcompile hlocates
    rw [hplan] at hr hall
    obtain rfl := Except.ok.inj hr
    have hfirst : Plan.ofLicensing.assemble [.text "k", .text "libs", .text ".", .text "a.jar"] =
        .ok (.ofProperty [.ofItem "libs" "." "a.jar" []]) := rfl
    have hruns : Plan.ofLicensing.Runs (.ofProperty [.ofItem "libs" "org" "b.jar" []])
        [.ofProperty [.ofItem "libs" "." "a.jar" []],
          .ofProperty [.ofItem "libs" "org" "b.jar" []]] :=
      ⟨by simp, List.forall_mem_cons.2 ⟨⟨rfl, _, hfirst⟩,
        List.forall_mem_singleton.2 ⟨rfl, _, hr⟩⟩⟩
    obtain ⟨merged, hmerged, -, hupdate⟩ := hall _ hruns
    obtain rfl := (List.cons.inj hmerged).1
    obtain ⟨hworks, -⟩ := hupdate hkind (hkeys ▸ List.cons_ne_nil _ _)
    exact ⟨q, st, _, hq, hcompile, hlocates, hmerged, hplan ▸ hworks⟩

end ArtifactQuery
