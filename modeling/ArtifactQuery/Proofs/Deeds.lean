import ArtifactQuery.Proofs.MergedRows
import Mathlib.Tactic.ByContra

/-!
# What actions do

An action asks the host for what is due on each row, one call after the other, up to the first that
is refused. A refusal ends the work on its row and on no other.

* `Row.places`, `ActionSpec.due`: the places of the items that a row stands for, and the calls that
  are due on it.
* `Host.made`: those of them that are made.
* `Host.Does`: a computation makes the calls that are due and succeeds if all are granted.
* `Deed`, `ActionSpec.deeds`: what the action on one row comes to, and on rows one after the other.
* `deeds_account`: fetching a result and reading it on demand come to the same deeds.
-/

namespace ArtifactQuery

/-! ## Calls to the host -/

/-- Whether a call changes a repository. -/
def HostCall.mutates : HostCall → Bool
  | undeploy _ | edit _ _ _ => true
  | canRead _ | canDelete _ | canAnnotate _ | execute _ _ => false

namespace Host

/-- Whether the host does what it is asked, given the calls before. -/
def grants (h : Host) (calls : Calls) : HostCall → Bool
  | .canRead p => h.canRead calls p
  | .canDelete p => h.canDelete calls p
  | .canAnnotate p => h.canAnnotate calls p
  | .undeploy p => (h.undeploy calls p).isNone
  | .edit p key value => (h.edit calls p key value).isNone
  | .execute sql params => (h.execute calls sql params).isOk

/-- Whether the host does all that it is asked, one call after the other. -/
def grantsAll (h : Host) (calls : Calls) : List HostCall → Bool
  | [] => true
  | call :: due => h.grants calls call && h.grantsAll (calls ++ [call]) due

/-- Of the calls that are due, those up to the first that is refused. -/
def made (h : Host) (calls : Calls) : List HostCall → List HostCall
  | [] => []
  | call :: due => call :: if h.grants calls call then h.made (calls ++ [call]) due else []

variable {h : Host} {calls : Calls} {due due' : List HostCall}

theorem made_singleton (call : HostCall) : h.made calls [call] = [call] := by
  rw [made, made, ite_self]

theorem grantsAll_append : h.grantsAll calls (due ++ due') =
    (h.grantsAll calls due && h.grantsAll (calls ++ due) due') := by
  induction due generalizing calls with
  | nil => rw [List.nil_append, List.append_nil, grantsAll, Bool.true_and]
  | cons call due ih =>
    rw [List.cons_append, grantsAll, ih, grantsAll, Bool.and_assoc, List.append_assoc]
    rfl

/-- Calls that follow others are made if all of these are granted. -/
theorem made_append : h.made calls (due ++ due') =
    if h.grantsAll calls due then due ++ h.made (calls ++ due) due' else h.made calls due := by
  induction due generalizing calls with
  | nil => rw [grantsAll, if_pos rfl, List.append_nil, List.nil_append, List.nil_append]
  | cons call due ih =>
    rw [List.cons_append, made, made, grantsAll, ih, List.append_assoc]
    cases h.grants calls call with
    | false => rfl
    | true => cases h.grantsAll (calls ++ [call]) due <;> rfl

/-- Either all calls that are due are granted and made, or the last one that is made is refused. -/
theorem made_cases (h : Host) (calls : Calls) (due : List HostCall) :
    (h.grantsAll calls due = true ∧ h.made calls due = due) ∨
      ∃ done refused rest, due = done ++ refused :: rest ∧ h.grantsAll calls done = true ∧
        h.grants (calls ++ done) refused = false ∧ h.grantsAll calls due = false ∧
        h.made calls due = done ++ [refused] := by
  induction due generalizing calls with
  | nil => exact .inl ⟨rfl, rfl⟩
  | cons call due ih =>
    rw [grantsAll, made]
    cases hcall : h.grants calls call with
    | false => exact .inr ⟨[], call, due, rfl, rfl, by rw [List.append_nil, hcall], rfl, rfl⟩
    -- A granted call goes in front of whatever becomes of the others.
    | true =>
      rcases ih (calls ++ [call]) with
        ⟨hall, hmade⟩ | ⟨done, refused, rest, rfl, hdone, hrefused, hnot, hmade⟩
      · exact .inl ⟨hall, by rw [if_pos rfl, hmade]⟩
      · refine .inr ⟨call :: done, refused, rest, rfl, ?_, ?_, hnot, ?_⟩
        · rw [grantsAll, hcall, hdone]
          rfl
        · rw [← hrefused, List.append_assoc]
          rfl
        · rw [if_pos rfl, hmade]
          rfl

theorem made_of_grantsAll (hall : h.grantsAll calls due = true) : h.made calls due = due := by
  rcases made_cases h calls due with ⟨-, hmade⟩ | ⟨_, _, _, -, -, -, hnot, -⟩
  · exact hmade
  · cases hall.symm.trans hnot

theorem made_prefix (h : Host) (calls : Calls) (due : List HostCall) :
    h.made calls due <+: due := by
  rcases made_cases h calls due with ⟨-, hmade⟩ | ⟨done, refused, rest, rfl, -, -, -, hmade⟩
  · exact ⟨[], by rw [hmade, List.append_nil]⟩
  · rw [hmade]
    exact ⟨rest, (List.append_cons done refused rest).symm⟩

/-- A computation makes the calls that are due, up to the first that is refused. It succeeds if none
is, and fails otherwise. -/
def Does (h : Host) (m : Hosted (Except ActionFailure Unit)) (due : List HostCall) : Prop :=
  ∀ calls, (h.grantsAll calls due = true ∧ m calls = (.ok (), calls ++ due)) ∨
    (h.grantsAll calls due = false ∧ ∃ f, m calls = (.error f, calls ++ h.made calls due))

variable {m m' : Hosted (Except ActionFailure Unit)}

theorem does_nothing (h : Host) : h.Does (return .ok ()) [] := fun calls =>
  .inl ⟨rfl, by rw [List.append_nil, Hosted.pure_apply]⟩

/-- One call, whose refusal is a failure. -/
theorem does_call {call : HostCall} (hm : ∀ calls, ∃ f,
    m calls = (if h.grants calls call then .ok () else .error f, calls ++ [call])) :
    h.Does m [call] := by
  intro calls
  obtain ⟨f, hf⟩ := hm calls
  rw [hf, made_singleton, grantsAll, grantsAll, Bool.and_true]
  cases h.grants calls call with
  | true => exact .inl ⟨rfl, rfl⟩
  | false => exact .inr ⟨rfl, f, rfl⟩

/-- A computation and then another one, unless the first one fails. -/
theorem Does.andThen (hm : h.Does m due) (hm' : h.Does m' due') :
    h.Does (do
      match ← m with
      | .error f => return .error f
      | .ok () => m') (due ++ due') := by
  intro calls
  rw [Hosted.bind_apply, grantsAll_append, made_append]
  rcases hm calls with ⟨hall, hrun⟩ | ⟨hnot, f, hrun⟩
  · rw [hrun, hall, if_pos rfl, Bool.true_and, ← List.append_assoc, ← List.append_assoc]
    exact hm' (calls ++ due)
  · rw [hrun, hnot]
    exact .inr ⟨rfl, f, rfl⟩

end Host

/-! ## Calls due on a row -/

/-- The places of the items that a row stands for: its own, or those of the rows right below it, in
their order. Only items have places. -/
def Row.places (r : Row) : List RepoPath :=
  match r.repoPath? with
  | some p => [p]
  | none => r.children.filterMap Row.repoPath?

/-- The calls by which a place is updated: one that asks whether that may be done, or one for every
key. -/
def ActionSpec.dueAt (s : ActionSpec) (dry : Bool) (p : RepoPath) : List HostCall :=
  if dry then [.canAnnotate p] else s.keys.map fun key => .edit p key s.newValue

/-- The calls that are due on a row. Where something that the action requires is missing, there are
none. -/
def ActionSpec.due (s : ActionSpec) (dry : Bool) (r : Row) : List HostCall :=
  match s.kind with
  | .find => []
  | .delete => r.repoPath?.toList.map fun p => if dry then .canDelete p else .undeploy p
  | .updateProperty =>
    if r.domain = .properties ∧ s.keys ≠ [] then r.places.flatMap (s.dueAt dry) else []

/-- Whether a row has what the action requires: deleting takes the place of an item, updating takes
a property, keys to set, and items to set them on. -/
def ActionSpec.fits (s : ActionSpec) (r : Row) : Bool :=
  match s.kind with
  | .find => true
  | .delete => r.repoPath?.isSome
  | .updateProperty => r.domain = .properties ∧ s.keys ≠ [] ∧ r.places ≠ []

/-- On a row without what the action requires, nothing is due. -/
theorem ActionSpec.due_of_unfit {s : ActionSpec} {r : Row} (hfits : s.fits r = false) (dry : Bool) :
    s.due dry r = [] := by
  obtain ⟨_ | _ | _, _, keys, value⟩ := s
  · cases hfits
  · have hp : r.repoPath? = none := Option.not_isSome_iff_eq_none.1 (Bool.not_eq_true _ ▸ hfits)
    rw [due, hp]
    rfl
  · have hmissing := of_decide_eq_false hfits
    show (if _ then _ else _) = _
    split
    · rename_i hsupported
      have hplaces : r.places = [] := by
        by_contra hplaces
        exact hmissing ⟨hsupported.1, hsupported.2, hplaces⟩
      rw [hplaces, List.flatMap_nil]
    · rfl

namespace Action

/-- Only items have a place of their own. -/
theorem domain_of_repoPath? {r : Row} {p : RepoPath} (hp : r.repoPath? = some p) :
    r.domain = .items := by
  rw [Row.repoPath?] at hp
  split at hp
  · cases hp
  · rename_i h
    exact Decidable.not_not.1 h

/-- An update works on the places of the items that a row stands for. -/
theorem targets_eq_places (r : Row) : targets r = r.places := by
  have hitems : (r.childrenOf .items).filterMap Row.repoPath? =
      r.children.filterMap Row.repoPath? := by
    rw [Row.childrenOf, List.filterMap_filter]
    refine List.filterMap_congr fun c _ => ?_
    cases hc : c.repoPath? with
    | none => rw [ite_self]
    | some p => rw [if_pos (decide_eq_true (domain_of_repoPath? hc))]
  cases hr : r.repoPath? with
  | none => simp only [targets, Row.places, hr, hitems]
  | some p => simp only [targets, Row.places, hr]

variable (h : Host)

theorem does_deleteAt (dry : Bool) (p : RepoPath) :
    h.Does (deleteAt h dry p) [if dry then .canDelete p else .undeploy p] := by
  refine Host.does_call fun calls => ?_
  cases dry with
  | true => exact ⟨.mayNotDelete p, rfl⟩
  | false =>
    rw [deleteAt, if_neg Bool.false_ne_true, Hosted.bind_apply, if_neg Bool.false_ne_true,
      Host.grants, Host.deletes, Host.ask]
    cases h.undeploy calls p with
    | none => exact ⟨.noItem, rfl⟩
    | some cause => exact ⟨.notDeleted p cause, rfl⟩

theorem does_setKeys (value : Option String) (p : RepoPath) (keys : List String) :
    h.Does (setKeys h value p keys) (keys.map fun key => .edit p key value) := by
  induction keys with
  | nil => exact Host.does_nothing h
  | cons key keys ih =>
    intro calls
    rw [setKeys, Hosted.bind_apply, List.map_cons, Host.grantsAll, Host.made, Host.grants,
      Host.edits, Host.ask]
    cases h.edit calls p key value with
    | some cause => exact .inr ⟨rfl, .notSet key value p cause, rfl⟩
    | none =>
      have hrest := ih (calls ++ [.edit p key value])
      rw [List.append_assoc, List.append_assoc] at hrest
      exact hrest

theorem does_updateAt (s : ActionSpec) (dryDefault : Bool) (p : RepoPath) :
    h.Does ((ofSpec dryDefault s).updateAt h p) (s.dueAt (s.dryRun.getD dryDefault) p) := by
  rw [updateAt, ofSpec, ActionSpec.dueAt]
  cases s.dryRun.getD dryDefault with
  | true => exact Host.does_call fun calls => ⟨.mayNotAnnotate p, rfl⟩
  | false => exact does_setKeys h s.newValue p s.keys

theorem does_updateAll (s : ActionSpec) (dryDefault : Bool) (ps : List RepoPath) :
    h.Does ((ofSpec dryDefault s).updateAll h ps)
      (ps.flatMap (s.dueAt (s.dryRun.getD dryDefault))) := by
  induction ps with
  | nil => exact Host.does_nothing h
  | cons p ps ih => exact (does_updateAt h s dryDefault p).andThen ih

/-- On a row that has what it requires, the action makes the calls that are due. -/
theorem does_run {s : ActionSpec} {r : Row} (hfits : s.fits r = true) (dryDefault : Bool) :
    h.Does ((ofSpec dryDefault s).run h r) (s.due (s.dryRun.getD dryDefault) r) := by
  obtain ⟨_ | _ | _, dry, keys, value⟩ := s
  · exact Host.does_nothing h
  · obtain ⟨p, hp⟩ := Option.isSome_iff_exists.1 hfits
    simp only [run, ofSpec, ActionKind.supports, domain_of_repoPath? hp, hp, ActionSpec.due,
      decide_true, not_true_eq_false, if_false]
    exact does_deleteAt h _ p
  · obtain ⟨hdomain, hkeys, hplaces⟩ := of_decide_eq_true hfits
    simp only [run, ofSpec, ActionKind.supports, hdomain, ActionSpec.due, targets_eq_places,
      decide_true, not_true_eq_false, if_false, if_neg hplaces]
    simp only at hkeys
    rw [if_neg hkeys, if_pos ⟨trivial, hkeys⟩]
    exact does_updateAll h ⟨.updateProperty, dry, keys, value⟩ dryDefault _

/-- On any other row the action fails without a call. -/
theorem run_of_unfit {s : ActionSpec} {r : Row} (hfits : s.fits r = false) (dryDefault : Bool)
    (calls : Calls) : ∃ f, (ofSpec dryDefault s).run h r calls = (.error f, calls) := by
  obtain ⟨_ | _ | _, dry, keys, value⟩ := s
  · cases hfits
  · have hp : r.repoPath? = none := Option.not_isSome_iff_eq_none.1 (Bool.not_eq_true _ ▸ hfits)
    rw [run]
    split
    · exact ⟨_, rfl⟩
    · refine ⟨.noItem, ?_⟩
      dsimp only [ofSpec]
      rw [hp]
      rfl
  · have hmissing := of_decide_eq_false hfits
    rw [run]
    split
    · exact ⟨_, rfl⟩
    · rename_i hsupports
      have hdomain : r.domain = .properties := of_decide_eq_true (not_not.1 hsupports)
      rcases keys with _ | ⟨key, keys⟩
      · exact ⟨_, rfl⟩
      · have hplaces : targets r = [] := by
          rw [targets_eq_places]
          by_contra hplaces
          exact hmissing ⟨hdomain, List.cons_ne_nil key keys, hplaces⟩
        simp only [ofSpec, hplaces, if_true]
        exact ⟨_, rfl⟩

/-- The action on a row makes the calls that are due. It hands the row out if the row has what it
requires and all of them are granted. -/
theorem settle_eq {p : Plan} {s : ActionSpec} {dryDefault : Bool}
    (hp : p.action = .ofSpec dryDefault s) (r : Row) (calls : Calls) :
    p.settle h (some r) calls =
      (if s.fits r && h.grantsAll calls (s.due (s.dryRun.getD dryDefault) r) then [r] else [],
        calls ++ h.made calls (s.due (s.dryRun.getD dryDefault) r)) := by
  rw [Plan.settle, hp, Hosted.bind_apply, apply, Hosted.bind_apply]
  cases hfits : s.fits r with
  | false =>
    obtain ⟨f, hrun⟩ := run_of_unfit h hfits dryDefault calls
    rw [hrun, s.due_of_unfit hfits, Host.made, List.append_nil]
    rfl
  | true =>
    rcases does_run h hfits dryDefault calls with ⟨hall, hrun⟩ | ⟨hnot, f, hrun⟩
    · rw [hrun, hall, Host.made_of_grantsAll hall]
      rfl
    · rw [hrun, hnot]
      rfl

end Action

/-! ## Deeds -/

/-- What the action on a row comes to. -/
structure Deed where
  row : Row
  /-- The calls made. -/
  made : List HostCall
  /-- Whether the row is handed out. -/
  kept : Bool

namespace Deed

/-- The rows handed out. -/
def keptRows (deeds : List Deed) : List Row := (deeds.filter kept).map row

theorem keptRows_cons (d : Deed) (deeds : List Deed) :
    keptRows (d :: deeds) = (if d.kept then [d.row] else []) ++ keptRows deeds := by
  rw [keptRows, List.filter_cons]
  cases d.kept <;> rfl

/-- The calls made, those on the first row first. -/
def calls (deeds : List Deed) : List HostCall := deeds.flatMap made

/-- Whether a deed is what the action on its row comes to, given the calls before: all that is due
on the row is granted, and the row is handed out if it has what the action requires; or the calls
end with the first that is refused, and the row is not handed out. -/
def Settles (h : Host) (s : ActionSpec) (dry : Bool) (before : Calls) (d : Deed) : Prop :=
  (h.grantsAll before (s.due dry d.row) = true ∧ d.made = s.due dry d.row ∧ d.kept = s.fits d.row) ∨
    ∃ done refused rest, s.due dry d.row = done ++ refused :: rest ∧
      h.grantsAll before done = true ∧ h.grants (before ++ done) refused = false ∧
      d.made = done ++ [refused] ∧ d.kept = false

end Deed

namespace ActionSpec

/-- What the action on rows comes to, one after the other. -/
def deeds (h : Host) (s : ActionSpec) (dry : Bool) (calls : Calls) : List Row → List Deed
  | [] => []
  | r :: rs =>
    let made := h.made calls (s.due dry r)
    ⟨r, made, s.fits r && h.grantsAll calls (s.due dry r)⟩ :: s.deeds h dry (calls ++ made) rs

variable {h : Host} {s : ActionSpec} {dry : Bool} {calls : Calls} {rows : List Row}

theorem row_deeds : (s.deeds h dry calls rows).map Deed.row = rows := by
  induction rows generalizing calls with
  | nil => rfl
  | cons r rs ih => rw [deeds, List.map_cons, ih]

/-- Deeds settle their rows, each after those in front of it. -/
theorem settles_deeds {before after : List Deed} {d : Deed}
    (hd : s.deeds h dry calls rows = before ++ d :: after) :
    d.Settles h s dry (calls ++ Deed.calls before) := by
  induction rows generalizing calls before with
  | nil => simp [deeds] at hd
  | cons r rs ih =>
    rw [deeds] at hd
    cases before with
    | nil =>
      obtain ⟨rfl, -⟩ := List.cons.inj hd
      rw [Deed.calls, List.flatMap_nil, List.append_nil, Deed.Settles]
      rcases h.made_cases calls (s.due dry r) with
        ⟨hall, hmade⟩ | ⟨done, refused, rest, hdue, hdone, hrefused, hnot, hmade⟩
      · exact .inl ⟨hall, hmade, by rw [hall, Bool.and_true]⟩
      · exact .inr ⟨done, refused, rest, hdue, hdone, hrefused, hmade, by rw [hnot, Bool.and_false]⟩
    | cons first before =>
      obtain ⟨rfl, hrest⟩ := List.cons.inj hd
      rw [Deed.calls, List.flatMap_cons, ← List.append_assoc]
      exact ih hrest

/-- Nothing is called that is not due on one of the rows. -/
theorem due_of_mem_calls {call : HostCall} (hcall : call ∈ Deed.calls (s.deeds h dry calls rows)) :
    ∃ r ∈ rows, call ∈ s.due dry r := by
  induction rows generalizing calls with
  | nil => cases hcall
  | cons r rs ih =>
    rw [deeds, Deed.calls, List.flatMap_cons] at hcall
    rcases List.mem_append.1 hcall with hfirst | hrest
    · exact ⟨r, List.mem_cons_self, (h.made_prefix calls _).subset hfirst⟩
    · obtain ⟨r', hr', hdue⟩ := ih hrest
      exact ⟨r', List.mem_cons_of_mem r hr', hdue⟩

/-- In a dry run no call changes a repository. -/
theorem mutates_of_mem_due {r : Row} {call : HostCall} (hcall : call ∈ s.due true r) :
    call.mutates = false := by
  obtain ⟨_ | _ | _, _, keys, value⟩ := s
  · cases hcall
  · obtain ⟨p, -, rfl⟩ := List.mem_map.1 hcall
    rfl
  · rw [due] at hcall
    dsimp only at hcall
    split at hcall
    · obtain ⟨p, -, hp⟩ := List.mem_flatMap.1 hcall
      obtain rfl : call = .canAnnotate p := List.mem_singleton.1 hp
      rfl
    · cases hcall

/-- Deleting calls for each place of an item, once. -/
theorem calls_of_delete (hs : s.kind = .delete) : Deed.calls (s.deeds h dry calls rows) =
    (rows.filterMap Row.repoPath?).map fun p => if dry then .canDelete p else .undeploy p := by
  induction rows generalizing calls with
  | nil => rfl
  | cons r rs ih =>
    rw [deeds, Deed.calls, List.flatMap_cons, ← Deed.calls, ih]
    simp only [due, hs]
    cases hp : r.repoPath? with
    | none =>
      rw [List.filterMap_cons_none hp, Option.toList_none, List.map_nil, Host.made,
        List.nil_append]
    | some p =>
      rw [List.filterMap_cons_some hp, List.map_cons, Option.toList_some, List.map_singleton,
        Host.made_singleton, List.singleton_append]

end ActionSpec

/-- Acting on entities comes to the deeds on them. -/
theorem Plan.settleAll_eq_deeds {h : Host} {p : Plan} {s : ActionSpec} {dryDefault : Bool}
    (hp : p.action = .ofSpec dryDefault s) (rows : List Row) (calls : Calls) :
    p.settleAll h rows calls = (Deed.keptRows (s.deeds h (s.dryRun.getD dryDefault) calls rows),
      calls ++ Deed.calls (s.deeds h (s.dryRun.getD dryDefault) calls rows)) := by
  induction rows generalizing calls with
  | nil => simp [settleAll, ActionSpec.deeds, Deed.keptRows, Deed.calls, Hosted.pure_apply]
  | cons r rs ih =>
    rw [settleAll, Hosted.bind_apply, Action.settle_eq h hp, Hosted.bind_apply, ih,
      ActionSpec.deeds, Deed.keptRows_cons, Deed.calls, Deed.calls, List.flatMap_cons,
      ← List.append_assoc]
    rfl

/-- Where no read fails, all entities are complete. -/
theorem LazyResult.complete_of_no_failure {p : Plan} {c : Cursor}
    (hend : p.failure? c.reads = none) :
    (start p c).complete = Row.entities (p.rows c.reads) := by
  have hfailure : (start p c).failure? = none := hend
  rw [complete, hfailure, Plan.upTo, ← Plan.rows_of_no_failure hend]
  rfl

open LazyResult in
/-- Reading a result to its end, at once or on demand, comes to the same deeds, one for each merged
row in order. The rows handed out and the calls made are those of the deeds, so that a refusal on
one row undoes and repeats nothing on those in front of it. Nothing is called to find rows. Deleting
calls once for each place of an item, in order. In a dry run, asked for by the query or else by the
settings, no call changes a repository. -/
theorem deeds_account (h : Host) {p : Plan} {s : ActionSpec} {dryDefault : Bool}
    (hp : p.action = .ofSpec dryDefault s) {c : Cursor} (hopen : c.closed = false)
    (hend : p.failure? c.reads = none) (calls : Calls) :
    ∃ deeds : List Deed, deeds.map Deed.row = Row.entities (p.rows c.reads) ∧
      (∀ before d after, deeds = before ++ d :: after →
        d.Settles h s (s.dryRun.getD dryDefault) (calls ++ Deed.calls before)) ∧
      ((EagerResult.fetch h p c calls).1.1.map EagerResult.rows =
          c.close.1.map (fun _ => Deed.keptRows deeds) ∧
        (EagerResult.fetch h p c calls).2 = calls ++ Deed.calls deeds) ∧
      (∃ t mid u, (start p c).Pulls h calls ((Deed.keptRows deeds).map .ok) t mid ∧
        t.next h mid = ((none, u), calls ++ Deed.calls deeds)) ∧
      (s.kind = .find → Deed.calls deeds = []) ∧
      (s.kind = .delete → Deed.calls deeds = (deeds.filterMap (·.row.repoPath?)).map fun p =>
        if s.dryRun.getD dryDefault then .canDelete p else .undeploy p) ∧
      (s.dryRun.getD dryDefault = true → ∀ call ∈ Deed.calls deeds, call.mutates = false) := by
  have hr : (start p c).Running := running_start hopen p
  have hfailure : (start p c).failure? = none := hend
  -- Both ways of reading settle the same entities one after the other, and settling them comes to
  -- the deeds.
  have hsettle := p.settleAll_eq_deeds (h := h) hp (Row.entities (p.rows c.reads)) calls
  rw [← complete_of_no_failure hend] at hsettle
  obtain ⟨hfetch, hlast⟩ := EagerResult.fetch_eq hr hsettle
  rw [hfailure] at hfetch
  have hpulls := (pulls_end_iff hr (by rintro x ⟨⟩)).2
    ⟨(congrArg (Option.map Except.error) hfailure).symm, hsettle⟩
  rw [complete_of_no_failure hend] at hfetch hlast hpulls
  refine ⟨_, ActionSpec.row_deeds, fun _ _ _ => ActionSpec.settles_deeds, ⟨hfetch, hlast⟩, hpulls,
    fun hs => ?_, fun hs => ?_, fun hdry call hcall => ?_⟩
  · refine List.eq_nil_iff_forall_not_mem.2 fun call hcall => ?_
    obtain ⟨r, -, hdue⟩ := ActionSpec.due_of_mem_calls hcall
    rw [ActionSpec.due, hs] at hdue
    cases hdue
  · rw [ActionSpec.calls_of_delete hs]
    have hplaces := List.filterMap_map (f := Deed.row) (g := Row.repoPath?)
      (l := s.deeds h (s.dryRun.getD dryDefault) calls (Row.entities (p.rows c.reads)))
    rw [ActionSpec.row_deeds] at hplaces
    rw [hplaces]
    rfl
  · obtain ⟨r, -, hdue⟩ := ActionSpec.due_of_mem_calls hcall
    rw [hdry] at hdue
    exact ActionSpec.mutates_of_mem_due hdue

/-- What sets two keys on the items of a property. -/
def Plan.update : Plan where
  domain := .properties
  fields := [.main .propertyKey .properties, ⟨.itemRepo, [.properties, .items]⟩,
    ⟨.itemPath, [.properties, .items]⟩, ⟨.itemName, [.properties, .items]⟩]
  action := { kind := .updateProperty, dryRun := false, keys := ["k", "l"], newValue := some "v" }

/-- A host that sets all keys but one on one item. -/
def Host.keepsOneKey : Host where
  edit _ p key _ := if p = ⟨"r", "b"⟩ ∧ key = "k" then some (.execution (.readOnly key p)) else none
  execute _ _ _ := .ok { reads := [] }

/-- A property of two items, and one of a third item. -/
def Cursor.ofTwoProperties : Cursor := .ofRows
  [[.text "license", .text "r", .text ".", .text "a"],
    [.text "license", .text "r", .text ".", .text "b"],
    [.text "scan", .text "r", .text ".", .text "c"]]

/-- Deleting two items, although the settings ask for dry runs, calls once for each of them, and the
second deletion, which fails, leaves the first one as it is. Setting two keys ends at the first that
is not set, on its row only. -/
theorem deeds_account_deletionAndUpdate :
    (Plan.deletion.action = .ofSpec true { kind := .delete, dryRun := some false } ∧
      Cursor.ofTwoItems.closed = false ∧ Plan.deletion.failure? Cursor.ofTwoItems.reads = none ∧
      ∃ deeds : List Deed, Deed.calls deeds = [.undeploy ⟨"r", "a"⟩, .undeploy ⟨"r", "b"⟩] ∧
        (EagerResult.fetch .deletesOnce .deletion .ofTwoItems []).2 = Deed.calls deeds ∧
        (EagerResult.fetch .deletesOnce .deletion .ofTwoItems []).1.1.map EagerResult.rows =
          .ok (Deed.keptRows deeds)) ∧
    Plan.update.action = .ofSpec true { kind := .updateProperty, dryRun := some false
                                        keys := ["k", "l"], newValue := some "v" } ∧
      Cursor.ofTwoProperties.closed = false ∧
      Plan.update.failure? Cursor.ofTwoProperties.reads = none ∧
      ∃ deeds : List Deed, deeds.map (fun d => (d.row.get? .propertyKey, d.row.places)) =
          [(some (.text "license"), [⟨"r", "a"⟩, ⟨"r", "b"⟩]),
            (some (.text "scan"), [⟨"r", "c"⟩])] ∧
        Deed.calls deeds = [.edit ⟨"r", "a"⟩ "k" (some "v"), .edit ⟨"r", "a"⟩ "l" (some "v"),
          .edit ⟨"r", "b"⟩ "k" (some "v"), .edit ⟨"r", "c"⟩ "k" (some "v"),
          .edit ⟨"r", "c"⟩ "l" (some "v")] ∧
        (EagerResult.fetch .keepsOneKey .update .ofTwoProperties []).2 = Deed.calls deeds ∧
        (Deed.keptRows deeds).map (·.get? .propertyKey) = [some (.text "scan")] := by
  constructor
  · have haction : Plan.deletion.action = .ofSpec true { kind := .delete, dryRun := some false } :=
      rfl
    have hend : Plan.deletion.failure? Cursor.ofTwoItems.reads = none := by decide +kernel
    obtain ⟨deeds, hrows, -, ⟨hfetch, hlast⟩, -, -, hdelete, -⟩ :=
      deeds_account .deletesOnce haction (c := .ofTwoItems) rfl hend []
    have hplaces : (deeds.map Deed.row).filterMap Row.repoPath? = [⟨"r", "a"⟩, ⟨"r", "b"⟩] := by
      rw [hrows]
      decide +kernel
    -- The rows of the deeds are the merged ones, so their places can be computed.
    rw [List.filterMap_map] at hplaces
    refine ⟨haction, rfl, hend, deeds, (hdelete rfl).trans ?_, hlast, hfetch⟩
    exact congrArg (List.map HostCall.undeploy) hplaces
  · have haction : Plan.update.action = .ofSpec true { kind := .updateProperty, dryRun := some false
                                                       keys := ["k", "l"], newValue := some "v" } :=
      rfl
    have hend : Plan.update.failure? Cursor.ofTwoProperties.reads = none := by decide +kernel
    obtain ⟨deeds, hrows, -, ⟨hfetch, hlast⟩, -⟩ :=
      deeds_account .keepsOneKey haction (c := .ofTwoProperties) rfl hend []
    have hplaces : (deeds.map Deed.row).map (fun r => (r.get? .propertyKey, r.places)) =
        [(some (.text "license"), [⟨"r", "a"⟩, ⟨"r", "b"⟩]),
          (some (.text "scan"), [⟨"r", "c"⟩])] := by
      rw [hrows]
      decide +kernel
    have hcalls : (EagerResult.fetch .keepsOneKey .update .ofTwoProperties []).2 =
        [.edit ⟨"r", "a"⟩ "k" (some "v"), .edit ⟨"r", "a"⟩ "l" (some "v"),
          .edit ⟨"r", "b"⟩ "k" (some "v"), .edit ⟨"r", "c"⟩ "k" (some "v"),
          .edit ⟨"r", "c"⟩ "l" (some "v")] := by decide +kernel
    have hkept : (EagerResult.fetch .keepsOneKey .update .ofTwoProperties []).1.1.map
        (·.rows.map (·.get? .propertyKey)) = .ok [some (.text "scan")] := by decide +kernel
    rw [List.map_map] at hplaces
    refine ⟨haction, rfl, hend, deeds, hplaces, hlast.symm.trans hcalls, hlast, ?_⟩
    cases hresult : (EagerResult.fetch .keepsOneKey .update .ofTwoProperties []).1.1 with
    | error e =>
      rw [hresult] at hkept
      cases hkept
    | ok r =>
      rw [hresult] at hkept hfetch
      have hrows : r.rows = Deed.keptRows deeds := Except.ok.inj hfetch
      rw [← hrows]
      exact Except.ok.inj hkept

end ArtifactQuery
