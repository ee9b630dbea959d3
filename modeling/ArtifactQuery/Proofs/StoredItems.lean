import ArtifactQuery.Store
import Mathlib.Data.List.Basic
import Mathlib.Data.List.Nodup
import Mathlib.Data.List.Forall2

/-!
# Changes of a store

Items differ in number and in place, and properties and statistics belong to items. Whatever is
asked of such a store, it stays one, and each change concerns the item that it names and no other.

* `Store.Sound`: what is required of a store.
* `folderAndName_ofColumns`: the columns of an item are read back from its path.
* `StoreChange`, `Store.perform`, `Store.performAll`: one change, refused or done, and several.
* `perform_cases`: what a change does, by the item at its place.
* `Sound.perform`, `Sound.performAll`: the requirements are kept.
* `perform_comm`: changes of different items can be exchanged.
* `integrity_kept`: all of this of any store that changes lead to.
-/

namespace ArtifactQuery

/-! ## Paths of stored items -/

/-- The columns of an item with a folder and a plain name are read back from its path. -/
theorem RepoPath.folderAndName_ofColumns (repo : String) {folder name : String}
    (hfolder : folder ≠ "") (hname : name ≠ "") (hplain : '/' ∉ name.toList) :
    (ofColumns repo folder name).folderAndName = (folder, name) := by
  have hreversed : ∀ c ∈ name.toList.reverse, (decide (c ≠ '/')) = true := by
    intro c hc
    have hne : c ≠ '/' := fun h => hplain (h ▸ List.mem_reverse.1 hc)
    exact decide_eq_true hne
  by_cases hroot : folder = rootFolder
  · have hpath : ofColumns repo folder name = ⟨repo, name⟩ := by
      rw [ofColumns, if_pos (.inr hroot)]
    rw [hpath, folderAndName]
    simp [hplain, hroot]
  · have hpath : ofColumns repo folder name = ⟨repo, folder ++ "/" ++ name⟩ := by
      rw [ofColumns, if_neg (not_or.2 ⟨hfolder, hroot⟩), if_neg hname]
    -- Read from its end, the path is the name, the last separator and the folder.
    have hchars : (folder ++ "/" ++ name).toList.reverse =
        name.toList.reverse ++ '/' :: folder.toList.reverse := by
      simp
    have htake : (name.toList.reverse ++ '/' :: folder.toList.reverse).takeWhile (· ≠ '/') =
        name.toList.reverse := by
      rw [List.takeWhile_append_of_pos hreversed]
      simp
    have hdrop : (name.toList.reverse ++ '/' :: folder.toList.reverse).dropWhile (· ≠ '/') =
        '/' :: folder.toList.reverse := by
      rw [List.dropWhile_append_of_pos hreversed]
      simp
    rw [hpath, folderAndName]
    simp only [hchars, htake, hdrop]
    simp

namespace StoredItem

/-- The path of an item. -/
def path (i : StoredItem) : RepoPath := .ofColumns i.repo i.folder i.name

/-- The columns by which an item is found. -/
def columns (i : StoredItem) : String × String × String := (i.repo, i.folder, i.name)

end StoredItem

/-! ## Stores -/

namespace Store

/-- Items have different numbers and different places, a folder, and a name that is no path. All
properties and statistics belong to an item. -/
structure Sound (s : Store) : Prop where
  ids : (s.items.map (·.id)).Nodup
  places : (s.items.map StoredItem.columns).Nodup
  folders : ∀ i ∈ s.items, i.folder ≠ ""
  names : ∀ i ∈ s.items, i.name ≠ "" ∧ '/' ∉ i.name.toList
  properties : ∀ q ∈ s.properties, ∃ i ∈ s.items, i.id = q.item
  statistics : ∀ q ∈ s.statistics, ∃ i ∈ s.items, i.id = q.item

variable {s : Store} {p : RepoPath} {i j : StoredItem}

theorem isAt_iff : isAt p i = true ↔ i.columns = (p.repo, p.folderAndName) := by
  simp [isAt, StoredItem.columns]

theorem Sound.eq_of_id (hs : s.Sound) (hi : i ∈ s.items) (hj : j ∈ s.items) (h : i.id = j.id) :
    i = j :=
  List.inj_on_of_nodup_map hs.ids hi hj h

theorem Sound.eq_of_isAt (hs : s.Sound) (hi : i ∈ s.items) (hj : j ∈ s.items)
    (hip : isAt p i = true) (hjp : isAt p j = true) : i = j :=
  List.inj_on_of_nodup_map hs.places hi hj ((isAt_iff.1 hip).trans (isAt_iff.1 hjp).symm)

theorem Sound.find?_of_isAt (hs : s.Sound) (hi : i ∈ s.items) (hp : isAt p i = true) :
    s.find? p = some i.id := by
  rw [find?, List.min?_eq_some_iff]
  constructor
  · exact List.mem_map.2 ⟨i, List.mem_filter.2 ⟨hi, hp⟩, rfl⟩
  · intro n hn
    obtain ⟨j, hj, rfl⟩ := List.mem_map.1 hn
    obtain ⟨hjs, hjp⟩ := List.mem_filter.1 hj
    exact Int.le_of_eq (congrArg StoredItem.id (hs.eq_of_isAt hi hjs hp hjp))

theorem find?_of_missing (h : ∀ i ∈ s.items, ¬ isAt p i = true) : s.find? p = none := by
  rw [find?, List.filter_eq_nil_iff.2 h]
  rfl

theorem exists_of_find? {id : Int} (h : s.find? p = some id) :
    ∃ i ∈ s.items, isAt p i = true ∧ i.id = id := by
  obtain ⟨i, hi, rfl⟩ := List.mem_map.1 (List.min?_mem h)
  obtain ⟨his, hip⟩ := List.mem_filter.1 hi
  exact ⟨i, his, hip, rfl⟩

/-- The path of a stored item leads to this item only. -/
theorem Sound.isAt_path (hs : s.Sound) (hi : i ∈ s.items) (hj : j ∈ s.items) :
    isAt i.path j = true ↔ j = i := by
  have hself : isAt i.path i = true := by
    obtain ⟨hname, hplain⟩ := hs.names i hi
    have hcolumns := RepoPath.folderAndName_ofColumns i.repo (hs.folders i hi) hname hplain
    have hrepo : i.path.repo = i.repo := by
      rw [StoredItem.path, RepoPath.ofColumns]
      split_ifs <;> rfl
    rw [isAt_iff, hrepo, StoredItem.path, hcolumns]
    rfl
  constructor
  · intro hp
    exact hs.eq_of_isAt hj hi hp hself
  · rintro rfl
    exact hself

end Store

/-! ## Changes -/

/-- What is asked of a store. -/
inductive StoreChange
  | undeploy (p : RepoPath)
  | edit (p : RepoPath) (key : String) (value : Option String)

namespace StoreChange

/-- The place that a change is about. -/
def place : StoreChange → RepoPath
  | undeploy p | edit p _ _ => p

/-- The answer to a change: done, or the error of the deletion or of the setting. -/
abbrev Answer := Except (MutationFailure ⊕ RunError) Unit

/-- The error of a change at a place where no item is stored. -/
def notFound : StoreChange → MutationFailure ⊕ RunError
  | undeploy p => .inl (.itemNotFound p)
  | edit p _ _ => .inr (.execution (.itemNotFound p))

end StoreChange

/-- A property after the value of a key of an item has been set. -/
def StoredProperty.valued (id : Int) (key : String) (value : Option String) (q : StoredProperty) :
    StoredProperty :=
  if q.item = id ∧ q.key = key then { q with value := value } else q

namespace StoredProperty

variable {id id' : Int} {key key' : String} {value value' : Option String}

@[simp] theorem item_valued (q : StoredProperty) : (q.valued id key value).item = q.item := by
  rw [valued]
  split <;> rfl

@[simp] theorem key_valued (q : StoredProperty) : (q.valued id key value).key = q.key := by
  rw [valued]
  split <;> rfl

theorem value_valued (q : StoredProperty) : (q.valued id key value).value =
    if q.item = id ∧ q.key = key then value else q.value := by
  rw [valued]
  split <;> rfl

/-- Properties of different items are set one as the other. -/
theorem valued_comm (h : id ≠ id') (q : StoredProperty) :
    (q.valued id key value).valued id' key' value' =
      (q.valued id' key' value').valued id key value := by
  by_cases hid : q.item = id
  · have hother : ∀ r : StoredProperty, r.item = id → r.valued id' key' value' = r := by
      intro r hr
      rw [valued, if_neg fun hr' => h (hr.symm.trans hr'.1)]
    rw [hother q hid, hother _ ((item_valued q).trans hid)]
  · have hother : ∀ r : StoredProperty, r.item ≠ id → r.valued id key value = r := by
      intro r hr
      rw [valued, if_neg fun hr' => hr hr'.1]
    rw [hother q hid, hother _ (fun hr => hid ((item_valued q).symm.trans hr))]

end StoredProperty

namespace Store

/-- Performs a change. When it is refused, the store stays as it is. -/
def perform (s : Store) : StoreChange → StoreChange.Answer × Store
  | .undeploy p => match s.undeploy p with
    | .ok t => (.ok (), t)
    | .error e => (.error (.inl e), s)
  | .edit p key value => match s.edit p key value with
    | .ok t => (.ok (), t)
    | .error e => (.error (.inr e), s)

/-- The store after changes, one after the other. -/
def performAll (s : Store) (changes : List StoreChange) : Store :=
  changes.foldl (fun s c => (s.perform c).2) s

/-- The store after the item of a change has been found. -/
def changed (s : Store) (id : Int) : StoreChange → Store
  | .undeploy _ => s.without id
  | .edit _ key value => { s with properties := s.properties.map (.valued id key value) }

variable {s : Store} {c c' : StoreChange} {i j : StoredItem}

/-- What a change does is decided by the item at its place. -/
theorem perform_eq (s : Store) (c : StoreChange) : s.perform c =
    match s.find? c.place with
    | some id => (.ok (), s.changed id c)
    | none => (.error c.notFound, s) := by
  cases c with
  | undeploy p =>
    simp only [perform, undeploy, StoreChange.place]
    cases s.find? p <;> rfl
  | edit p key value =>
    simp only [perform, edit, StoreChange.place]
    cases s.find? p <;> rfl

theorem Sound.perform_of_isAt (hs : s.Sound) (hi : i ∈ s.items) (hc : isAt c.place i = true) :
    s.perform c = (.ok (), s.changed i.id c) := by
  rw [perform_eq, hs.find?_of_isAt hi hc]

theorem perform_of_missing (hc : ∀ i ∈ s.items, ¬ isAt c.place i = true) :
    s.perform c = (.error c.notFound, s) := by
  rw [perform_eq, find?_of_missing hc]

theorem Sound.perform_cases (hs : s.Sound) (c : StoreChange) :
    (∃ i ∈ s.items, isAt c.place i = true ∧ s.perform c = (.ok (), s.changed i.id c)) ∨
      (∀ i ∈ s.items, ¬ isAt c.place i = true) ∧ s.perform c = (.error c.notFound, s) := by
  by_cases hc : ∃ i ∈ s.items, isAt c.place i = true
  · obtain ⟨i, hi, hc⟩ := hc
    exact .inl ⟨i, hi, hc, hs.perform_of_isAt hi hc⟩
  · have hmissing : ∀ i ∈ s.items, ¬ isAt c.place i = true := fun i hi h => hc ⟨i, hi, h⟩
    exact .inr ⟨hmissing, perform_of_missing hmissing⟩

/-! ## What changes keep -/

theorem sublist_changed (s : Store) (id : Int) (c : StoreChange) :
    (s.changed id c).items.Sublist s.items := by
  cases c with
  | undeploy p => exact List.filter_sublist
  | edit p key value => exact List.Sublist.refl _

/-- A change removes no item but its own. -/
theorem mem_changed {id : Int} (hi : i ∈ s.items) (hid : i.id ≠ id) :
    i ∈ (s.changed id c).items := by
  cases c with
  | undeploy p => exact List.mem_filter.2 ⟨hi, decide_eq_true hid⟩
  | edit p key value => exact hi

theorem Sound.without (hs : s.Sound) (id : Int) : (s.without id).Sound where
  ids := (List.filter_sublist.map _).nodup hs.ids
  places := (List.filter_sublist.map _).nodup hs.places
  folders i hi := hs.folders i (List.mem_of_mem_filter hi)
  names i hi := hs.names i (List.mem_of_mem_filter hi)
  properties q hq := by
    obtain ⟨hq, hne⟩ := List.mem_filter.1 hq
    obtain ⟨i, hi, hiq⟩ := hs.properties q hq
    exact ⟨i, List.mem_filter.2 ⟨hi, hiq ▸ hne⟩, hiq⟩
  statistics q hq := by
    obtain ⟨hq, hne⟩ := List.mem_filter.1 hq
    obtain ⟨i, hi, hiq⟩ := hs.statistics q hq
    exact ⟨i, List.mem_filter.2 ⟨hi, hiq ▸ hne⟩, hiq⟩

theorem Sound.valued (hs : s.Sound) (id : Int) (key : String) (value : Option String) :
    ({ s with properties := s.properties.map (.valued id key value) } : Store).Sound where
  ids := hs.ids
  places := hs.places
  folders := hs.folders
  names := hs.names
  properties q hq := by
    obtain ⟨r, hr, rfl⟩ := List.mem_map.1 hq
    rw [StoredProperty.item_valued]
    exact hs.properties r hr
  statistics := hs.statistics

theorem Sound.perform (hs : s.Sound) (c : StoreChange) : (s.perform c).2.Sound := by
  rcases hs.perform_cases c with ⟨i, -, -, hdone⟩ | ⟨-, hrefused⟩
  · rw [hdone]
    cases c with
    | undeploy p => exact hs.without i.id
    | edit p key value => exact hs.valued i.id key value
  · rw [hrefused]
    exact hs

theorem Sound.performAll (hs : s.Sound) (changes : List StoreChange) :
    (s.performAll changes).Sound := by
  induction changes generalizing s with
  | nil => exact hs
  | cons c changes ih => exact ih (hs.perform c)

/-! ## Changes of different items -/

/-- Whether no item is at the places of both changes. -/
def Apart (s : Store) (c c' : StoreChange) : Prop :=
  ∀ i ∈ s.items, isAt c.place i = true → ¬ isAt c'.place i = true

theorem Apart.symm (h : s.Apart c c') : s.Apart c' c := fun i hi hc' hc => h i hi hc hc'

theorem changed_comm {id id' : Int} (h : id ≠ id') (c c' : StoreChange) :
    (s.changed id c).changed id' c' = (s.changed id' c').changed id c := by
  cases c with
  | undeploy p =>
    cases c' with
    | undeploy p' => simp only [changed, Store.without, List.filter_comm]
    | edit p' key' value' =>
      simp only [changed, Store.without, List.filter_map, Function.comp_def,
        StoredProperty.item_valued]
  | edit p key value =>
    cases c' with
    | undeploy p' =>
      simp only [changed, Store.without, List.filter_map, Function.comp_def,
        StoredProperty.item_valued]
    | edit p' key' value' =>
      simp only [changed, List.map_map, Function.comp_def, StoredProperty.valued_comm h]

/-- A change leaves the items at the places of others. -/
theorem Sound.find?_perform (hs : s.Sound) (h : s.Apart c c') :
    (s.perform c).2.find? c'.place = s.find? c'.place := by
  have hsound : (s.perform c).2.Sound := hs.perform c
  rcases hs.perform_cases c with ⟨i, hi, hc, hdone⟩ | ⟨-, hrefused⟩
  -- What is found is not the item that changes, so it is still there, and nothing new is found.
  · rw [hdone] at hsound ⊢
    by_cases hc' : ∃ j ∈ s.items, isAt c'.place j = true
    · obtain ⟨j, hj, hc'⟩ := hc'
      have hne : j.id ≠ i.id := by
        intro hid
        rw [hs.eq_of_id hj hi hid] at hc'
        exact h i hi hc hc'
      rw [hsound.find?_of_isAt (mem_changed hj hne) hc', hs.find?_of_isAt hj hc']
    · have hmissing : ∀ j ∈ s.items, ¬ isAt c'.place j = true := fun j hj hp => hc' ⟨j, hj, hp⟩
      rw [find?_of_missing hmissing, find?_of_missing]
      exact fun j hj => hmissing j ((sublist_changed s i.id c).subset hj)
  · rw [hrefused]

/-- Changes of different items can be exchanged. -/
theorem Sound.perform_comm (hs : s.Sound) (h : s.Apart c c') :
    ((s.perform c).2.perform c').1 = (s.perform c').1 ∧
      ((s.perform c).2.perform c').2 = ((s.perform c').2.perform c).2 := by
  -- Neither change moves what the other one finds.
  rw [perform_eq (s.perform c).2, hs.find?_perform h, perform_eq (s.perform c').2,
    hs.find?_perform h.symm, perform_eq s c, perform_eq s c']
  cases hc : s.find? c.place with
  | none => cases s.find? c'.place <;> exact ⟨rfl, rfl⟩
  | some id =>
    cases hc' : s.find? c'.place with
    | none => exact ⟨rfl, rfl⟩
    | some id' =>
      obtain ⟨i, hi, hip, rfl⟩ := exists_of_find? hc
      obtain ⟨j, hj, hjp, rfl⟩ := exists_of_find? hc'
      have hne : i.id ≠ j.id := by
        intro hid
        rw [← hs.eq_of_id hi hj hid] at hjp
        exact h i hi hip hjp
      exact ⟨rfl, changed_comm hne c c'⟩

/-! ## What is kept -/

/-- What can be relied on in a store: properties and statistics belong to items; an item that is
deleted goes with its properties and statistics, and nothing else does; setting a property changes
the values of an item under one key; where there is no item, a change is refused and nothing
happens; changes of different items can be exchanged; and the path of an item leads to it. -/
structure Integral (s : Store) : Prop where
  owned : (∀ q ∈ s.properties, ∃ i ∈ s.items, i.id = q.item) ∧
    ∀ q ∈ s.statistics, ∃ i ∈ s.items, i.id = q.item
  done_iff : ∀ c, (s.perform c).1 = .ok () ↔ ∃ i ∈ s.items, isAt c.place i = true
  refused : ∀ c, (∀ i ∈ s.items, ¬ isAt c.place i = true) → s.perform c = (.error c.notFound, s)
  undeployed : ∀ p, ∀ i ∈ s.items, isAt p i = true → (s.perform (.undeploy p)).2 =
    { items := s.items.filter (· ≠ i)
      properties := s.properties.filter (·.item ≠ i.id)
      statistics := s.statistics.filter (·.item ≠ i.id) }
  edited : ∀ p key value, ∀ i ∈ s.items, isAt p i = true →
    (s.perform (.edit p key value)).2.items = s.items ∧
      (s.perform (.edit p key value)).2.statistics = s.statistics ∧
      s.properties.Forall₂ (fun q q' => q'.item = q.item ∧ q'.key = q.key ∧
          q'.value = if q.item = i.id ∧ q.key = key then value else q.value)
        (s.perform (.edit p key value)).2.properties
  exchanged : ∀ c c', s.Apart c c' →
    ((s.perform c).2.perform c').1 = (s.perform c').1 ∧
      ((s.perform c').2.perform c).1 = (s.perform c).1 ∧
      ((s.perform c).2.perform c').2 = ((s.perform c').2.perform c).2
  addressed : ∀ i ∈ s.items, ∀ j ∈ s.items, isAt i.path j = true ↔ j = i

theorem Sound.integral (hs : s.Sound) : s.Integral where
  owned := ⟨hs.properties, hs.statistics⟩
  done_iff c := by
    rcases hs.perform_cases c with ⟨i, hi, hc, hdone⟩ | ⟨hmissing, hrefused⟩
    · simp only [hdone, true_iff]
      exact ⟨i, hi, hc⟩
    · simp only [hrefused, reduceCtorEq, false_iff]
      rintro ⟨i, hi, hc⟩
      exact hmissing i hi hc
  refused c := perform_of_missing
  undeployed p i hi hp := by
    -- Items are removed by their number, which no two of them share.
    have hitems : s.items.filter (·.id ≠ i.id) = s.items.filter (· ≠ i) := by
      refine List.filter_congr fun j hj => ?_
      have hiff : j.id = i.id ↔ j = i := ⟨hs.eq_of_id hj hi, congrArg _⟩
      simp [hiff]
    rw [hs.perform_of_isAt (c := .undeploy p) hi hp]
    show s.without i.id = _
    rw [Store.without, hitems]
  edited p key value i hi hp := by
    rw [hs.perform_of_isAt (c := .edit p key value) hi hp]
    refine ⟨rfl, rfl, ?_⟩
    show List.Forall₂ _ s.properties (s.properties.map (StoredProperty.valued i.id key value))
    rw [List.forall₂_map_right_iff, List.forall₂_same]
    intro q _
    exact ⟨q.item_valued, q.key_valued, q.value_valued⟩
  exchanged c c' h := by
    obtain ⟨hanswer, hstore⟩ := hs.perform_comm h
    exact ⟨hanswer, (hs.perform_comm h.symm).1, hstore⟩
  addressed i hi j hj := hs.isAt_path hi hj

/-- A store that meets the requirements can be relied on after any changes. -/
theorem integrity_kept (hs : s.Sound) (changes : List StoreChange) :
    (s.performAll changes).Integral :=
  (hs.performAll changes).integral

/-- Two items of one name, one of them at the root of the repository, each with a property. -/
def ofOneName : Store where
  items := [⟨1, "libs", "org/acme", "a.jar"⟩, ⟨2, "libs", ".", "a.jar"⟩]
  properties := [⟨1, "license", some "GPL"⟩, ⟨2, "license", none⟩]
  statistics := [⟨1, 3⟩, ⟨2, 5⟩]

/-- Deleting the item at the root, twice, and setting a property of the other one. -/
def changesOfOneName : List StoreChange :=
  [.undeploy ⟨"libs", "a.jar"⟩, .edit ⟨"libs", "org/acme/a.jar"⟩ "license" (some "MIT"),
    .undeploy ⟨"libs", "a.jar"⟩]

/-- Only the item at the root goes, with what belongs to it, and the path of the other one still
leads to that. -/
theorem integrity_kept_ofOneName : ofOneName.Sound ∧
    (ofOneName.performAll changesOfOneName).Integral ∧
    ofOneName.performAll changesOfOneName =
      { items := [⟨1, "libs", "org/acme", "a.jar"⟩]
        properties := [⟨1, "license", some "MIT"⟩]
        statistics := [⟨1, 3⟩] } := by
  have hsound : ofOneName.Sound :=
    ⟨by decide, by decide, by decide, by decide, by decide, by decide⟩
  exact ⟨hsound, integrity_kept hsound changesOfOneName, by decide +kernel⟩

end Store

end ArtifactQuery
