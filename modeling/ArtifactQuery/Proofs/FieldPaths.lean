import ArtifactQuery.Proofs.Planning
import ArtifactQuery.Proofs.TextParts

/-!
# Field paths are walks

A field path spells a walk over the graph of domains and a field at its end. Every walk is spelled,
every accepted path spells one, and there is no other freedom than to name the main domain in front.

* `Domain.sub?_eq_some`, `Field.named?_eq_some`: the names of edges and of fields.
* `steps_eq_some`, `walk_eq_some`: the segments that lead along a walk.
* `ResultField.dotted`: a walk and the field at its end as a path.
* `JoinPlan.On`: the joins that statements on a domain plan.
* `resolve_exact`: the paths that lead to a field, and the joins that read it.
-/

namespace ArtifactQuery

/-! ## Names -/

/-- An edge of the graph is named by the segment of its end, and no two edges from one domain have
the same name. -/
theorem Domain.sub?_eq_some {d e : Domain} {s : String} :
    d.sub? s = some e ↔ e ∈ d.subs ∧ s = e.segment := by
  constructor
  · intro h
    have hs : decide (e.segment = s) = true :=
      List.find?_some (p := fun e : Domain => decide (e.segment = s)) h
    exact ⟨List.mem_of_find?_eq_some h, (of_decide_eq_true hs).symm⟩
  · rintro ⟨he, rfl⟩
    have hall : ∀ e ∈ d.subs, d.sub? e.segment = some e := by cases d <;> decide
    exact hall e he

/-- No edge leads to a domain that is called like its start. -/
theorem Domain.sub?_segment (d : Domain) : d.sub? d.segment = none := by
  cases d <;> decide

/-- No two fields of a domain have the same name. -/
theorem Field.named?_eq_some {d : Domain} {n : String} {f : Field} :
    Field.named? d n = some f ↔ f.domain = d ∧ n = f.name := by
  constructor
  · intro h
    have hf : decide (f.domain = d ∧ f.name = n) = true :=
      List.find?_some (p := fun f : Field => decide (f.domain = d ∧ f.name = n)) h
    obtain ⟨hd, hn⟩ := of_decide_eq_true hf
    exact ⟨hd, hn.symm⟩
  · rintro ⟨rfl, rfl⟩
    cases f <;> decide +kernel

theorem Domain.dot_not_mem_segment (d : Domain) : '.' ∉ d.segment.toList := by
  cases d <;> decide

theorem Field.dot_not_mem_name (f : Field) : '.' ∉ f.name.toList := by
  cases f <;> decide

/-! ## Walks -/

namespace FieldPath

variable {d : Domain} {path : List Domain} {ss : List String}

/-- Segments lead along edges, each of which they name. -/
theorem steps_eq_some : steps d ss = some path ↔
    (d :: path).IsChain (fun a b => b ∈ a.subs) ∧ ss = path.map Domain.segment := by
  -- By induction on the segments. The domain where the walk starts moves on, so it is left free.
  induction ss generalizing d path with
  | nil =>
    rw [steps, Option.some.injEq]
    constructor
    · rintro rfl
      exact ⟨.singleton d, rfl⟩
    · rintro ⟨-, hpath⟩
      exact (List.map_eq_nil_iff.1 hpath.symm).symm
  | cons s rest ih =>
    rw [steps]
    constructor
    · intro h
      obtain ⟨e, he, h⟩ := Option.bind_eq_some_iff.1 h
      obtain ⟨more, hmore, h⟩ := Option.bind_eq_some_iff.1 h
      cases h
      obtain ⟨hedge, rfl⟩ := Domain.sub?_eq_some.1 he
      obtain ⟨hchain, rfl⟩ := ih.1 hmore
      exact ⟨List.isChain_cons_cons.2 ⟨hedge, hchain⟩, rfl⟩
    · rintro ⟨hchain, hpath⟩
      obtain ⟨e, more, rfl, rfl, rfl⟩ := List.map_eq_cons_iff.1 hpath.symm
      obtain ⟨hedge, hmore⟩ := List.isChain_cons_cons.1 hchain
      rw [Domain.sub?_eq_some.2 ⟨hedge, rfl⟩]
      show ((steps e (more.map Domain.segment)).bind fun more => some (e :: more)) = _
      rw [ih.2 ⟨hmore, rfl⟩]
      rfl

/-- The segments that lead along a walk: those of the domains behind the first, and in front of them
the segment of the first or nothing. -/
theorem walk_eq_some : walk d ss = some path ↔ d.Walk path ∧
    (ss = path.tail.map Domain.segment ∨ ss = d.segment :: path.tail.map Domain.segment) := by
  constructor
  · intro h
    refine ⟨walk_of_walk h, ?_⟩
    cases ss with
    | nil =>
      cases h
      exact .inl rfl
    | cons s rest =>
      rw [walk] at h
      split at h
      case isTrue hs =>
        obtain ⟨more, hmore, rfl⟩ := Option.map_eq_some_iff.1 h
        exact .inr (hs.1 ▸ congrArg (s :: ·) (steps_eq_some.1 hmore).2)
      case isFalse =>
        obtain ⟨more, hmore, rfl⟩ := Option.map_eq_some_iff.1 h
        exact .inl (steps_eq_some.1 hmore).2
  · rintro ⟨hwalk, hss⟩
    obtain ⟨more, rfl⟩ := List.head?_eq_some_iff.1 hwalk.start
    rw [List.tail_cons] at hss
    have hmore : steps d (more.map Domain.segment) = some more :=
      steps_eq_some.2 ⟨hwalk.edges, rfl⟩
    rcases hss with rfl | rfl
    · cases more with
      | nil => rfl
      | cons e more =>
        -- The first edge does not lead to a domain called like `d`.
        have hedge : d.sub? e.segment = some e :=
          Domain.sub?_eq_some.2 ⟨(List.isChain_cons_cons.1 hwalk.edges).1, rfl⟩
        have hnot : ¬ (e.segment = d.segment ∧ d.sub? e.segment = none) := by
          rintro ⟨-, hnone⟩
          cases hedge.symm.trans hnone
        rw [List.map_cons] at hmore ⊢
        rw [walk, if_neg hnot, hmore]
        rfl
    · rw [walk, if_pos ⟨rfl, d.sub?_segment⟩, hmore]
      rfl

end FieldPath

/-! ## Fields at the end of walks -/

namespace ResultField

variable {d : Domain} {f : ResultField}

/-- The segments of the domains behind the first, and the field's name. -/
def names (f : ResultField) : List String := f.path.tail.map Domain.segment ++ [f.field.name]

/-- The names with dots between them. -/
def dotted (f : ResultField) : String := ".".intercalate f.names

theorem names_ne_nil (f : ResultField) : f.names ≠ [] :=
  List.append_ne_nil_of_right_ne_nil _ (List.cons_ne_nil _ _)

theorem dot_not_mem_names (f : ResultField) : ∀ s ∈ f.names, '.' ∉ s.toList := by
  intro s hs
  rcases List.mem_append.1 hs with hs | hs
  · obtain ⟨d, -, rfl⟩ := List.mem_map.1 hs
    exact d.dot_not_mem_segment
  · rw [List.mem_singleton.1 hs]
    exact f.field.dot_not_mem_name

/-- The names with the first domain's in front, with dots between them. -/
theorem intercalate_cons_names (s : String) (f : ResultField) :
    ".".intercalate (s :: f.names) = s ++ "." ++ f.dotted := by
  rw [dotted, String.intercalate_cons_of_ne_nil f.names_ne_nil]

end ResultField

namespace FieldPath

variable {d : Domain} {f : ResultField} {ss : List String}

theorem resolve?_eq_some : resolve? d ss = some f ↔
    f.Reached d ∧ (ss = f.names ∨ ss = d.segment :: f.names) := by
  constructor
  · intro h
    refine ⟨reached_resolve? h, ?_⟩
    rw [resolve?] at h
    obtain ⟨path, hwalk, h⟩ := Option.bind_eq_some_iff.1 h
    obtain ⟨n, hlast, h⟩ := Option.bind_eq_some_iff.1 h
    obtain ⟨g, hfield, h⟩ := Option.bind_eq_some_iff.1 h
    cases h
    obtain ⟨-, rfl⟩ := Field.named?_eq_some.1 hfield
    have hss := List.dropLast_append_getLast? _ hlast
    rw [ResultField.names, ← hss]
    rcases (walk_eq_some.1 hwalk).2 with hfront | hfront
    · exact .inl (by rw [hfront])
    · exact .inr (by rw [hfront]; rfl)
  · rintro ⟨hreached, hss⟩
    have howner : f.field.domain = owner d f.path :=
      Option.some.inj (hreached.last.symm.trans (getLast?_of_walk hreached.walk))
    have hfield : Field.named? (owner d f.path) f.field.name = some f.field :=
      Field.named?_eq_some.2 ⟨howner, rfl⟩
    -- In front of the name both spellings are walks along the same path.
    have hgo : ∀ front, walk d front = some f.path →
        resolve? d (front ++ [f.field.name]) = some f := by
      intro front hwalk
      rw [resolve?, List.dropLast_concat, hwalk, List.getLast?_concat]
      show ((Field.named? (owner d f.path) f.field.name).bind fun g => some _) = _
      rw [hfield]
      rfl
    rcases hss with rfl | rfl
    · exact hgo _ (walk_eq_some.2 ⟨hreached.walk, .inl rfl⟩)
    · exact hgo (d.segment :: f.path.tail.map Domain.segment)
        (walk_eq_some.2 ⟨hreached.walk, .inr rfl⟩)

theorem resolve_eq_ok_iff {text : String} : resolve d text = .ok f ↔
    f.Reached d ∧ (text = f.dotted ∨ text = d.segment ++ "." ++ f.dotted) := by
  have hresolve : resolve d text = .ok f ↔ resolve? d (segments '.' text) = some f := by
    rw [resolve]
    cases resolve? d (segments '.' text) <;> simp
  have hdots : ∀ s ∈ d.segment :: f.names, '.' ∉ s.toList :=
    List.forall_mem_cons.2 ⟨d.dot_not_mem_segment, f.dot_not_mem_names⟩
  rw [hresolve, resolve?_eq_some, segments_eq_iff f.names_ne_nil f.dot_not_mem_names,
    segments_eq_iff (List.cons_ne_nil _ _) hdots]
  exact and_congr_right fun _ => or_congr Iff.rfl (by rw [← f.intercalate_cons_names]; rfl)

end FieldPath

/-! ## Joins -/

namespace Sql.JoinPlan

/-- The joins that a statement on a domain plans, field by field and criterion by criterion. -/
inductive On (d : Domain) : JoinPlan → Prop
  | start : On d (.start d.table)
  | field {p p' : JoinPlan} {f : ResultField} {o : Occurrence} (h : On d p)
      (hpath : f.path.head? = some d) (hplan : p.forField f = .ok (o, p')) : On d p'
  | criterion {p p' : JoinPlan} {c : Criterion} {r : Reading} (h : On d p)
      (hpath : c.path.head? = some d) (hplan : p.forCriterion c = .ok (r, p')) : On d p'

theorem On.ordered {d : Domain} {p : JoinPlan} (h : On d p) :
    p.Ordered ∧ p.main.table = d.table := by
  induction h with
  | start => exact ⟨ordered_start d.table, rfl⟩
  | field _ hpath hplan ih =>
    have hgrown := (arrives_forField ih.1 ih.2 hpath hplan).toGrown
    exact ⟨hgrown.ordered, hgrown.main ▸ ih.2⟩
  | criterion _ hpath hplan ih =>
    have hgrown := (reads_forCriterion ih.1 ih.2 hpath hplan).1
    exact ⟨hgrown.ordered, hgrown.main ▸ ih.2⟩

/-- A criterion on a reached field can be planned. -/
theorem planned_simple {p : JoinPlan} {d : Domain} {f : ResultField} (hp : p.Ordered)
    (hmain : p.main.table = d.table) (hf : f.Reached d) (id : Nat) (cmp : Comparator) (v : Value) :
    Planned (p.forCriterion (.simple f.path f.field ⟨f.field.column.table, id⟩ cmp v)) :=
  planned_forCriterion hp hmain hf.walk.start fun _ ht =>
    Option.some.inj ht ▸ linked_tableChain hf

end Sql.JoinPlan

/-! ## The paths of a field -/

/-- A path leads to a field along a walk exactly if it spells the walk and the field, with or
without the main domain in front. The tables on the way are linked one to the next, and so the joins
can be planned whatever else a statement reads: all that may go wrong is that there are too many. -/
theorem FieldPath.resolve_exact (d : Domain) (f : ResultField) :
    (∀ text, resolve d text = .ok f ↔
      f.Reached d ∧ (text = f.dotted ∨ text = d.segment ++ "." ++ f.dotted)) ∧
    (f.Reached d → (tableChain f.path f.field.column.table).IsChain Table.Linked ∧
      ∀ p : Sql.JoinPlan, p.On d → Sql.Planned (p.forField f) ∧ ∀ id cmp v,
        Sql.Planned (p.forCriterion
          (.simple f.path f.field ⟨f.field.column.table, id⟩ cmp v))) := by
  refine ⟨fun text => resolve_eq_ok_iff, fun hf => ⟨linked_tableChain hf, fun p hp => ?_⟩⟩
  obtain ⟨hordered, hmain⟩ := hp.ordered
  exact ⟨Sql.JoinPlan.planned_forField hordered hmain hf,
    Sql.JoinPlan.planned_simple hordered hmain hf⟩

/-- The items in the archives that hold an entry of an archive: the walk passes archives twice. -/
theorem FieldPath.resolve_exact_archiveTwice :
    let f : ResultField := ⟨.itemName, [.items, .archives, .entries, .archives, .items]⟩
    f.Reached .items ∧ resolve .items "archive.entry.archive.item.name" = .ok f ∧
      resolve .items "item.archive.entry.archive.item.name" = .ok f ∧
      Sql.Planned ((Sql.JoinPlan.start .nodes).forField f) := by
  intro f
  have hf : f.Reached .items := ⟨⟨rfl, by decide⟩, rfl⟩
  have hexact := resolve_exact .items f
  exact ⟨hf, (hexact.1 _).2 ⟨hf, .inl (by decide +kernel)⟩,
    (hexact.1 _).2 ⟨hf, .inr (by decide +kernel)⟩, ((hexact.2 hf).2 _ .start).1⟩

end ArtifactQuery
