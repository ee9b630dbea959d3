import ArtifactQuery.FluentQuery
import ArtifactQuery.Proofs.Completion
import ArtifactQuery.Proofs.Printing
import ArtifactQuery.TextQuery
import Mathlib.Data.List.Induction

/-!
# Two ways to write a query

A text and a fluent query with the same settings and the same criteria give the same query, or fail
with the same error.

* `Entry.clause`, `Clause.allOf`: the filters that criteria stand for.
* `Phrase.Writes`: reading phrases has the effect of writing clauses, whatever follows.
* `writes_entry`: the phrases of an entry write its filter.
* `Phrase.Nested`: runs of criteria, whose clauses nest and whose fields have a comparator and a
  value each; `nested_phrases`: the phrases of an entry are such a run.
* `FluentQuery.GivenBy`: methods give the settings of a query.
* `ofPhrases_eq_ofFluent`: the phrases of a statement describe its fluent query.
* `ofText_eq_ofFluent`: a fluent query has a text, and its texts give the same query or error.
-/

namespace ArtifactQuery

/-! ## Filters of criteria -/

namespace Clause

/-- Filters that must all hold, as one: a clause unless there is exactly one. -/
def joined : List Clause → Clause
  | [c] => c
  | cs => .group .and cs

/-- Filters that must all hold, as at most one. -/
def allOf (cs : List Clause) : List Clause := if cs = [] then [] else [joined cs]

end Clause

/-- The tests of a field, one for each comparator. -/
def Entry.testsOf (path : String) (ts : List (String × Literal)) : List Clause :=
  ts.filterMap fun t => (Comparator.signed? t.1).map fun c => .test ⟨path, c, t.2⟩

mutual

/-- The filter that an entry stands for. -/
def Entry.clause : Entry → Clause
  | .equals p v => .test ⟨p, .equals, v⟩
  | .compares p ts => Clause.joined (Entry.testsOf p ts)
  | .objects c ms => .group c (Entry.clausesOfMembers c ms)
  | .object c es => .group c (Entry.clausesOfEntries es)

/-- The filters of entries, one for each. -/
def Entry.clausesOfEntries : List Entry → List Clause
  | [] => []
  | e :: es => e.clause :: Entry.clausesOfEntries es

/-- The filters of the objects in an array: at most one for each object, but the entries themselves
where all have to hold on one property. -/
def Entry.clausesOfMembers (c : Connective) : List (List Entry) → List Clause
  | [] => []
  | m :: ms =>
    (if c = .sameProperty then Entry.clausesOfEntries m
     else Clause.allOf (Entry.clausesOfEntries m)) ++ Entry.clausesOfMembers c ms

end

/-! ## Reading criteria -/

namespace Clause

variable {now : Int} {s : Draft}

theorem writeAll_append (cs cs' : List Clause) : writeAll now s (cs ++ cs') =
    (writeAll now s cs >>= fun s => writeAll now s cs') := by
  induction cs generalizing s with
  | nil => rfl
  | cons c cs ih =>
    rw [List.cons_append, writeAll, writeAll]
    cases c.write now s with
    | error e => rfl
    | ok s => exact ih

theorem writeAll_singleton (c : Clause) : writeAll now s [c] = c.write now s := by
  rw [writeAll]
  cases c.write now s with
  | error e => rfl
  | ok s => rfl

end Clause

namespace Phrase

variable {now : Int}

/-- Whether reading phrases has the effect of writing clauses, whatever follows. -/
def Writes (now : Int) (ps : List Phrase) (cs : List Clause) : Prop :=
  ∀ s rest, writeCriteria now s (ps ++ rest) =
    (Clause.writeAll now s cs >>= fun s => writeCriteria now s rest)

theorem Writes.nil : Writes now [] [] := fun _ _ => rfl

theorem Writes.append {ps ps' : List Phrase} {cs cs' : List Clause} (h : Writes now ps cs)
    (h' : Writes now ps' cs') : Writes now (ps ++ ps') (cs ++ cs') := by
  intro s rest
  rw [List.append_assoc, h, Clause.writeAll_append]
  cases Clause.writeAll now s cs with
  | error e => rfl
  | ok s => exact h' s rest

/-- The phrases of a clause open it, and close it behind what is inside. -/
theorem writeCriteria_clause (s : Draft) (c : Connective) (ps rest : List Phrase) :
    writeCriteria now s (clause c ps ++ rest) =
      writeCriteria now (s.openClause c) (ps ++ .clauseEnd :: rest) := by
  rw [clause, List.cons_append, List.cons_append, List.append_assoc, writeCriteria]
  rfl

/-- The phrases of a test add its criterion. -/
theorem writeCriteria_test (s : Draft) (path signature : String) (v : Literal)
    (rest : List Phrase) : writeCriteria now s (test path signature v ++ rest) =
      (comparatorOf signature >>= fun c => s.addTest now ⟨path, c, v⟩ >>= fun s =>
        writeCriteria now s rest) := rfl

/-- A clause around phrases. -/
theorem Writes.clause {ps : List Phrase} {cs : List Clause} (h : Writes now ps cs)
    (c : Connective) : Writes now (Phrase.clause c ps) [.group c cs] := by
  intro s rest
  rw [writeCriteria_clause, h, Clause.writeAll_singleton, Clause.write]
  cases Clause.writeAll now (s.openClause c) cs with
  | error e => rfl
  | ok s =>
    rw [ok_bind, ok_bind, writeCriteria]

/-- A clause around phrases that write several filters. -/
theorem Writes.allOf {ps : List Phrase} {cs : List Clause} (h : Writes now ps cs) :
    Writes now (Phrase.allOf cs.length ps) (Clause.allOf cs) := by
  match cs, h with
  | [], h => exact h
  | [c], h => exact h
  | c :: c' :: cs, h =>
    have hlength : ¬ (c :: c' :: cs).length ≤ 1 := by
      rw [List.length_cons, List.length_cons]
      omega
    rw [Phrase.allOf, if_neg hlength, Clause.allOf, if_neg (List.cons_ne_nil _ _)]
    exact h.clause .and

theorem signed?_comparator (c : Comparator) : Comparator.signed? c.signature = some c := by
  cases c <;> rfl

/-- A field with one test. -/
theorem writes_test (p : String) (c : Comparator) (v : Literal) :
    Writes now (test p c.signature v) [.test ⟨p, c, v⟩] := by
  intro s rest
  have hcomparator : comparatorOf c.signature = .ok c := by
    rw [comparatorOf, signed?_comparator]
  rw [writeCriteria_test, Clause.writeAll_singleton, Clause.write, hcomparator]
  rfl

theorem testsOf_cons (p : String) (c : Comparator) (v : Literal) (ts : List (String × Literal)) :
    Entry.testsOf p ((c.signature, v) :: ts) = .test ⟨p, c, v⟩ :: Entry.testsOf p ts := by
  unfold Entry.testsOf
  rw [List.filterMap_cons, signed?_comparator]
  rfl

theorem length_testsOf (p : String) {ts : List (String × Literal)}
    (hts : ∀ t ∈ ts, IsSignature t.1) : (Entry.testsOf p ts).length = ts.length := by
  induction ts with
  | nil => rfl
  | cons t ts ih =>
    obtain ⟨signature, v⟩ := t
    rw [List.forall_mem_cons] at hts
    obtain ⟨c, rfl⟩ := hts.1
    rw [testsOf_cons, List.length_cons, List.length_cons, ih hts.2]

/-- A field with several tests. -/
theorem writes_tests (p : String) {ts : List (String × Literal)}
    (hts : ∀ t ∈ ts, IsSignature t.1) :
    Writes now (ts.flatMap fun t => test p t.1 t.2) (Entry.testsOf p ts) := by
  induction ts with
  | nil => exact .nil
  | cons t ts ih =>
    obtain ⟨signature, v⟩ := t
    rw [List.forall_mem_cons] at hts
    obtain ⟨c, rfl⟩ := hts.1
    rw [testsOf_cons]
    exact (writes_test p c v).append (ih hts.2)

theorem length_clausesOfEntries (es : List Entry) :
    (Entry.clausesOfEntries es).length = es.length := by
  induction es with
  | nil => rfl
  | cons e es ih => rw [Entry.clausesOfEntries, List.length_cons, List.length_cons, ih]

mutual

/-- The phrases of an entry write the filter that it stands for. -/
theorem writes_entry (e : Entry) (he : e.Proper) : Writes now e.phrases [e.clause] := by
  -- A field with several tests stands for a clause of its own, and with a single one for the test.
  cases e with
  | equals p v =>
    rw [Entry.phrases, Entry.clause]
    exact writes_test p .equals v
  | compares p ts =>
    rw [Entry.Proper] at he
    have hsignatures : ∀ t ∈ ts, IsSignature t.1 := fun t ht => (he.2.2 t ht).1
    have hlength := length_testsOf p hsignatures
    have hne : Entry.testsOf p ts ≠ [] := by
      rw [← List.length_pos_iff, hlength, List.length_pos_iff]
      exact he.2.1
    have hwrites : Writes now _ _ := (writes_tests p hsignatures).allOf
    rw [Clause.allOf, if_neg hne, hlength] at hwrites
    rw [Entry.phrases, Entry.clause]
    exact hwrites
  | objects c ms =>
    rw [Entry.Proper] at he
    rw [Entry.phrases, Entry.clause]
    exact (writes_members c ms he).clause c
  | object c es =>
    rw [Entry.Proper] at he
    rw [Entry.phrases, Entry.clause]
    exact (writes_entries es he).clause c

theorem writes_entries (es : List Entry) (hes : Entry.ProperEntries es) :
    Writes now (Entry.phrasesOfEntries es) (Entry.clausesOfEntries es) := by
  cases es with
  | nil =>
    rw [Entry.phrasesOfEntries, Entry.clausesOfEntries]
    exact .nil
  | cons e es =>
    rw [Entry.ProperEntries] at hes
    rw [Entry.phrasesOfEntries, Entry.clausesOfEntries]
    exact (writes_entry e hes.1).append (writes_entries es hes.2)

theorem writes_members (c : Connective) (ms : List (List Entry)) (hms : Entry.ProperMembers ms) :
    Writes now (Entry.phrasesOfMembers c ms) (Entry.clausesOfMembers c ms) := by
  cases ms with
  | nil =>
    rw [Entry.phrasesOfMembers, Entry.clausesOfMembers]
    exact .nil
  | cons m ms =>
    rw [Entry.ProperMembers] at hms
    rw [Entry.phrasesOfMembers, Entry.clausesOfMembers]
    refine Writes.append ?_ (writes_members c ms hms.2)
    have hentries : Writes now _ _ := writes_entries m hms.1
    by_cases hc : c = .sameProperty
    · rw [if_pos hc, if_pos hc]
      exact hentries
    · rw [if_neg hc, if_neg hc, ← length_clausesOfEntries m]
      exact hentries.allOf

end

/-! ### The form of criteria -/

/-- Runs of criteria: each clause that begins also ends, and each field is followed by one
comparator and one value. -/
inductive Nested : List Phrase → Prop
  | nil : Nested []
  | test (path signature : String) (v : Literal) {rest : List Phrase} (hrest : Nested rest) :
      Nested (test path signature v ++ rest)
  | clause (c : Connective) {inner rest : List Phrase} (hinner : Nested inner)
      (hrest : Nested rest) : Nested (clause c inner ++ rest)

theorem Nested.append {ps ps' : List Phrase} (h : Nested ps) (h' : Nested ps') :
    Nested (ps ++ ps') := by
  induction h with
  | nil => exact h'
  | test path signature v _ ih =>
    rw [List.append_assoc]
    exact .test path signature v ih
  | clause c hinner _ _ ih =>
    rw [List.append_assoc]
    exact .clause c hinner ih

theorem nested_test (path signature : String) (v : Literal) : Nested (test path signature v) :=
  .test path signature v .nil

theorem nested_clause (c : Connective) {ps : List Phrase} (h : Nested ps) :
    Nested (clause c ps) := by
  rw [← List.append_nil (clause c ps)]
  exact .clause c h .nil

theorem nested_allOf (n : Nat) {ps : List Phrase} (h : Nested ps) : Nested (allOf n ps) := by
  rw [allOf]
  split
  · exact h
  · exact nested_clause .and h

theorem nested_tests (path : String) (ts : List (String × Literal)) :
    Nested (ts.flatMap fun t => test path t.1 t.2) := by
  induction ts with
  | nil => exact .nil
  | cons t ts ih => exact .test path t.1 t.2 ih

mutual

/-- The phrases of an entry are a run of criteria. -/
theorem nested_phrases (e : Entry) : Nested e.phrases := by
  cases e with
  | equals path v =>
    rw [Entry.phrases]
    exact nested_test path "$eq" v
  | compares path ts =>
    rw [Entry.phrases]
    exact nested_allOf _ (nested_tests path ts)
  | objects c ms =>
    rw [Entry.phrases]
    exact nested_clause c (nested_phrasesOfMembers c ms)
  | object c es =>
    rw [Entry.phrases]
    exact nested_clause c (nested_phrasesOfEntries es)

theorem nested_phrasesOfEntries (es : List Entry) : Nested (Entry.phrasesOfEntries es) := by
  cases es with
  | nil =>
    rw [Entry.phrasesOfEntries]
    exact .nil
  | cons e es =>
    rw [Entry.phrasesOfEntries]
    exact (nested_phrases e).append (nested_phrasesOfEntries es)

theorem nested_phrasesOfMembers (c : Connective) (ms : List (List Entry)) :
    Nested (Entry.phrasesOfMembers c ms) := by
  cases ms with
  | nil =>
    rw [Entry.phrasesOfMembers]
    exact .nil
  | cons m ms =>
    rw [Entry.phrasesOfMembers]
    refine Nested.append ?_ (nested_phrasesOfMembers c ms)
    split
    · exact nested_phrasesOfEntries m
    · exact nested_allOf _ (nested_phrasesOfEntries m)

end

/-! ### Passes over criteria -/

/-- Whether a phrase is one of criteria: it sets nothing else. -/
structure OfCriteria (p : Phrase) : Prop where
  subject : ∀ s, noteSubject s p = .ok s
  sort : ∀ o, noteSort o p = .ok o
  parameter : ∀ a, noteParameter a p = a
  included : p.included = []
  offset : p.offset? = none
  limit : p.limit? = none

theorem ofCriteria_clauseBegin (c : Connective) : OfCriteria (.clauseBegin c) :=
  ⟨fun _ => rfl, fun _ => rfl, fun _ => rfl, rfl, rfl, rfl⟩

theorem ofCriteria_clauseEnd : OfCriteria .clauseEnd :=
  ⟨fun _ => rfl, fun _ => rfl, fun _ => rfl, rfl, rfl, rfl⟩

theorem ofCriteria_test (path signature : String) (v : Literal) :
    ∀ p ∈ test path signature v, p.OfCriteria := by
  unfold test
  rw [List.forall_mem_cons, List.forall_mem_cons, List.forall_mem_singleton]
  refine ⟨?_, ?_, ?_⟩ <;> exact ⟨fun _ => rfl, fun _ => rfl, fun _ => rfl, rfl, rfl, rfl⟩

theorem Nested.ofCriteria {ps : List Phrase} (h : Nested ps) : ∀ p ∈ ps, p.OfCriteria := by
  induction h with
  | nil => exact fun p hp => absurd hp List.not_mem_nil
  | test path signature v _ ih =>
    exact List.forall_mem_append.2 ⟨ofCriteria_test path signature v, ih⟩
  | clause c _ _ ihinner ih =>
    refine List.forall_mem_append.2 ⟨?_, ih⟩
    rw [Phrase.clause, List.cons_append, List.forall_mem_cons, List.forall_mem_append,
      List.forall_mem_singleton]
    exact ⟨ofCriteria_clauseBegin c, ihinner, ofCriteria_clauseEnd⟩

/-- A pass that no phrase of a run concerns. -/
theorem foldlM_unconcerned {σ : Type} {f : σ → Phrase → Except QueryError σ} {ps : List Phrase}
    (h : ∀ p ∈ ps, ∀ s, f s p = .ok s) (s : σ) : ps.foldlM f s = .ok s := by
  induction ps with
  | nil => rfl
  | cons p ps ih =>
    rw [List.forall_mem_cons] at h
    rw [List.foldlM_cons, h.1, ok_bind, ih h.2]

theorem foldl_unconcerned {σ : Type} {f : σ → Phrase → σ} {ps : List Phrase}
    (h : ∀ p ∈ ps, ∀ s, f s p = s) (s : σ) : ps.foldl f s = s := by
  induction ps with
  | nil => rfl
  | cons p ps ih =>
    rw [List.forall_mem_cons] at h
    rw [List.foldl_cons, h.1, ih h.2]

theorem noteSubject_method (m : Method) (s : Subject) : noteSubject s m.phrase = .ok s := by
  cases m <;> rfl

theorem writes_methods (ms : List Method) : Writes now (ms.map Method.phrase) [] := by
  induction ms with
  | nil => exact .nil
  | cons m ms ih =>
    have hm : Writes now [m.phrase] [] := by
      intro s rest
      cases m <;> rfl
    exact hm.append ih

end Phrase

/-! ## Settings -/

/-- A draft whose query has the action `a`. -/
def Draft.acting (s : Draft) (a : ActionSpec) : Draft :=
  { s with query := { s.query with action := a } }

/-- The window does not depend on the action. -/
theorem setWindow_acting (s : Draft) (a : ActionSpec) (offset limit : Option Int) :
    (s.acting a).setWindow offset limit = (s.setWindow offset limit).map (·.acting a) := by
  have hoffset : ∀ (s : Draft) n, (s.acting a).setOffset n = (s.setOffset n).map (·.acting a) := by
    intro s n
    unfold Draft.setOffset
    split <;> rfl
  have hlimit : ∀ (s : Draft) n, (s.acting a).setLimit n = (s.setLimit n).map (·.acting a) := by
    intro s n
    unfold Draft.setLimit
    split <;> rfl
  have hthen : ∀ s : Draft, limit.elim (.ok (s.acting a)) (s.acting a).setLimit =
      (limit.elim (.ok s) s.setLimit).map (·.acting a) := by
    intro s
    cases limit with
    | none => rfl
    | some n => exact hlimit s n
  rw [Draft.setWindow_eq, Draft.setWindow_eq]
  cases offset with
  | none => exact hthen s
  | some n =>
    rw [Option.elim_some, Option.elim_some, hoffset]
    cases s.setOffset n with
    | error e => rfl
    | ok s => exact hthen s

/-- A fluent query looks at its window first. -/
theorem ofFluent_eq (now : Int) (q : FluentQuery) : Query.ofFluent now q =
    ((Draft.start q.domain).setWindow q.offset q.limit >>= fun s =>
      Clause.writeAll now (s.acting q.action) q.filters >>= fun s =>
        s.complete ⟨q.includes, q.sort⟩) := by
  show (((Draft.start q.domain).acting q.action).setWindow q.offset q.limit >>= fun s =>
    Clause.writeAll now s q.filters >>= fun s => s.complete ⟨q.includes, q.sort⟩) = _
  rw [setWindow_acting]
  cases (Draft.start q.domain).setWindow q.offset q.limit <;> rfl

open Phrase

/-- What phrases describe that name a domain and an action, and at most one order. -/
theorem ofPhrases_eq (now : Int) {ps : List Phrase} {d : Domain} {k : ActionKind}
    {sort : Option (Direction × List String)}
    (hsubject : ps.foldlM noteSubject {} = .ok ⟨some d, some k⟩)
    (hsort : ps.foldlM noteSort none = .ok sort) : Query.ofPhrases now ps =
      ((Draft.start d).setWindow (ps.filterMap offset?).getLast? (ps.filterMap limit?).getLast?
        >>= fun s => writeCriteria now (s.acting (ps.foldl noteParameter { kind := k })) ps
        >>= fun s => s.complete ⟨ps.flatMap included, sort⟩) := by
  unfold Query.ofPhrases
  rw [hsubject, ok_bind]
  dsimp only
  rw [hsort, ok_bind]
  rfl

/-! ### Passes over a statement -/

section Passes

variable (s : Statement)

/-- The phrases of a statement: those of its criteria stand between its subject and its methods. -/
theorem exists_phrases : ∃ ps, s.phrases =
      .domain s.domain :: .action s.action :: (ps ++ s.methods.map Method.phrase) ∧
    Nested ps ∧ ∀ now, Entry.ProperEntries s.criteria →
      Writes now ps (Clause.allOf (Entry.clausesOfEntries s.criteria)) := by
  refine ⟨allOf s.criteria.length (Entry.phrasesOfEntries s.criteria), rfl,
    nested_allOf _ (nested_phrasesOfEntries s.criteria), fun now h => ?_⟩
  rw [← length_clausesOfEntries]
  exact (writes_entries s.criteria h).allOf

theorem noteSubject_phrases {d : Domain} {k : ActionKind} (hd : Domain.ofName? s.domain = some d)
    (hk : s.action = k.name) : s.phrases.foldlM noteSubject {} = .ok ⟨some d, some k⟩ := by
  obtain ⟨ps, hphrases, hps, -⟩ := exists_phrases s
  have hkind : ActionKind.named? k.name = some k := by cases k <;> rfl
  have hdomain : noteSubject {} (.domain s.domain) = .ok ⟨some d, none⟩ := by
    rw [noteSubject, hd]
  have haction : noteSubject ⟨some d, none⟩ (.action s.action) = .ok ⟨some d, some k⟩ := by
    rw [noteSubject, hk, hkind]
  have hothers : ∀ p ∈ ps ++ s.methods.map Method.phrase, ∀ t, noteSubject t p = .ok t := by
    rw [List.forall_mem_append, List.forall_mem_map]
    exact ⟨fun p hp => (hps.ofCriteria p hp).subject, fun m _ => noteSubject_method m⟩
  rw [hphrases, List.foldlM_cons, hdomain, ok_bind, List.foldlM_cons, haction, ok_bind,
    foldlM_unconcerned hothers]

theorem noteSort_phrases :
    s.phrases.foldlM noteSort none = (s.methods.map Method.phrase).foldlM noteSort none := by
  obtain ⟨ps, hphrases, hps, -⟩ := exists_phrases s
  rw [hphrases]
  show (ps ++ s.methods.map Method.phrase).foldlM noteSort none = _
  rw [List.foldlM_append, foldlM_unconcerned fun p hp => (hps.ofCriteria p hp).sort]
  rfl

theorem noteParameter_phrases (a : ActionSpec) :
    s.phrases.foldl noteParameter a = (s.methods.map Method.phrase).foldl noteParameter a := by
  obtain ⟨ps, hphrases, hps, -⟩ := exists_phrases s
  rw [hphrases]
  show (ps ++ s.methods.map Method.phrase).foldl noteParameter a = _
  rw [List.foldl_append, foldl_unconcerned fun p hp => (hps.ofCriteria p hp).parameter]

theorem included_phrases :
    s.phrases.flatMap included = (s.methods.map Method.phrase).flatMap included := by
  obtain ⟨ps, hphrases, hps, -⟩ := exists_phrases s
  have hnone : ps.flatMap included = [] :=
    List.flatMap_eq_nil_iff.2 fun p hp => (hps.ofCriteria p hp).included
  rw [hphrases]
  show (ps ++ s.methods.map Method.phrase).flatMap included = _
  rw [List.flatMap_append, hnone, List.nil_append]

/-- A pass that collects what methods say. -/
theorem filterMap_phrases {α : Type} {f : Phrase → Option α} (hd : f (.domain s.domain) = none)
    (ha : f (.action s.action) = none) (hf : ∀ p, OfCriteria p → f p = none) :
    s.phrases.filterMap f = (s.methods.map Method.phrase).filterMap f := by
  obtain ⟨ps, hphrases, hps, -⟩ := exists_phrases s
  have hnone : ps.filterMap f = [] :=
    List.filterMap_eq_nil_iff.2 fun p hp => hf p (hps.ofCriteria p hp)
  rw [hphrases, List.filterMap_cons_none hd, List.filterMap_cons_none ha, List.filterMap_append,
    hnone, List.nil_append]

theorem writeCriteria_phrases (now : Int) (h : Entry.ProperEntries s.criteria) (s' : Draft) :
    writeCriteria now s' s.phrases =
      Clause.writeAll now s' (Clause.allOf (Entry.clausesOfEntries s.criteria)) := by
  obtain ⟨ps, hphrases, -, hwrites⟩ := exists_phrases s
  have hall := (hwrites now h).append (writes_methods s.methods) s' []
  rw [List.append_nil, List.append_nil] at hall
  rw [hphrases]
  show writeCriteria now s' (ps ++ s.methods.map Method.phrase) = _
  rw [hall]
  cases Clause.writeAll now s' (Clause.allOf (Entry.clausesOfEntries s.criteria)) <;> rfl

end Passes

/-! ## Settings by methods -/

/-- The signature of a direction. -/
def Direction.signature : Direction → String
  | asc => "$asc"
  | desc => "$desc"

/-- The text that a literal sets; `null` sets none. -/
def Literal.content? : Literal → Option String
  | null => none
  | v => some v.shown

namespace Method

/-- The paths that a method includes. -/
def returned : Method → List String
  | returning ps => ps
  | _ => []

/-- The order that a method asks for. -/
def order? : Method → Option (String × List String)
  | sort d ps => some (d, ps)
  | _ => none

/-- The offset that a method sets. -/
def offset? : Method → Option Int
  | offset n => some n
  | _ => none

/-- The limit that a method sets. -/
def limit? : Method → Option Int
  | limit n => some n
  | _ => none

/-- The flag that a method sets. -/
def dryRun? : Method → Option Bool
  | dryRun b => some b
  | _ => none

/-- The keys that a method adds. -/
def addedKeys : Method → List String
  | keys ks => ks
  | _ => []

/-- The value that a method sets. -/
def newValue? : Method → Option Literal
  | newValue v => some v
  | _ => none

theorem included_phrase (m : Method) : m.phrase.included = m.returned := by cases m <;> rfl

theorem offset?_phrase (m : Method) : m.phrase.offset? = m.offset? := by cases m <;> rfl

theorem limit?_phrase (m : Method) : m.phrase.limit? = m.limit? := by cases m <;> rfl

end Method

/-- Whether methods, in whatever order, give the settings of a query: includes and keys are those of
all methods, the order is given once, and the last method decides on anything else. -/
structure FluentQuery.GivenBy (q : FluentQuery) (ms : List Method) : Prop where
  includes : ms.flatMap Method.returned = q.includes
  sort : ms.filterMap Method.order? = q.sort.toList.map fun o => (o.1.signature, o.2)
  offset : (ms.filterMap Method.offset?).getLast? = q.offset
  limit : (ms.filterMap Method.limit?).getLast? = q.limit
  dryRun : (ms.filterMap Method.dryRun?).getLast? = q.action.dryRun
  keys : ms.flatMap Method.addedKeys = q.action.keys
  newValue : (ms.filterMap Method.newValue?).getLast?.bind Literal.content? = q.action.newValue

/-- Methods that give the settings of a query. -/
def FluentQuery.methods (q : FluentQuery) : List Method :=
  .returning q.includes :: .keys q.action.keys ::
    (q.sort.toList.map (fun o => .sort o.1.signature o.2) ++ q.offset.toList.map .offset ++
      q.limit.toList.map .limit ++ q.action.dryRun.toList.map .dryRun ++
      q.action.newValue.toList.map fun v => .newValue (.text v))

theorem givenBy_methods (q : FluentQuery) : q.GivenBy q.methods := by
  obtain ⟨_, _, includes, sort, offset, limit, _, dryRun, keys, newValue⟩ := q
  cases sort <;> cases offset <;> cases limit <;> cases dryRun <;> cases newValue <;>
    exact ⟨List.append_nil includes, rfl, rfl, rfl, rfl, List.append_nil keys, rfl⟩

/-! ### Passes over methods -/

theorem directionOf_signature (dir : Direction) : directionOf dir.signature = .ok dir := by
  cases dir <;> rfl

theorem noteSort_unordered {m : Method} (hm : m.order? = none)
    (o : Option (Direction × List String)) : noteSort o m.phrase = .ok o := by
  cases m with
  | sort d ps => cases hm
  | _ => rfl

theorem noteSort_ordered {m : Method} {dir : Direction} {ps : List String}
    (hm : m.order? = some (dir.signature, ps)) : noteSort none m.phrase = .ok (some (dir, ps)) := by
  cases m with
  | sort d ps' =>
    cases hm
    have hdir := directionOf_signature dir
    show (directionOf dir.signature).map _ = _
    rw [hdir]
    rfl
  | _ => cases hm

/-- An order given once is noted. -/
theorem noteSort_methods {ms : List Method} {o : Option (Direction × List String)}
    (h : ms.filterMap Method.order? = o.toList.map fun o => (o.1.signature, o.2)) :
    (ms.map Method.phrase).foldlM noteSort none = .ok o := by
  -- The order stands in one method at most, so those in front of it and behind it change nothing.
  induction ms with
  | nil =>
    cases o with
    | none => rfl
    | some o => cases h
  | cons m ms ih =>
    rw [List.map_cons, List.foldlM_cons]
    cases hm : m.order? with
    | none =>
      rw [List.filterMap_cons_none hm] at h
      rw [noteSort_unordered hm, ok_bind, ih h]
    | some r =>
      rw [List.filterMap_cons_some hm] at h
      cases o with
      | none => cases h
      | some o =>
        obtain ⟨hr, hnone⟩ := List.cons.inj h
        have hothers : ∀ p ∈ ms.map Method.phrase, ∀ o, noteSort o p = .ok o := by
          rw [List.forall_mem_map]
          exact fun m hm => noteSort_unordered (List.filterMap_eq_nil_iff.1 hnone m hm)
        rw [hr] at hm
        rw [noteSort_ordered hm, ok_bind, foldlM_unconcerned hothers]

/-- Keys are collected, and the last method decides on flag and value. -/
theorem noteParameter_methods (ms : List Method) (k : ActionKind) :
    (ms.map Method.phrase).foldl noteParameter { kind := k } =
      { kind := k
        dryRun := (ms.filterMap Method.dryRun?).getLast?
        keys := ms.flatMap Method.addedKeys
        newValue := (ms.filterMap Method.newValue?).getLast?.bind Literal.content? } := by
  induction ms using List.reverseRecOn with
  | nil => rfl
  | append_singleton ms m ih =>
    rw [List.map_append, List.foldl_append, ih, List.filterMap_append, List.filterMap_append,
      List.flatMap_append]
    cases m with
    | newValue v =>
      cases v <;> simp [noteParameter, Method.phrase, Method.dryRun?, Method.addedKeys,
        Method.newValue?, Literal.content?]
    | _ =>
      simp [noteParameter, Method.phrase, Method.dryRun?, Method.addedKeys, Method.newValue?]

/-! ## Agreement -/

/-- The statement with criteria and methods on a domain called `name`, with the action of a query.
-/
def FluentQuery.statement (q : FluentQuery) (name : String) (criteria : List Entry)
    (ms : List Method) : Statement :=
  ⟨name, q.action.kind.name, criteria, ms⟩

/-- Whether a text spells criteria on a domain called `name`, with the action and the settings of a
query. -/
def FluentQuery.SpelledBy (q : FluentQuery) (name : String) (criteria : List Entry)
    (text : String) : Prop :=
  ∃ ms, q.GivenBy ms ∧ Token.Spelled (q.statement name criteria ms).tokens text.toList

theorem isAction_name (k : ActionKind) : Parsed.IsAction k.name := by
  cases k
  · exact .inl rfl
  · exact .inr (.inl rfl)
  · exact .inr (.inr rfl)

theorem fits_methods {q : FluentQuery} (hoffset : ∀ n ∈ q.offset, Signed64.Fits n)
    (hlimit : ∀ n ∈ q.limit, Signed64.Fits n) : ∀ m ∈ q.methods, m.Fits := by
  unfold FluentQuery.methods
  simp only [List.forall_mem_cons, List.forall_mem_append, List.forall_mem_map, Option.mem_toList]
  exact ⟨trivial, trivial, ⟨⟨⟨fun _ _ => trivial, hoffset⟩, hlimit⟩, fun _ _ => trivial⟩,
    fun _ _ => trivial⟩

/-- The phrases of a statement describe the fluent query whose settings its methods give and whose
filters its criteria stand for. -/
theorem ofPhrases_eq_ofFluent (now : Int) {q : FluentQuery} {name : String} {criteria : List Entry}
    {ms : List Method} (hname : Domain.ofName? name = some q.domain)
    (hcriteria : Entry.ProperEntries criteria) (hms : q.GivenBy ms)
    (hfilters : q.filters = Clause.allOf (Entry.clausesOfEntries criteria)) :
    Query.ofPhrases now (q.statement name criteria ms).phrases = Query.ofFluent now q := by
  -- The phrases are gone through once for each setting. Every pass skips what does not concern it,
  -- and the rest is what the methods give.
  have hsubject := noteSubject_phrases (q.statement name criteria ms) hname rfl
  have hsort : (q.statement name criteria ms).phrases.foldlM noteSort none = .ok q.sort :=
    (noteSort_phrases _).trans (noteSort_methods hms.sort)
  have hoffset : ((q.statement name criteria ms).phrases.filterMap offset?).getLast? =
      q.offset := by
    rw [filterMap_phrases _ rfl rfl fun _ hp => hp.offset, List.filterMap_map, ← hms.offset]
    exact congrArg (fun f => (ms.filterMap f).getLast?) (funext Method.offset?_phrase)
  have hlimit : ((q.statement name criteria ms).phrases.filterMap limit?).getLast? = q.limit := by
    rw [filterMap_phrases _ rfl rfl fun _ hp => hp.limit, List.filterMap_map, ← hms.limit]
    exact congrArg (fun f => (ms.filterMap f).getLast?) (funext Method.limit?_phrase)
  have haction : (q.statement name criteria ms).phrases.foldl noteParameter
      { kind := q.action.kind } = q.action := by
    have hmethods := noteParameter_methods ms q.action.kind
    rw [hms.dryRun, hms.keys, hms.newValue] at hmethods
    exact (noteParameter_phrases _ _).trans hmethods
  have hincludes : (q.statement name criteria ms).phrases.flatMap included = q.includes := by
    rw [included_phrases, List.flatMap_map, ← hms.includes]
    exact congrArg (ms.flatMap ·) (funext Method.included_phrase)
  have hwrites : ∀ s', writeCriteria now s' (q.statement name criteria ms).phrases =
      Clause.writeAll now s' q.filters := by
    intro s'
    rw [hfilters]
    exact writeCriteria_phrases (q.statement name criteria ms) now hcriteria s'
  rw [ofPhrases_eq now hsubject hsort, hoffset, hlimit, hincludes, haction, ofFluent_eq]
  simp only [hwrites]

/-- A query on a domain with a name and with representable numbers has a text, and each of its texts
gives what the fluent query gives: the same query or the same error. -/
theorem ofText_eq_ofFluent (now : Int) (q : FluentQuery) {name : String} {criteria : List Entry}
    (hname : Domain.ofName? name = some q.domain) (hcriteria : Entry.ProperEntries criteria)
    (hfilters : q.filters = Clause.allOf (Entry.clausesOfEntries criteria))
    (hoffset : ∀ n ∈ q.offset, Signed64.Fits n) (hlimit : ∀ n ∈ q.limit, Signed64.Fits n) :
    (∃ text, q.SpelledBy name criteria text) ∧
      ∀ text, q.SpelledBy name criteria text → Query.ofText now text = Query.ofFluent now q := by
  have hproper : ∀ ms, (q.statement name criteria ms).Proper := by
    intro ms
    have hdomain : (Domain.ofName? name).isSome := by
      rw [hname]
      rfl
    exact ⟨hdomain, isAction_name q.action.kind, hcriteria⟩
  refine ⟨?_, ?_⟩
  · obtain ⟨text, htext⟩ := exists_spelled (hproper q.methods) (fits_methods hoffset hlimit)
    exact ⟨text, q.methods, givenBy_methods q, htext⟩
  · rintro text ⟨ms, hms, htext⟩
    have hstatement := statement_ofText (hproper ms) htext
    rw [← ofPhrases_eq_ofFluent now hname hcriteria hms hfilters]
    unfold Query.ofText Phrase.ofText
    rw [hstatement]
    rfl

/-- Items of one repository with a property of some form, or of one size. -/
def Entry.alternatives : List Entry :=
  [.objects .or [[.equals "repo" (.text "a"),
      .compares "@k" [("$match", .text "b*"), ("$ne", .text "bc")]], [.equals "size" (.number 3)]]]

/-- The same in a fluent query, for the names of ten items. -/
def FluentQuery.tenAlternatives : FluentQuery where
  domain := .items
  filters := [.group .or [.group .and [.test ⟨"repo", .equals, .text "a"⟩,
    .group .and [.test ⟨"@k", .matching, .text "b*"⟩, .test ⟨"@k", .notEquals, .text "bc"⟩]],
      .test ⟨"size", .equals, .number 3⟩]]
  includes := ["name"]
  limit := some 10

/-- The same as a text. -/
def textOfTenAlternatives : String :=
  " items . find ( \x7b \"$or\" : [ \x7b \"repo\" : \"a\" , \"@k\" : \x7b \"$match\" : \"b*\" ," ++
    " \"$ne\" : \"bc\" \x7d \x7d , \x7b \"size\" : 3 \x7d ] \x7d ) . include ( \"name\" )" ++
    " . limit ( 10 )"

/-- Text and fluent query give the same query. -/
theorem ofText_eq_ofFluent_alternatives :
    FluentQuery.tenAlternatives.SpelledBy "items" Entry.alternatives textOfTenAlternatives ∧
      Query.ofText 0 textOfTenAlternatives = Query.ofFluent 0 FluentQuery.tenAlternatives ∧
      (Query.ofFluent 0 FluentQuery.tenAlternatives).isOk := by
  have hproper : Entry.ProperEntries Entry.alternatives := by
    have htests : ∀ t ∈ [("$match", Literal.text "b*"), ("$ne", Literal.text "bc")],
        IsSignature t.1 ∧ t.2.Fits := by
      rw [List.forall_mem_cons, List.forall_mem_singleton]
      exact ⟨⟨⟨.matching, rfl⟩, trivial⟩, ⟨.notEquals, rfl⟩, trivial⟩
    simp only [Entry.alternatives, Entry.ProperEntries, Entry.Proper, Entry.ProperMembers]
    refine ⟨⟨⟨⟨?_, trivial⟩, ⟨?_, List.cons_ne_nil _ _, htests⟩, trivial⟩,
      ⟨⟨?_, ?_⟩, trivial⟩, trivial⟩, trivial⟩
    · unfold IsFieldKey
      decide
    · unfold IsFieldKey
      decide
    · unfold IsFieldKey
      decide
    · unfold Literal.Fits
      decide
  have hspelled : FluentQuery.tenAlternatives.SpelledBy "items" Entry.alternatives
      textOfTenAlternatives := by
    refine ⟨[.returning ["name"], .limit 10], ⟨rfl, rfl, rfl, rfl, rfl, rfl, rfl⟩, ?_⟩
    have htext : textOfTenAlternatives = String.ofList (Token.line
        (FluentQuery.tenAlternatives.statement "items" Entry.alternatives
          [.returning ["name"], .limit 10]).tokens) := by
      decide +kernel
    have hfits : ∀ m ∈ [Method.returning ["name"], .limit 10], m.Fits := by
      rw [List.forall_mem_cons, List.forall_mem_singleton]
      have hlimit : Signed64.Fits 10 := by decide
      exact ⟨trivial, hlimit⟩
    rw [htext, String.toList_ofList]
    exact Token.spelled_line (allSpellable_statementTokens ⟨rfl, .inl rfl, hproper⟩ hfits)
  have hname : Domain.ofName? "items" = some FluentQuery.tenAlternatives.domain := rfl
  have hoffset : ∀ n ∈ FluentQuery.tenAlternatives.offset, Signed64.Fits n :=
    fun n hn => absurd hn (Option.not_mem_none n)
  have hlimit : ∀ n ∈ FluentQuery.tenAlternatives.limit, Signed64.Fits n := by
    rintro n ⟨⟩
    decide
  obtain ⟨-, hagree⟩ :=
    ofText_eq_ofFluent 0 FluentQuery.tenAlternatives hname hproper rfl hoffset hlimit
  exact ⟨hspelled, hagree textOfTenAlternatives hspelled, by decide +kernel⟩

end ArtifactQuery
