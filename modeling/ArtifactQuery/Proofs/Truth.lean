import ArtifactQuery.Draft
import Mathlib.Data.List.Basic

/-!
# Truth of a condition

The flat condition of a query has a truth value under every valuation of its criteria: parentheses
bind first, then `and`, then `or`.

* `Element.Means v r es b`: the grammar. Under `v` the elements `es` form an operand, a conjunction
  or a disjunction (the rank `r`) of value `b`.
* `Element.satisfied v es`: the value, computed in one pass with a stack of open parentheses.
* `Means.satisfied_eq`: where the grammar gives a value, the pass computes it.
-/

namespace ArtifactQuery

/-! ## The grammar -/

/-- How tightly a piece of a condition is bound. -/
inductive Rank
  | operand
  | conjunction
  | disjunction
  deriving DecidableEq, Repr

/-- Under the valuation `v`, the elements form a piece of a condition with the given value. -/
inductive Element.Means (v : Criterion → Bool) : Rank → List Element → Bool → Prop
  | criterion (c : Criterion) : Means v .operand [.criterion c] (v c)
  | paren {es : List Element} {b : Bool} (h : Means v .disjunction es b) :
      Means v .operand (.openParen :: es ++ [.closeParen]) b
  | one {es : List Element} {b : Bool} (h : Means v .operand es b) : Means v .conjunction es b
  | and {es fs : List Element} {b b' : Bool} (h : Means v .conjunction es b)
      (h' : Means v .operand fs b') : Means v .conjunction (es ++ .and :: fs) (b && b')
  | only {es : List Element} {b : Bool} (h : Means v .conjunction es b) : Means v .disjunction es b
  | or {es fs : List Element} {b b' : Bool} (h : Means v .disjunction es b)
      (h' : Means v .conjunction fs b') : Means v .disjunction (es ++ .or :: fs) (b || b')

namespace Element.Means

variable {v : Criterion → Bool} {es fs : List Element} {b b' : Bool}

/-- A conjunction behind an operand. -/
theorem and_right (h : Means v .operand es b) (h' : Means v .conjunction fs b') :
    Means v .conjunction (es ++ .and :: fs) (b && b') := by
  generalize hr : Rank.conjunction = r at h'
  induction h' with
  | one h' => exact .and (.one h) h'
  | @and es' fs' b₁ b₂ _ h₂ ih =>
    have := Means.and (ih rfl) h₂
    rw [Bool.and_assoc, List.append_assoc] at this
    exact this
  | _ => cases hr

/-- A disjunction behind a conjunction. -/
theorem or_right (h : Means v .conjunction es b) (h' : Means v .disjunction fs b') :
    Means v .disjunction (es ++ .or :: fs) (b || b') := by
  generalize hr : Rank.disjunction = r at h'
  induction h' with
  | only h' => exact .or (.only h) h'
  | @or es' fs' b₁ b₂ _ h₂ ih =>
    have := Means.or (ih rfl) h₂
    rw [Bool.or_assoc, List.append_assoc] at this
    exact this
  | _ => cases hr

end Element.Means

/-! ## The pass -/

/-- What has been read since the last open parenthesis: whether one of the finished alternatives
holds, and whether the one being read does so far. -/
structure Alternatives where
  earlier : Bool := false
  current : Bool := true
  deriving DecidableEq, Repr

namespace Alternatives

/-- Whether one of the alternatives holds. -/
def value (a : Alternatives) : Bool := a.earlier || a.current

/-- A further operand of the alternative being read. -/
def meet (a : Alternatives) (b : Bool) : Alternatives := { a with current := a.current && b }

/-- A further alternative. -/
def next (a : Alternatives) : Alternatives := ⟨a.value, true⟩

@[simp] theorem meet_earlier (a : Alternatives) (b : Bool) : (a.meet b).earlier = a.earlier := rfl

@[simp] theorem meet_current (a : Alternatives) (b : Bool) :
    (a.meet b).current = (a.current && b) := rfl

@[simp] theorem next_earlier (a : Alternatives) : a.next.earlier = a.value := rfl

@[simp] theorem next_current (a : Alternatives) : a.next.current = true := rfl

theorem meet_meet (a : Alternatives) (b b' : Bool) : (a.meet b).meet b' = a.meet (b && b') := by
  simp [meet, Bool.and_assoc]

theorem value_meet {a : Alternatives} (h : a.current = true) (b : Bool) :
    (a.meet b).value = (a.earlier || b) := by
  simp [value, h]

end Alternatives

namespace Element

/-- Reads one element; the innermost open parenthesis comes first. -/
def read (v : Criterion → Bool) : List Alternatives → Element → List Alternatives
  | a :: as, criterion c => a.meet (v c) :: as
  | a :: as, or => a.next :: as
  | as, openParen => {} :: as
  | a :: a' :: as, closeParen => a'.meet a.value :: as
  | as, _ => as

/-- Reads elements from the front. -/
def readAll (v : Criterion → Bool) (as : List Alternatives) (es : List Element) :
    List Alternatives :=
  es.foldl (read v) as

/-- Whether the valuation `v` satisfies a condition. No elements are satisfied by all of them. -/
def satisfied (v : Criterion → Bool) (es : List Element) : Bool :=
  (readAll v [{}] es).head?.any Alternatives.value

section Pass

variable (v : Criterion → Bool)

@[simp] theorem readAll_nil (as : List Alternatives) : readAll v as [] = as := rfl

@[simp] theorem readAll_cons (as : List Alternatives) (e : Element) (es : List Element) :
    readAll v as (e :: es) = readAll v (read v as e) es := rfl

theorem readAll_append (as : List Alternatives) (es fs : List Element) :
    readAll v as (es ++ fs) = readAll v (readAll v as es) fs :=
  List.foldl_append

@[simp] theorem read_criterion (a : Alternatives) (as : List Alternatives) (c : Criterion) :
    read v (a :: as) (criterion c) = a.meet (v c) :: as := rfl

@[simp] theorem read_and (as : List Alternatives) : read v as and = as := by
  cases as <;> rfl

@[simp] theorem read_or (a : Alternatives) (as : List Alternatives) :
    read v (a :: as) or = a.next :: as := rfl

@[simp] theorem read_openParen (as : List Alternatives) : read v as openParen = {} :: as := by
  cases as <;> rfl

@[simp] theorem read_closeParen (a a' : Alternatives) (as : List Alternatives) :
    read v (a :: a' :: as) closeParen = a'.meet a.value :: as := rfl

theorem satisfied_eq_value {es : List Element} {a : Alternatives} {as : List Alternatives}
    (h : readAll v [{}] es = a :: as) : satisfied v es = a.value := by
  rw [satisfied, h]
  rfl

end Pass

/-- What the pass makes of a piece of a condition: operands and conjunctions extend the alternative
being read, a disjunction that starts with an alternative adds its own. -/
def Settles (v : Criterion → Bool) (es : List Element) (b : Bool) : Rank → Prop
  | .operand | .conjunction => ∀ a as, readAll v (a :: as) es = a.meet b :: as
  | .disjunction => ∀ a as, a.current = true →
    ∃ a', readAll v (a :: as) es = a' :: as ∧ a'.value = (a.earlier || b)

namespace Means

variable {v : Criterion → Bool} {r : Rank} {es : List Element} {b : Bool}

/-- The pass agrees with the grammar at every rank. -/
theorem settles (h : Means v r es b) : Settles v es b r := by
  induction h with
  | criterion c => exact fun a as => rfl
  | @paren es b _ ih =>
    intro a as
    obtain ⟨a', hread, hvalue⟩ := ih {} (a :: as) rfl
    rw [List.cons_append, readAll_cons, read_openParen, readAll_append, hread]
    simp [hvalue]
  | one _ ih => exact ih
  | @and es fs b b' _ _ ih ih' =>
    intro a as
    rw [readAll_append, ih, readAll_cons, read_and, ih', Alternatives.meet_meet]
  | @only es b _ ih =>
    intro a as ha
    exact ⟨a.meet b, ih a as, Alternatives.value_meet ha b⟩
  | @or es fs b b' _ _ ih ih' =>
    intro a as ha
    obtain ⟨a', hread, hvalue⟩ := ih a as ha
    refine ⟨a'.next.meet b', ?_, ?_⟩
    · rw [readAll_append, hread, readAll_cons, read_or, ih']
    · rw [Alternatives.value_meet rfl, Alternatives.next_earlier, hvalue, Bool.or_assoc]

theorem readAll_operand (h : Means v .operand es b) (a : Alternatives) (as : List Alternatives) :
    readAll v (a :: as) es = a.meet b :: as :=
  h.settles a as

/-- Every piece is a disjunction as well. -/
theorem toDisjunction (h : Means v r es b) : Means v .disjunction es b := by
  cases r with
  | operand => exact .only (.one h)
  | conjunction => exact .only h
  | disjunction => exact h

/-- The pass computes the value that the grammar gives. -/
theorem satisfied_eq (h : Means v r es b) : satisfied v es = b := by
  obtain ⟨a, hread, hvalue⟩ := h.toDisjunction.settles {} [] rfl
  rw [satisfied_eq_value v hread, hvalue]
  rfl

end Means

end Element

end ArtifactQuery
