import ArtifactQuery.Proofs.Outcome
import ArtifactQuery.Proofs.Spelling
import ArtifactQuery.Proofs.TextParts
import ArtifactQuery.Time.Span
import Mathlib.Data.List.Induction
import Mathlib.Data.Nat.Digits.Defs

/-!
# Spans are exact or refused

A span is an amount and a unit. The instant before another by a span is computed without rounding
and without wrapping around: whatever does not fit is refused.

* `Span.TimeUnit`: the units, each with a short and a long name.
* `Span.Spells`: the texts that name an amount of a unit.
* `Span.read_eq_ok`: what is read is what the text names.
* `Span.before_exact`: the instant before another, in whole numbers of any size.
-/

namespace ArtifactQuery.Span

/-! ## Units -/

/-- The units of time. -/
inductive TimeUnit
  | millisecond
  | second
  | minute
  | hour
  | day
  | week
  | month
  | year

namespace TimeUnit

/-- The short name of a unit. -/
def short : TimeUnit → String
  | millisecond => "ms"
  | second => "s"
  | minute => "mi"
  | hour => "h"
  | day => "d"
  | week => "w"
  | month => "mo"
  | year => "y"

/-- The long name of a unit. -/
def long : TimeUnit → String
  | millisecond => "millis"
  | second => "seconds"
  | minute => "minutes"
  | hour => "hours"
  | day => "days"
  | week => "weeks"
  | month => "months"
  | year => "years"

/-- The milliseconds of a unit. -/
def millis : TimeUnit → Nat
  | millisecond => 1
  | second => 1000
  | minute => 60 * 1000
  | hour => 60 * (60 * 1000)
  | day => 24 * (60 * (60 * 1000))
  | week => 7 * (24 * (60 * (60 * 1000)))
  | month => 30 * (24 * (60 * (60 * 1000)))
  | year => 365 * (24 * (60 * (60 * 1000)))

/-- Whether a unit is called `name`. -/
def Called (u : TimeUnit) (name : String) : Prop := name = u.short ∨ name = u.long

/-- A name of a unit starts with a letter and ends with one. -/
theorem Called.tight {u : TimeUnit} {name : String} (h : u.Called name) :
    name.toList.head?.any Char.isDigit = false ∧ TightStart name ∧ TightEnd name := by
  rcases h with rfl | rfl <;> cases u <;> decide +kernel

end TimeUnit

/-- The units that are known by their names. -/
theorem unit?_eq_some {name : String} {size : Nat} :
    unit? name = some size ↔ ∃ u : TimeUnit, u.Called name ∧ size = u.millis := by
  have known : ∀ u : TimeUnit, u.Called name → some u.millis = some size →
      ∃ u : TimeUnit, u.Called name ∧ size = u.millis :=
    fun u hname hsize => ⟨u, hname, (Option.some.inj hsize).symm⟩
  constructor
  · intro h
    unfold unit? at h
    split at h
    · exact known .millisecond (.inl rfl) h
    · exact known .millisecond (.inr rfl) h
    · exact known .second (.inl rfl) h
    · exact known .second (.inr rfl) h
    · exact known .minute (.inl rfl) h
    · exact known .minute (.inr rfl) h
    · exact known .hour (.inl rfl) h
    · exact known .hour (.inr rfl) h
    · exact known .day (.inl rfl) h
    · exact known .day (.inr rfl) h
    · exact known .week (.inl rfl) h
    · exact known .week (.inr rfl) h
    · exact known .month (.inl rfl) h
    · exact known .month (.inr rfl) h
    · exact known .year (.inl rfl) h
    · exact known .year (.inr rfl) h
    · cases h
  · rintro ⟨u, rfl | rfl, rfl⟩ <;> cases u <;> rfl

/-! ## Spellings -/

/-- The number that decimal digits spell, in positional notation. -/
def amount (digits : List Char) : Nat :=
  Nat.ofDigits 10 (digits.map fun c => c.toNat - 48).reverse

theorem ofDigits_eq_amount (digits : List Char) : Signed64.ofDigits digits = amount digits := by
  -- The last digit comes last in the fold and weighs least.
  induction digits using List.reverseRecOn with
  | nil => rfl
  | append_singleton digits c ih =>
    rw [Signed64.ofDigits, List.foldl_append, ← Signed64.ofDigits, ih, amount, amount,
      List.map_append, List.reverse_append]
    exact (Nat.add_comm _ _).trans (Nat.ofDigits_cons (b := 10)).symm

/-- Whether `s` names `n` units `u`: between blanks, some digits, perhaps blanks, and a name of the
unit. -/
def Spells (s : String) (n : Nat) (u : TimeUnit) : Prop :=
  ∃ digits gap name, trimChars s.toList = digits ++ (gap ++ name.toList) ∧
    digits ≠ [] ∧ digits.all Char.isDigit ∧ gap.all isBlank ∧ u.Called name ∧ n = amount digits

/-- What follows the digits of a trimmed text ends with no blank. -/
theorem getLast?_dropWhile_trimChars (cs : List Char) (p : Char → Bool) :
    ((trimChars cs).dropWhile p).getLast?.all (! isBlank ·) := by
  obtain ⟨front, hfront⟩ := List.dropWhile_suffix (l := trimChars cs) p
  have hlast := getLast?_trimChars cs
  rw [← hfront, List.getLast?_append] at hlast
  cases h : ((trimChars cs).dropWhile p).getLast? with
  | none => rfl
  | some c =>
    rw [h, Option.some_or] at hlast
    exact hlast

/-- The digits and the unit that are cut out of a text are those it is spelled with. -/
theorem spells_iff {s : String} {n : Nat} {u : TimeUnit} :
    Spells s n u ↔ (trimChars s.toList).takeWhile Char.isDigit ≠ [] ∧
      n = amount ((trimChars s.toList).takeWhile Char.isDigit) ∧
      u.Called (String.ofList (trimChars ((trimChars s.toList).dropWhile Char.isDigit))) := by
  constructor
  · rintro ⟨digits, gap, name, htext, hne, hdigits, hgap, hname, rfl⟩
    obtain ⟨hfirst, hstart, hend⟩ := hname.tight
    -- No blank and no name of a unit goes on with a digit, so the digits end where the spelling
    -- says.
    have hrest : ¬ (gap ++ name.toList).head?.any Char.isDigit := by
      cases gap with
      | nil => simpa using hfirst
      | cons c gap =>
        intro hc
        rw [List.all_cons, Bool.and_eq_true] at hgap
        rw [isBlank_of_isDigit hc] at hgap
        exact Bool.false_ne_true hgap.1
    obtain ⟨htake, hdrop⟩ := takeWhile_dropWhile_append hdigits hrest
    rw [htext, htake, hdrop, trimChars_append_of_blanks hgap,
      trimChars_toList_eq_self hstart hend, String.ofList_toList]
    exact ⟨hne, rfl, hname⟩
  · rintro ⟨hne, rfl, hname⟩
    have hlast := getLast?_dropWhile_trimChars s.toList Char.isDigit
    refine ⟨_, ((trimChars s.toList).dropWhile Char.isDigit).takeWhile isBlank, _, ?_, hne,
      List.all_takeWhile, List.all_takeWhile, hname, rfl⟩
    rw [String.toList_ofList, trimChars_of_getLast? hlast, List.takeWhile_append_dropWhile,
      List.takeWhile_append_dropWhile]

/-! ## Reading -/

/-- An amount is read where there are digits, and where their number is representable. -/
theorem ofChars?_takeWhile {cs : List Char} {n : Int} :
    Signed64.ofChars? (cs.takeWhile Char.isDigit) = some n ↔ cs.takeWhile Char.isDigit ≠ [] ∧
      (amount (cs.takeWhile Char.isDigit) : Int) ≤ Signed64.greatest ∧
      n = amount (cs.takeWhile Char.isDigit) := by
  have hdigits : (cs.takeWhile Char.isDigit).all Char.isDigit := List.all_takeWhile
  cases hcs : cs.takeWhile Char.isDigit with
  | nil =>
    constructor
    · intro h
      cases h
    · rintro ⟨hne, -, -⟩
      exact absurd rfl hne
  | cons c digits =>
    rw [hcs] at hdigits
    have hleast : Signed64.least ≤ (amount (c :: digits) : Int) :=
      Int.le_trans (by decide) (Int.natCast_nonneg _)
    rw [Token.ofChars?_of_digits hdigits, ofDigits_eq_amount, Signed64.check?,
      Option.ite_none_right_eq_some, Option.some.injEq, Signed64.Fits]
    constructor
    · rintro ⟨⟨-, hgreatest⟩, rfl⟩
      exact ⟨List.cons_ne_nil _ _, hgreatest, rfl⟩
    · rintro ⟨-, hgreatest, rfl⟩
      exact ⟨⟨hleast, hgreatest⟩, rfl⟩

/-- An amount is no more than its milliseconds. -/
theorem le_mul_millis (n : Nat) (u : TimeUnit) : (n : Int) ≤ n * u.millis := by
  have hmillis : 0 < u.millis := by cases u <;> decide
  exact_mod_cast Nat.le_mul_of_pos_right n hmillis

/-- The span read is the one that the text names, unless it is beyond the range. -/
theorem read_eq_ok {s : String} {span : Int} : read s = .ok span ↔
    ∃ (n : Nat) (u : TimeUnit), Spells s n u ∧ (n * u.millis : Int) ≤ Signed64.greatest ∧
      span = n * u.millis := by
  simp only [spells_iff]
  constructor
  · intro h
    dsimp only [read] at h
    split at h
    · cases h
    case h_2 n hamount =>
      obtain ⟨hne, -, rfl⟩ := ofChars?_takeWhile.1 hamount
      split at h
      · cases h
      case h_2 size hunit =>
        obtain ⟨u, hname, rfl⟩ := unit?_eq_some.1 hunit
        split at h
        case isTrue hrange =>
          cases h
          exact ⟨_, u, ⟨hne, rfl, hname⟩, hrange, rfl⟩
        case isFalse => cases h
  · rintro ⟨n, u, ⟨hne, rfl, hname⟩, hrange, rfl⟩
    -- The milliseconds are in range, and so is the amount, which is no greater.
    have hamount := Int.le_trans (le_mul_millis _ u) hrange
    simp only [read, ofChars?_takeWhile.2 ⟨hne, hamount, rfl⟩, unit?_eq_some.2 ⟨u, hname, rfl⟩]
    exact if_pos hrange

theorem read_eq_error {s : String} {e : QueryError} (h : read s = .error e) :
    ∃ cause, e = .invalidValue cause := by
  dsimp only [read] at h
  split at h
  · exact ⟨_, (Except.error.inj h).symm⟩
  · split at h
    · exact ⟨_, (Except.error.inj h).symm⟩
    · split at h
      · cases h
      · exact ⟨_, (Except.error.inj h).symm⟩

/-! ## The instant before another -/

/-- Whether `n` units `u` are representable, as a number and in milliseconds, and so is the instant
that far before `now`. -/
def InRange (now : Int) (n : Nat) (u : TimeUnit) : Prop :=
  (n : Int) ≤ Signed64.greatest ∧ (n * u.millis : Int) ≤ Signed64.greatest ∧
    Signed64.Fits (now - n * u.millis)

theorem before_of_read {s : String} {span : Int} (h : read s = .ok span) (now : Int) :
    before now s = if Signed64.Fits (now - span) then .ok (now - span)
      else .error (.invalidValue (.spanOutOfRange s)) := by
  rw [before, h, ok_bind, Signed64.check?]
  by_cases hfits : Signed64.Fits (now - span)
  · rw [if_pos hfits, if_pos hfits]
  · rw [if_neg hfits, if_neg hfits]

/-- The instant before another is the exact difference whenever the text names a span and every
number on the way is representable; otherwise the text is refused. -/
theorem before_exact (now : Int) (s : String) :
    (∀ t, before now s = .ok t ↔ ∃ (n : Nat) (u : TimeUnit),
      Spells s n u ∧ InRange now n u ∧ t = now - n * u.millis) ∧
    ((∃ t, before now s = .ok t) ∨ ∃ cause, before now s = .error (.invalidValue cause)) := by
  constructor
  · intro t
    constructor
    · intro h
      obtain ⟨span, hread, -⟩ := bind_eq_ok.1 h
      obtain ⟨n, u, hspells, hrange, rfl⟩ := read_eq_ok.1 hread
      rw [before_of_read hread] at h
      split at h
      case isTrue hfits =>
        have hamount : (n : Int) ≤ Signed64.greatest := Int.le_trans (le_mul_millis n u) hrange
        exact ⟨n, u, hspells, ⟨hamount, hrange, hfits⟩, (Except.ok.inj h).symm⟩
      case isFalse => cases h
    · rintro ⟨n, u, hspells, ⟨-, hrange, hfits⟩, rfl⟩
      rw [before_of_read (read_eq_ok.2 ⟨n, u, hspells, hrange, rfl⟩), if_pos hfits]
  · cases hread : read s with
    | error e =>
      obtain ⟨cause, rfl⟩ := read_eq_error hread
      refine .inr ⟨cause, ?_⟩
      rw [before, hread, error_bind]
    | ok span =>
      rw [before_of_read hread]
      by_cases hfits : Signed64.Fits (now - span)
      · exact .inl ⟨_, if_pos hfits⟩
      · exact .inr ⟨_, if_neg hfits⟩

end ArtifactQuery.Span
