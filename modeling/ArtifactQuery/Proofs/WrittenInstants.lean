import ArtifactQuery.Proofs.CivilDates
import ArtifactQuery.Proofs.Outcome
import ArtifactQuery.Proofs.Spelling
import ArtifactQuery.Proofs.TextParts
import ArtifactQuery.Row.Cell
import ArtifactQuery.Typing
import Mathlib.Algebra.Group.Nat.Defs

/-!
# Written instants are read back

An instant is written with a year of four digits as long as its year has no more, and then the text
names the same instant again.

* `number_digits`: a number is read back from its digits at a fixed width.
* `ofRfc3339?_stamp`: the fields of a text are read back.
* `read_textOf`: what is read of a written instant.
* `date_readsBack`: dates in results can be queried again, and read again from a column.
-/

namespace ArtifactQuery

/-! ## Digits at a fixed width -/

namespace Instant

open Reader

theorem digit_of_lt : ∀ d < 10, (Char.ofNat (48 + d)).isDigit = true ∧
    (Char.ofNat (48 + d)).toNat - 48 = d := by
  decide

@[simp] theorem length_digits (width n : Nat) : (digits width n).length = width := by
  induction width generalizing n with
  | zero => rfl
  | succ width ih => rw [digits, List.length_append, ih, List.length_singleton]

theorem isDigit_digits (width n : Nat) : (digits width n).all Char.isDigit := by
  induction width generalizing n with
  | zero => rfl
  | succ width ih =>
    rw [digits, List.all_append, ih, Bool.true_and, List.all_cons, List.all_nil, Bool.and_true]
    exact (digit_of_lt (n % 10) (Nat.mod_lt n (by decide))).1

/-- Digits at a fixed width spell the last places of a number. -/
theorem ofDigits_digits (width n : Nat) :
    Signed64.ofDigits (digits width n) = n % 10 ^ width := by
  induction width generalizing n with
  | zero => exact (Nat.mod_one n).symm
  | succ width ih =>
    have hlast := (digit_of_lt (n % 10) (Nat.mod_lt n (by decide))).2
    rw [digits, Signed64.ofDigits, List.foldl_append, ← Signed64.ofDigits, ih, List.foldl_cons,
      List.foldl_nil, hlast, Nat.pow_succ', Nat.mod_mul, Nat.add_comm]

/-- The digits in front of any characters are taken as the number. -/
theorem number_digits {width n : Nat} (h : n < 10 ^ width) (rest : List Char) :
    number width width (digits width n ++ rest) = some (n, rest) := by
  have htake : (digits width n ++ rest).take width = digits width n :=
    List.take_left' (length_digits width n)
  have hall : (digits width n).takeWhile Char.isDigit = digits width n :=
    List.takeWhile_eq_self_iff.2 (List.all_eq_true.1 (isDigit_digits width n))
  rw [number]
  simp only [htake, hall, length_digits, if_pos (Nat.le_refl width), ofDigits_digits,
    Nat.mod_eq_of_lt h, List.drop_left' (length_digits width n)]

theorem fraction_digits {n : Nat} (h : n < 1000) :
    fraction ('.' :: (digits 3 n ++ ['Z'])) = some (n, ['Z']) := by
  have hstop : ¬ ['Z'].head?.any Char.isDigit := by decide
  obtain ⟨htake, hdrop⟩ := takeWhile_dropWhile_append (isDigit_digits 3 n) hstop
  have hne : (digits 3 n).isEmpty = false := by
    rw [List.isEmpty_eq_false_iff_exists_mem]
    exact List.exists_mem_of_length_pos (by rw [length_digits]; decide)
  have hplaces : (digits 3 n ++ ['0', '0']).take 3 = digits 3 n :=
    List.take_left' (length_digits 3 n)
  have hplain : n % 10 ^ 3 = n := Nat.mod_eq_of_lt h
  rw [fraction]
  simp only [htake, hdrop, hne, hplaces, ofDigits_digits, hplain]
  exact if_neg Bool.false_ne_true

/-! ## Stamps -/

/-- A date and a time of the day in UTC, every part at its full width. -/
def stamp (y m d hour minute second millis : Nat) : List Char :=
  digits 4 y ++ '-' :: (digits 2 m ++ '-' :: (digits 2 d ++ 'T' :: (digits 2 hour ++ ':' ::
    (digits 2 minute ++ ':' :: (digits 2 second ++ '.' :: (digits 3 millis ++ ['Z']))))))

theorem sign_cons (c : Char) (cs : List Char) : sign c (c :: cs) = some ((), cs) := if_pos rfl

/-- What a reader takes is handed on with the rest. -/
theorem bind_reads {α β : Type} {r : Option (α × List Char)} {a : α} {rest : List Char}
    (h : r = some (a, rest)) (f : α × List Char → Option β) : r >>= f = f (a, rest) := by
  rw [h]
  rfl

/-- The parts of a stamp are read back. -/
theorem ofRfc3339?_stamp {y m d hour minute second millis : Nat} {days time : Int}
    (hy : y < 10000) (hm : m < 100) (hd : d < 100) (hhour : hour < 100) (hminute : minute < 100)
    (hsecond : second < 100) (hmillis : millis < 1000) (hdays : daysOf? y m d = some days)
    (htime : millisOf? hour minute second millis = some time) :
    ofRfc3339? (stamp y m d hour minute second millis) = some (day * days + time) := by
  have hzone : zone ['Z'] = some (0, []) := rfl
  rw [ofRfc3339?, stamp]
  -- Each reader takes its own part and hands on the rest.
  refine (bind_reads (number_digits hy _) _).trans ?_
  refine (bind_reads (sign_cons '-' _) _).trans ?_
  refine (bind_reads (number_digits hm _) _).trans ?_
  refine (bind_reads (sign_cons '-' _) _).trans ?_
  refine (bind_reads (number_digits hd _) _).trans ?_
  refine (bind_reads (a := ()) (by rw [sign_cons]; rfl) _).trans ?_
  refine (bind_reads (number_digits hhour _) _).trans ?_
  refine (bind_reads (sign_cons ':' _) _).trans ?_
  refine (bind_reads (number_digits hminute _) _).trans ?_
  refine (bind_reads (sign_cons ':' _) _).trans ?_
  refine (bind_reads (number_digits hsecond _) _).trans ?_
  refine (bind_reads (fraction_digits hmillis) _).trans ?_
  refine (bind_reads hzone _).trans ?_
  dsimp only
  rw [hdays, htime]
  show some (day * days + time - 60000 * 0) = _
  rw [Int.mul_zero, Int.sub_zero]

/-! ## Written instants -/

/-- The year of an instant, UTC. -/
def yearOf (millis : Int) : Int := (CivilDate.ofDays (millis / day)).year

/-- The calendar has the years of four digits. -/
theorem inCalendar_of_fourDigits {y : Int} (h : 0 ≤ y ∧ y ≤ 9999) :
    firstYear ≤ y ∧ y ≤ lastYear :=
  ⟨Int.le_trans (by decide) h.1, Int.le_trans h.2 (by decide)⟩

section Written

variable {millis : Int}

theorem textOf_eq_stamp (hyear : 0 ≤ yearOf millis ∧ yearOf millis ≤ 9999) :
    let d := CivilDate.ofDays (millis / day)
    let t := (millis % day).toNat
    textOf millis = stamp d.year.toNat d.month d.day (t / 3600000) (t / 60000 % 60)
      (t / 1000 % 60) (t % 1000) := by
  intro d t
  have hyearText : yearText d.year = digits 4 d.year.toNat := if_pos hyear
  rw [textOf, stamp, hyearText]
  simp only [List.append_assoc, List.cons_append]
  rfl

theorem daysOf?_ofDays (n : Int) (hyear : firstYear ≤ (CivilDate.ofDays n).year ∧
    (CivilDate.ofDays n).year ≤ lastYear) :
    daysOf? (CivilDate.ofDays n).year (CivilDate.ofDays n).month (CivilDate.ofDays n).day =
      some n := by
  rw [daysOf?, if_pos ⟨hyear.1, hyear.2, CivilDate.valid_ofDays n⟩]
  exact congrArg some (CivilDate.toDays_ofDays n)

/-- The parts of a time of the day make it up. -/
theorem millisOf?_parts {t : Nat} (h : t < 86400000) :
    millisOf? (t / 3600000) (t / 60000 % 60) (t / 1000 % 60) (t % 1000) = some (t : Int) := by
  have hbounds : t / 3600000 < 24 ∧ t / 60000 % 60 < 60 ∧ t / 1000 % 60 ≤ 60 := by omega
  rw [millisOf?, if_pos hbounds]
  congr 2
  omega

/-- The calendar has a date for an instant exactly if it has its year. -/
theorem hasDate_iff : HasDate millis ↔ firstYear ≤ yearOf millis ∧ yearOf millis ≤ lastYear := by
  have hlast : yearOf millis ≤ lastYear ↔ ¬ lastYear + 1 ≤ yearOf millis := by omega
  rw [hlast, yearOf, CivilDate.le_year_ofDays, CivilDate.le_year_ofDays, HasDate, day]
  omega

/-- A written instant is read as itself. -/
theorem ofRfc3339?_textOf (hyear : 0 ≤ yearOf millis ∧ yearOf millis ≤ 9999) :
    ofRfc3339? (textOf millis) = some millis := by
  obtain ⟨hlow, hhigh⟩ := hyear
  obtain ⟨hmonth, hmonth', hday, hday'⟩ := CivilDate.valid_ofDays (millis / day)
  have hdays := Nat.le_trans hday' (CivilDate.daysInMonth_le _ _)
  have hdate : daysOf? (yearOf millis).toNat (CivilDate.ofDays (millis / day)).month
      (CivilDate.ofDays (millis / day)).day = some (millis / day) := by
    rw [Int.toNat_of_nonneg hlow]
    exact daysOf?_ofDays _ (inCalendar_of_fourDigits ⟨hlow, hhigh⟩)
  have hfour : (yearOf millis).toNat < 10000 := by omega
  have hmod : 0 ≤ millis % day ∧ millis % day < 86400000 :=
    ⟨Int.emod_nonneg _ (by decide), Int.emod_lt_of_pos _ (by decide)⟩
  have hsum : day * (millis / day) + (millis % day).toNat = millis := by
    rw [Int.toNat_of_nonneg hmod.1]
    exact Int.mul_ediv_add_emod _ _
  rw [textOf_eq_stamp ⟨hlow, hhigh⟩]
  refine (ofRfc3339?_stamp hfour ?_ ?_ ?_ ?_ ?_ ?_ hdate (millisOf?_parts ?_)).trans
    (congrArg some hsum)
  all_goals omega

/-- A stamp starts with a digit and ends with its zone. -/
theorem trimChars_stamp (y m d hour minute second millis : Nat) :
    trimChars (stamp y m d hour minute second millis) =
      stamp y m d hour minute second millis := by
  have hne : digits 4 y ≠ [] := List.ne_nil_of_length_pos (by rw [length_digits]; decide)
  have hfirst : (stamp y m d hour minute second millis).head? = some ((digits 4 y).head hne) := by
    rw [stamp, List.head?_append_of_ne_nil _ hne, List.head?_eq_some_head hne]
  have hlast : (stamp y m d hour minute second millis).getLast? = some 'Z' := by
    simp only [stamp, ← List.cons_append, ← List.append_assoc]
    exact List.getLast?_concat
  have hdigit := List.all_eq_true.1 (isDigit_digits 4 y) _ (List.head_mem hne)
  refine trimChars_eq_self ?_ ?_
  · rw [hfirst, Option.all_some, isBlank_of_isDigit hdigit, Bool.not_false]
  · rw [hlast]
    decide

/-- A written instant is read as itself. -/
theorem read_textOf (hyear : 0 ≤ yearOf millis ∧ yearOf millis ≤ 9999) :
    read (String.ofList (textOf millis)) = .ok millis := by
  have htrim : trimChars (textOf millis) = textOf millis := by
    rw [textOf_eq_stamp hyear, trimChars_stamp]
  rw [read, String.toList_ofList, htrim, ofChars?, ofRfc3339?_textOf hyear]
  rfl

end Written

end Instant

/-! ## Dates in results -/

/-- A date in a year of at most four digits is written as a text that names the same instant, as the
value that a field is compared with and as the content of a column. -/
theorem date_readsBack {millis : Int}
    (hyear : 0 ≤ Instant.yearOf millis ∧ Instant.yearOf millis ≤ 9999) :
    ∃ s, (Value.date millis).json = .text s ∧ Instant.read s = .ok millis ∧
      Value.ofLiteral .date (.text s) = .ok (.date millis) ∧
      Value.ofCell .date (.text s) = .date millis := by
  have hwritten : Instant.written? millis = some (String.ofList (Instant.textOf millis)) :=
    if_pos (Instant.hasDate_iff.2 (Instant.inCalendar_of_fourDigits hyear))
  have hread := Instant.read_textOf hyear
  refine ⟨_, ?_, hread, ?_, ?_⟩
  · rw [Value.json, hwritten]
  · rw [Value.ofLiteral, Value.dateOf, hread, ok_map]
    · exact Literal.noConfusion
  · rw [Value.ofCell, Value.dateOfText, hread]

/-- The last millisecond of a leap day before 1970. -/
theorem date_readsBack_leapDay :
    (0 ≤ Instant.yearOf (-2077660800001) ∧ Instant.yearOf (-2077660800001) ≤ 9999) ∧
      ∃ s, (Value.date (-2077660800001)).json = .text s ∧
        Instant.read s = .ok (-2077660800001) ∧
        Value.ofLiteral .date (.text s) = .ok (.date (-2077660800001)) ∧
        Value.ofCell .date (.text s) = .date (-2077660800001) :=
  have hyear : 0 ≤ Instant.yearOf (-2077660800001) ∧ Instant.yearOf (-2077660800001) ≤ 9999 := by
    decide
  ⟨hyear, date_readsBack hyear⟩

end ArtifactQuery
