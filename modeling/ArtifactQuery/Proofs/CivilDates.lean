import ArtifactQuery.Time.Calendar

/-!
# Dates and days

Every count of days is that of a date, which the calendar has.

* `yearOfCycle`, `monthOfYear`: the year and the month of a day, counted from March.
* `yearStart_yearOfCycle`, `monthStart_monthOfYear`: a day lies in its year and in its month.
* `toDays_ofDays`, `valid_ofDays`: the date of a count of days.
* `toDays_newYear`, `le_year_ofDays`: the days on which years begin, and the year of a day.
-/

namespace ArtifactQuery.CivilDate

/-! ## Years and months from March -/

/-- The year of a day of a cycle. -/
def yearOfCycle (n : Int) : Int := (n - n / 1460 + n / 36524 - n / 146096) / 365

/-- The month of a day of a year. -/
def monthOfYear (n : Int) : Int := (5 * n + 2) / 153

/-- Without its leap days, a cycle has 365 days for every year. -/
theorem yearOfCycle_days (n : Int) :
    365 * yearOfCycle n ≤ n - n / 1460 + n / 36524 - n / 146096 ∧
      n - n / 1460 + n / 36524 - n / 146096 < 365 * yearOfCycle n + 365 := by
  rw [yearOfCycle]
  omega

section Years

variable {n : Int}

/-- The quotients in `yearOfCycle` count the leap days before the year, but for one. -/
theorem yearOfCycle_quotients (hlow : 0 ≤ n) (hhigh : n < cycle) :
    yearOfCycle n / 100 = n / 36524 - n / 146096 ∧
      yearOfCycle n / 4 ≤ n / 1460 ∧ n / 1460 ≤ yearOfCycle n / 4 + 1 := by
  rw [cycle] at hhigh
  -- The last day of a cycle would begin a fifth century.
  have hlast : n / 146096 = 0 ∨ n = 146096 ∧ n / 146096 = 1 := by omega
  rw [yearOfCycle]
  refine ⟨?_, ?_, ?_⟩
  · omega
  · omega
  · omega

/-- A day of a cycle lies in its year, which has 366 days at most. -/
theorem yearStart_yearOfCycle (hlow : 0 ≤ n) (hhigh : n < cycle) :
    0 ≤ yearOfCycle n ∧ yearOfCycle n < 400 ∧ yearStart (yearOfCycle n) ≤ n ∧
      n - yearStart (yearOfCycle n) ≤ 365 := by
  obtain ⟨hcentury, hfour, hfour'⟩ := yearOfCycle_quotients hlow hhigh
  obtain ⟨hbegun, hnext⟩ := yearOfCycle_days n
  rw [cycle] at hhigh
  rw [yearStart]
  generalize yearOfCycle n = y at *
  refine ⟨?_, ?_, ?_, ?_⟩
  · omega
  · omega
  · omega
  · omega

/-- The last day of 366 is a leap day: the year behind it, from January, has one. -/
theorem isLeapYear_of_last (hlow : 0 ≤ n) (hhigh : n < cycle)
    (hlast : n - yearStart (yearOfCycle n) = 365) (c : Int) :
    isLeapYear (400 * c + yearOfCycle n + 1) = true := by
  obtain ⟨hcentury, hfour, hfour'⟩ := yearOfCycle_quotients hlow hhigh
  obtain ⟨hbegun, hnext⟩ := yearOfCycle_days n
  rw [cycle] at hhigh
  rw [yearStart] at hlast
  -- A 366th day is left only in the last of four years, and in the last year of a century only at
  -- the end of the cycle.
  have hbefore : yearOfCycle n % 4 = 3 := by
    generalize yearOfCycle n = y at *
    omega
  have hturn : yearOfCycle n % 100 = 99 → yearOfCycle n = 399 := by
    have hend : n / 146096 = 0 ∨ n / 146096 = 1 := by omega
    generalize yearOfCycle n = y at *
    omega
  rw [isLeapYear, decide_eq_true_eq]
  omega

/-- A day of a year lies in its month. -/
theorem monthStart_monthOfYear (hlow : 0 ≤ n) (hhigh : n ≤ 365) :
    0 ≤ monthOfYear n ∧ monthOfYear n < 12 ∧ monthStart (monthOfYear n) ≤ n ∧
      n < monthStart (monthOfYear n + 1) := by
  simp only [monthOfYear, monthStart]
  refine ⟨?_, ?_, ?_, ?_⟩
  · omega
  · omega
  · omega
  · omega

end Years

/-! ## Dates of counts -/

/-- The date of the `n`-th day of the `y`-th year of the `c`-th cycle, counted from March. -/
def fromMarch (c y n : Int) : CivilDate :=
  let m := monthOfYear n
  let month := if m < 10 then m + 3 else m - 9
  { year := 400 * c + y + (if month ≤ 2 then 1 else 0)
    month := month.toNat
    day := (n - monthStart m + 1).toNat }

theorem ofDays_eq (n : Int) : ofDays n = fromMarch ((n + epoch) / cycle)
    (yearOfCycle ((n + epoch) % cycle))
    ((n + epoch) % cycle - yearStart (yearOfCycle ((n + epoch) % cycle))) := rfl

section FromMarch

variable {c y n : Int}

/-- From March to December the year is the one that began in January before. -/
theorem fromMarch_of_lt (hn : 0 ≤ n) (h : monthOfYear n < 10) : fromMarch c y n =
    ⟨400 * c + y, (monthOfYear n + 3).toNat, (n - monthStart (monthOfYear n) + 1).toNat⟩ := by
  have hm : ¬ monthOfYear n + 3 ≤ 2 := by
    rw [monthOfYear]
    omega
  simp only [fromMarch, if_pos h, if_neg hm, Int.add_zero]

/-- In January and February it is the next one. -/
theorem fromMarch_of_le (h : 10 ≤ monthOfYear n) (h' : monthOfYear n < 12) : fromMarch c y n =
    ⟨400 * c + y + 1, (monthOfYear n - 9).toNat, (n - monthStart (monthOfYear n) + 1).toNat⟩ := by
  have hm : monthOfYear n - 9 ≤ 2 := by omega
  simp only [fromMarch, if_neg (Int.not_lt.2 h), if_pos hm]

theorem toDays_fromMarch (hy : 0 ≤ y) (hy' : y < 400) (hn : 0 ≤ n) (hn' : n ≤ 365) :
    (fromMarch c y n).toDays = cycle * c + yearStart y + n - epoch := by
  obtain ⟨hm, hm', hstart, -⟩ := monthStart_monthOfYear hn hn'
  have hcycle : (400 * c + y) / 400 = c := by omega
  have hyear : (400 * c + y) % 400 = y := by omega
  by_cases h : monthOfYear n < 10
  · rw [fromMarch_of_lt hn h]
    have hback : (((monthOfYear n + 3).toNat : Int) + 9) % 12 = monthOfYear n := by omega
    simp only [toDays, hback]
    rw [if_neg (by omega), hcycle, hyear]
    omega
  · rw [fromMarch_of_le (Int.not_lt.1 h) hm']
    have hback : (((monthOfYear n - 9).toNat : Int) + 9) % 12 = monthOfYear n := by omega
    simp only [toDays, hback]
    rw [if_pos (by omega), Int.add_sub_cancel, hcycle, hyear]
    omega

/-- The months from March have as many days as lie between their starts, February one more if it is
followed by the first of March of a leap year. -/
theorem valid_fromMarch (hn : 0 ≤ n) (hn' : n ≤ 365)
    (hleap : n = 365 → isLeapYear (400 * c + y + 1) = true) : (fromMarch c y n).Valid := by
  obtain ⟨hm, hm', hstart, hend⟩ := monthStart_monthOfYear hn hn'
  rw [monthStart] at hstart hend
  by_cases h : monthOfYear n < 10
  · rw [fromMarch_of_lt hn h]
    simp only [Valid, daysInMonth, monthStart]
    generalize monthOfYear n = m at *
    split
    · omega
    split
    · omega
    · omega
  · rw [fromMarch_of_le (Int.not_lt.1 h) hm']
    simp only [Valid, daysInMonth, monthStart]
    generalize monthOfYear n = m at *
    split
    · split
      · omega
      -- Without a leap day February is a day shorter, and the last day of 366 does not occur.
      · rename_i hno
        have hne : n ≠ 365 := fun hlast => hno (hleap hlast)
        omega
    split
    · omega
    · omega

end FromMarch

section OfDays

variable (n : Int)

/-- The parts that `ofDays` takes a count of days apart into. -/
theorem parts_ofDays : 0 ≤ (n + epoch) % cycle ∧ (n + epoch) % cycle < cycle ∧
    cycle * ((n + epoch) / cycle) + (n + epoch) % cycle = n + epoch :=
  ⟨Int.emod_nonneg _ (by decide), Int.emod_lt_of_pos _ (by decide), Int.mul_ediv_add_emod _ _⟩

/-- A count of days is that of its date. -/
theorem toDays_ofDays : (ofDays n).toDays = n := by
  obtain ⟨hlow, hhigh, hsum⟩ := parts_ofDays n
  obtain ⟨hy, hy', hstart, hday⟩ := yearStart_yearOfCycle hlow hhigh
  rw [ofDays_eq, toDays_fromMarch hy hy' (by omega) hday]
  omega

/-- The date of a count of days exists. -/
theorem valid_ofDays : (ofDays n).Valid := by
  obtain ⟨hlow, hhigh, -⟩ := parts_ofDays n
  obtain ⟨hy, hy', hstart, hday⟩ := yearStart_yearOfCycle hlow hhigh
  rw [ofDays_eq]
  exact valid_fromMarch (by omega) hday fun hlast => isLeapYear_of_last hlow hhigh hlast _

end OfDays

/-! ## Years of dates -/

/-- The first days of years, with the leap days before them. -/
theorem toDays_newYear (y : Int) : (mk y 1 1).toDays =
    365 * (y - 1) + (y - 1) / 4 - (y - 1) / 100 + (y - 1) / 400 + 306 - epoch := by
  simp only [toDays, cycle, yearStart, monthStart]
  simp only [reduceIte, Nat.reduceLeDiff]
  omega

theorem newYear_mono {y y' : Int} (h : y ≤ y') : (mk y 1 1).toDays ≤ (mk y' 1 1).toDays := by
  rw [toDays_newYear, toDays_newYear]
  omega

theorem daysInMonth_le (y : Int) (m : Nat) : daysInMonth y m ≤ 31 := by
  rw [daysInMonth]
  split
  · split <;> decide
  · split <;> decide

/-- A date lies in its year. -/
theorem newYear_le_toDays {d : CivilDate} (h : d.Valid) :
    (mk d.year 1 1).toDays ≤ d.toDays ∧ d.toDays < (mk (d.year + 1) 1 1).toDays := by
  obtain ⟨y, m, n⟩ := d
  obtain ⟨hm, hm', hn, hn'⟩ := h
  have hdays := Nat.le_trans hn' (daysInMonth_le y m)
  rw [toDays_newYear, toDays_newYear]
  simp only [toDays, cycle, yearStart, monthStart]
  dsimp only at *
  split
  case isTrue =>
    have hmonth : m = 1 ∨ m = 2 := by omega
    rcases hmonth with rfl | rfl
    · omega
    · omega
  case isFalse =>
    have hmonth : ((m : Int) + 9) % 12 = m - 3 := by omega
    rw [hmonth]
    omega

/-- The year of a count of days is the last one that has begun. -/
theorem le_year_ofDays {y n : Int} : y ≤ (ofDays n).year ↔ (mk y 1 1).toDays ≤ n := by
  obtain ⟨hlow, hhigh⟩ := newYear_le_toDays (valid_ofDays n)
  rw [toDays_ofDays] at hlow hhigh
  constructor
  · exact fun h => Int.le_trans (newYear_mono h) hlow
  · intro h
    refine Int.not_lt.1 fun hyear => ?_
    -- A later year would have begun behind the day.
    have := newYear_mono (Int.add_one_le_iff.2 hyear)
    omega

end ArtifactQuery.CivilDate
