import EventLog.Calendar
import Mathlib.Logic.Function.Iterate

/-!
# Days one after the other

`Date.next` is the day behind a day, and `Date.DayCount` counts the days from 1970-01-01 to another
by going from one to the next.  `Date.dayNumber` computes this count: `dayCount_iff` says so of
every real date.
-/

namespace EventLog.Date

/-- The day behind a day. -/
def next (d : Date) : Date :=
  if d.day < daysInMonth d.year d.month then ⟨d.year, d.month, d.day + 1⟩
  else if d.month < 12 then ⟨d.year, d.month + 1, 1⟩
  else ⟨d.year + 1, 1, 1⟩

/-- The day that is counted as 0. -/
def epoch : Date := ⟨1970, 1, 1⟩

/-- A date is reached from 1970-01-01 by going on some days, or 1970-01-01 from it: the days before
1970 are counted negative. -/
def DayCount (d : Date) (n : Int) : Prop :=
  ∃ k : Nat, (n = k ∧ next^[k] epoch = d) ∨ (n = -k ∧ next^[k] d = epoch)

/-! ### Months and years -/

theorem daysInMonth_bounds {year : Int} {month : Nat} (h₁ : 1 ≤ month) (h₁₂ : month ≤ 12) :
    28 ≤ daysInMonth year month ∧ daysInMonth year month ≤ 31 := by
  match month with
  | 1 | 3 | 4 | 5 | 6 | 7 | 8 | 9 | 10 | 11 | 12 => simp [daysInMonth]
  | 2 =>
      rw [daysInMonth]
      split <;> decide
  | 0 | n + 13 => omega

/-- The days of a year. -/
def daysInYear (year : Int) : Nat := if isLeapYear year then 366 else 365

theorem daysBeforeMonth_thirteen (year : Int) : daysBeforeMonth year 13 = daysInYear year := by
  simp only [daysBeforeMonth, daysInMonth, daysInYear]
  split <;> rfl

theorem daysBeforeMonth_mono (year : Int) {m m' : Nat} (h : m ≤ m') :
    daysBeforeMonth year m ≤ daysBeforeMonth year m' := by
  induction h with
  | refl => exact Nat.le_refl _
  | step _ ih => exact Nat.le_add_right_of_le ih

theorem daysBeforeYear_succ (year : Int) :
    daysBeforeYear (year + 1) = daysBeforeYear year + daysInYear year := by
  simp only [daysBeforeYear, daysInYear, isLeapYear, Bool.and_eq_true, Bool.or_eq_true, beq_iff_eq,
    bne_iff_ne]
  split <;> omega

theorem daysBeforeYear_mono {y y' : Int} (h : y ≤ y') : daysBeforeYear y ≤ daysBeforeYear y' := by
  simp only [daysBeforeYear]
  omega

/-! ### From one day to the next -/

variable {d : Date}

theorem isReal_epoch : epoch.IsReal := by decide

theorem isReal_next (h : d.IsReal) : d.next.IsReal := by
  obtain ⟨h₁, h₁₂, hd, hlast⟩ := h
  rw [next]
  split
  · next inside => exact ⟨h₁, h₁₂, Nat.le_add_left 1 _, inside⟩
  · split
    · next month =>
        have days : 28 ≤ daysInMonth d.year (d.month + 1) :=
          (daysInMonth_bounds (Nat.le_add_left 1 _) month).1
        exact ⟨Nat.le_add_left 1 _, month, Nat.le_refl 1, Nat.le_trans (Nat.le_add_left 1 27) days⟩
    · exact ⟨Nat.le_refl 1, Nat.le_add_left 1 11, Nat.le_refl 1, Nat.le_add_left 1 30⟩

/-- **The next day has the next number.** -/
theorem dayNumber_next (h : d.IsReal) : d.next.dayNumber = d.dayNumber + 1 := by
  obtain ⟨h₁, h₁₂, hd, hlast⟩ := h
  rw [next]
  split
  · simp only [dayNumber]
    omega
  · next inside =>
      have last : d.day = daysInMonth d.year d.month :=
        Nat.le_antisymm hlast (Nat.le_of_not_lt inside)
      split
      · simp only [dayNumber, daysBeforeMonth, last]
        omega
      · next month =>
          have december : d.month = 12 := Nat.le_antisymm h₁₂ (Nat.le_of_not_lt month)
          have year := daysBeforeMonth_thirteen d.year
          rw [daysBeforeMonth, ← december, ← last] at year
          simp only [dayNumber, daysBeforeYear_succ, ← year, daysBeforeMonth, daysInMonth]
          omega

theorem isReal_iterate (h : d.IsReal) (k : Nat) : (next^[k] d).IsReal := by
  induction k with
  | zero => exact h
  | succ k ih =>
      rw [Function.iterate_succ_apply']
      exact isReal_next ih

theorem dayNumber_iterate (h : d.IsReal) (k : Nat) :
    (next^[k] d).dayNumber = d.dayNumber + k := by
  induction k with
  | zero => simp
  | succ k ih =>
      rw [Function.iterate_succ_apply', dayNumber_next (isReal_iterate h k), ih]
      omega

/-! ### Dates are known from their numbers -/

/-- The day of a date within its year lies within that year. -/
theorem dayOfYear_bounds (h : d.IsReal) :
    0 < daysBeforeMonth d.year d.month + d.day ∧
      daysBeforeMonth d.year d.month + d.day ≤ daysInYear d.year := by
  obtain ⟨h₁, h₁₂, hd, hlast⟩ := h
  have within := daysBeforeMonth_mono d.year (Nat.succ_le_succ h₁₂)
  rw [daysBeforeMonth_thirteen, Nat.succ_eq_add_one, daysBeforeMonth] at within
  omega

/-- A date of a later year has a greater number. -/
theorem dayNumber_lt_of_year {a b : Date} (ha : a.IsReal) (hb : b.IsReal) (h : a.year < b.year) :
    a.dayNumber < b.dayNumber := by
  have behind := dayOfYear_bounds ha
  have before := dayOfYear_bounds hb
  have years := daysBeforeYear_mono (Int.add_one_le_of_lt h)
  rw [daysBeforeYear_succ] at years
  simp only [dayNumber]
  omega

/-- A date of a later month of the year has a greater number. -/
theorem dayNumber_lt_of_month {year : Int} {m m' day day' : Nat}
    (ha : (⟨year, m, day⟩ : Date).IsReal) (hb : (⟨year, m', day'⟩ : Date).IsReal) (h : m < m') :
    dayNumber ⟨year, m, day⟩ < dayNumber ⟨year, m', day'⟩ := by
  have months := daysBeforeMonth_mono year (Nat.succ_le_of_lt h)
  rw [Nat.succ_eq_add_one, daysBeforeMonth] at months
  have last : day ≤ daysInMonth year m := ha.2.2.2
  have first : 1 ≤ day' := hb.2.2.1
  simp only [dayNumber]
  omega

theorem dayNumber_inj {a b : Date} (ha : a.IsReal) (hb : b.IsReal)
    (h : a.dayNumber = b.dayNumber) : a = b := by
  obtain ⟨year, month, day⟩ := a
  obtain ⟨year', month', day'⟩ := b
  obtain rfl : year = year' := by
    rcases Int.lt_trichotomy year year' with less | same | greater
    · exact absurd h (Int.ne_of_lt (dayNumber_lt_of_year ha hb less))
    · exact same
    · exact absurd h.symm (Int.ne_of_lt (dayNumber_lt_of_year hb ha greater))
  obtain rfl : month = month' := by
    rcases Nat.lt_trichotomy month month' with less | same | greater
    · exact absurd h (Int.ne_of_lt (dayNumber_lt_of_month ha hb less))
    · exact same
    · exact absurd h.symm (Int.ne_of_lt (dayNumber_lt_of_month hb ha greater))
  obtain rfl : day = day' := by
    simp only [dayNumber] at h
    omega
  rfl

/-- **The number of a date counts the days** from 1970-01-01 to it. -/
theorem dayCount_iff (h : d.IsReal) (n : Int) : d.DayCount n ↔ n = d.dayNumber := by
  have zero : epoch.dayNumber = 0 := by decide
  constructor
  · rintro ⟨k, ⟨rfl, rfl⟩ | ⟨rfl, back⟩⟩
    · rw [dayNumber_iterate isReal_epoch, zero, Int.zero_add]
    · have far := dayNumber_iterate h k
      rw [back, zero] at far
      omega
  · rintro rfl
    obtain ⟨k, hk⟩ := Int.eq_nat_or_neg d.dayNumber
    refine ⟨k, hk.imp (fun hk => ⟨hk, ?_⟩) fun hk => ⟨hk, ?_⟩⟩
    · refine dayNumber_inj (isReal_iterate isReal_epoch k) h ?_
      rw [dayNumber_iterate isReal_epoch, zero, hk, Int.zero_add]
    · refine dayNumber_inj (isReal_iterate h k) isReal_epoch ?_
      rw [dayNumber_iterate h, zero, hk]
      omega

end EventLog.Date
