import Mathlib.Order.Monotone.Basic
import Mathlib.Algebra.Order.Ring.Nat
import Mathlib.Tactic.Common

/-!
# The Gregorian calendar

Dates and times of day as a count of seconds. The lengths of years and months are added up
recursively, so the calendar's laws need no division; a moment is determined by its count, and one
second later is one more.
-/

namespace PCemWeb.Lib

/-! ## Years, months and days -/

/-- A leap year of the Gregorian calendar. -/
def LeapYear (y : Nat) : Prop := y % 4 = 0 ∧ (y % 100 ≠ 0 ∨ y % 400 = 0)

instance (y : Nat) : Decidable (LeapYear y) := inferInstanceAs (Decidable (_ ∧ _))

/-- The length of a month, counted from one. -/
def daysInMonth (y : Nat) : Nat → Nat
  | 2 => if LeapYear y then 29 else 28
  | 4 | 6 | 9 | 11 => 30
  | _ => 31

/-- The days of a year before a month. -/
def daysBeforeMonth (y : Nat) : Nat → Nat
  | 0 => 0
  | mon + 1 => if mon = 0 then 0 else daysBeforeMonth y mon + daysInMonth y mon

/-- The days before a year, counted from year zero. -/
def daysBeforeYear : Nat → Nat
  | 0 => 0
  | y + 1 => daysBeforeYear y + daysBeforeMonth y 13

/-- A date and a time of day. -/
structure Moment : Type where
  year : Nat
  mon : Nat
  mday : Nat
  hour : Nat
  min : Nat
  sec : Nat
  deriving DecidableEq, Repr

namespace Moment

variable {m m' : Moment}

/-- The fields are in range. -/
structure Valid (m : Moment) : Prop where
  mon : 1 ≤ m.mon ∧ m.mon ≤ 12
  mday : 1 ≤ m.mday ∧ m.mday ≤ daysInMonth m.year m.mon
  hour : m.hour < 24
  min : m.min < 60
  sec : m.sec < 60

/-- Days since the first of January of year zero. -/
def days (m : Moment) : Nat := daysBeforeYear m.year + daysBeforeMonth m.year m.mon + (m.mday - 1)

/-- Seconds of the day. -/
def time (m : Moment) : Nat := (m.hour * 60 + m.min) * 60 + m.sec

/-- Seconds since the start of year zero. -/
def stamp (m : Moment) : Nat := m.days * 86400 + m.time

/-- The day of the week, Sunday being zero: year zero began on a Saturday. -/
def weekday (m : Moment) : Nat := (m.days + 6) % 7

/-! ## The next second -/

/-- The moment one second later. -/
def next (m : Moment) : Moment :=
  if m.sec + 1 < 60 then { m with sec := m.sec + 1 }
  else if m.min + 1 < 60 then { m with sec := 0, min := m.min + 1 }
  else if m.hour + 1 < 24 then { m with sec := 0, min := 0, hour := m.hour + 1 }
  else if m.mday < daysInMonth m.year m.mon then
    { m with sec := 0, min := 0, hour := 0, mday := m.mday + 1 }
  else if m.mon < 12 then
    { m with sec := 0, min := 0, hour := 0, mday := 1, mon := m.mon + 1 }
  else { year := m.year + 1, mon := 1, mday := 1, hour := 0, min := 0, sec := 0 }

theorem daysInMonth_pos (y mon : Nat) : 1 ≤ daysInMonth y mon := by
  unfold daysInMonth
  repeat' split
  all_goals decide

theorem daysInMonth_le (y mon : Nat) : daysInMonth y mon ≤ 31 := by
  unfold daysInMonth
  repeat' split
  all_goals decide

theorem daysBeforeMonth_succ {y mon : Nat} (first : 1 ≤ mon) :
    daysBeforeMonth y (mon + 1) = daysBeforeMonth y mon + daysInMonth y mon := by
  rw [daysBeforeMonth, if_neg (by omega)]

theorem Valid.next (valid : m.Valid) : m.next.Valid := by
  obtain ⟨mon, mday, hour, min, sec⟩ := valid
  have low : 0 < 60 := by decide
  have early : 0 < 24 := by decide
  unfold Moment.next
  split
  · exact ⟨mon, mday, hour, min, by assumption⟩
  · split
    · exact ⟨mon, mday, hour, by assumption, low⟩
    · split
      · exact ⟨mon, mday, by assumption, low, low⟩
      · split
        · exact ⟨mon, ⟨Nat.le_add_left _ _, by assumption⟩, early, low, low⟩
        · split
          · exact ⟨⟨Nat.le_add_left _ _, by assumption⟩, ⟨le_rfl, daysInMonth_pos _ _⟩, early, low,
              low⟩
          · exact ⟨⟨le_rfl, Nat.le_add_left 1 11⟩, ⟨le_rfl, daysInMonth_pos _ _⟩, early, low, low⟩

/-- A day later. -/
theorem days_next (valid : m.Valid) (last : ¬m.mday < daysInMonth m.year m.mon) :
    (if m.mon < 12 then daysBeforeYear m.year + daysBeforeMonth m.year (m.mon + 1)
      else daysBeforeYear (m.year + 1) + daysBeforeMonth (m.year + 1) 1) = m.days + 1 := by
  have whole : m.mday = daysInMonth m.year m.mon := by
    have bound := valid.mday.2
    omega
  have pos := valid.mday.1
  have step := daysBeforeMonth_succ (y := m.year) valid.mon.1
  unfold days
  split
  · omega
  · have december : m.mon = 12 := by
      have bound := valid.mon.2
      omega
    rw [december] at step whole ⊢
    change daysBeforeMonth m.year 13 = _ at step
    rw [daysBeforeYear, show daysBeforeMonth (m.year + 1) 1 = 0 from rfl]
    omega

theorem stamp_next (valid : m.Valid) : m.next.stamp = m.stamp + 1 := by
  have later := days_next valid
  obtain ⟨mon, mday, hour, min, sec⟩ := valid
  unfold Moment.next
  split
  · simp only [stamp, time, days]
    omega
  · split
    · simp only [stamp, time, days]
      omega
    · split
      · simp only [stamp, time, days]
        omega
      · split
        · simp only [stamp, time, days]
          omega
        · rename_i last
          have next := later last
          split
          · rename_i inside
            rw [if_pos inside] at next
            simp only [stamp, time, days] at next ⊢
            omega
          · rename_i december
            rw [if_neg december] at next
            simp only [stamp, time, days] at next ⊢
            omega

/-! ## A moment is determined by its count -/

theorem year_length_le {y mon : Nat} (inside : 1 ≤ mon ∧ mon ≤ 12) :
    daysBeforeMonth y mon + daysInMonth y mon ≤ daysBeforeMonth y 13 := by
  have grows : Monotone (daysBeforeMonth y) := by
    apply monotone_nat_of_le_succ
    intro k
    rcases Nat.eq_zero_or_pos k with rfl | first
    · exact le_rfl
    · rw [daysBeforeMonth_succ first]
      exact Nat.le_add_right _ _
  rw [← daysBeforeMonth_succ inside.1]
  exact grows (by omega)

/-- A count lies in one interval of a growing sequence only. -/
theorem index_unique {f : Nat → Nat} (grows : Monotone f) {a b k : Nat}
    (left : f a ≤ k ∧ k < f (a + 1)) (right : f b ≤ k ∧ k < f (b + 1)) : a = b := by
  rcases Nat.lt_trichotomy a b with less | same | more
  · have := grows (show a + 1 ≤ b from less)
    omega
  · exact same
  · have := grows (show b + 1 ≤ a from more)
    omega

theorem year_bracket (valid : m.Valid) :
    daysBeforeYear m.year ≤ m.days ∧ m.days < daysBeforeYear (m.year + 1) := by
  have length := year_length_le (y := m.year) valid.mon
  have first := valid.mday.1
  have last := valid.mday.2
  rw [daysBeforeYear]
  unfold days
  omega

theorem daysBeforeYear_mono : Monotone daysBeforeYear := by
  apply monotone_nat_of_le_succ
  intro y
  rw [daysBeforeYear]
  exact Nat.le_add_right _ _

theorem date_of_days (valid : m.Valid) (valid' : m'.Valid) (same : m.days = m'.days) :
    m.year = m'.year ∧ m.mon = m'.mon ∧ m.mday = m'.mday := by
  have years : m.year = m'.year :=
    index_unique daysBeforeYear_mono (year_bracket valid) (same ▸ year_bracket valid')
  have grows : Monotone fun k => daysBeforeMonth m.year (k + 1) := by
    apply monotone_nat_of_le_succ
    intro k
    show _ ≤ daysBeforeMonth m.year (k + 1 + 1)
    rw [daysBeforeMonth_succ (Nat.le_add_left 1 k)]
    exact Nat.le_add_right _ _
  obtain ⟨mon, mday, -, -, -⟩ := valid
  obtain ⟨mon', mday', -, -, -⟩ := valid'
  unfold days at same
  rw [← years] at same mday'
  have step := daysBeforeMonth_succ (y := m.year) mon.1
  have step' := daysBeforeMonth_succ (y := m.year) mon'.1
  have months : m.mon - 1 = m'.mon - 1 := by
    apply index_unique grows (k := daysBeforeMonth m.year m.mon + (m.mday - 1))
    · rw [Nat.sub_add_cancel mon.1]
      omega
    · rw [Nat.sub_add_cancel mon'.1]
      omega
  have month : m.mon = m'.mon := by omega
  refine ⟨years, month, ?_⟩
  rw [month] at same
  omega

theorem time_lt (valid : m.Valid) : m.time < 86400 := by
  obtain ⟨-, -, hour, min, sec⟩ := valid
  unfold time
  omega

/-- Two valid moments with one count are one. -/
theorem eq_of_stamp (valid : m.Valid) (valid' : m'.Valid) (same : m.stamp = m'.stamp) : m = m' := by
  have below := time_lt valid
  have below' := time_lt valid'
  unfold stamp at same
  have dates : m.days = m'.days := by omega
  have times : m.time = m'.time := by omega
  obtain ⟨years, months, mdays⟩ := date_of_days valid valid' dates
  obtain ⟨-, -, hour, min, sec⟩ := valid
  obtain ⟨-, -, hour', min', sec'⟩ := valid'
  unfold time at times
  rcases m with ⟨year, mon, mday, h, mi, s⟩
  rcases m' with ⟨year', mon', mday', h', mi', s'⟩
  dsimp only at years months mdays times hour min sec hour' min' sec'
  subst years months mdays
  have hours : h = h' := by omega
  have mins : mi = mi' := by omega
  have secs : s = s' := by omega
  rw [hours, mins, secs]

/-! ## Advancing -/

/-- The moment some seconds later. -/
def advance (m : Moment) (n : Nat) : Moment := Moment.next^[n] m

theorem advance_succ (n : Nat) : m.advance (n + 1) = (m.advance n).next :=
  Function.iterate_succ_apply' _ _ _

theorem Valid.advance (valid : m.Valid) (n : Nat) : (m.advance n).Valid := by
  induction n with
  | zero => exact valid
  | succ n ih =>
    rw [advance_succ]
    exact ih.next

theorem stamp_advance (valid : m.Valid) (n : Nat) : (m.advance n).stamp = m.stamp + n := by
  induction n with
  | zero => rw [advance, Function.iterate_zero, id, Nat.add_zero]
  | succ n ih => rw [advance_succ, stamp_next (valid.advance n), ih, Nat.add_assoc]

/-- `advance` is the moment whose count is that much more. -/
theorem eq_advance (valid : m.Valid) (valid' : m'.Valid) {n : Nat}
    (later : m'.stamp = m.stamp + n) : m' = m.advance n :=
  eq_of_stamp valid' (valid.advance n) (by rw [later, stamp_advance valid])

theorem year_le_of_stamp (valid : m.Valid) (valid' : m'.Valid) (before : m.stamp ≤ m'.stamp) :
    m.year ≤ m'.year := by
  by_contra later
  have grows := daysBeforeYear_mono (show m'.year + 1 ≤ m.year by omega)
  have left := (year_bracket valid).1
  have right := (year_bracket valid').2
  have below := time_lt valid
  have below' := time_lt valid'
  unfold stamp at before
  omega

theorem year_le_advance (valid : m.Valid) (n : Nat) : m.year ≤ (m.advance n).year :=
  year_le_of_stamp valid (valid.advance n) (by rw [stamp_advance valid]; exact Nat.le_add_right _ _)

end Moment

/-- The second of January 2000 was a Sunday. -/
example : (⟨2000, 1, 2, 0, 0, 0⟩ : Moment).weekday = 0 := by decide +kernel

end PCemWeb.Lib
