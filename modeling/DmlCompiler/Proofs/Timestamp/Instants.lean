import DmlCompiler.Timestamp
import Mathlib.Tactic.ByContra

/-! # Instants

The instant of a timestamp is told by counting: the days of the Gregorian calendar before its date,
and the minutes of its day. The day after a date and the day before it count one more and one less,
so a local time at an offset from UTC comes to the instant at which its clock shows it. -/
namespace DmlCompiler

def daysBeforeYear (year : Int) : Int :=
  365 * year + (year + 3) / 4 - (year + 99) / 100 + (year + 399) / 400

def daysBeforeMonth (year : Int) : Nat → Nat
  | 0 => 0
  | month + 1 => daysBeforeMonth year month + daysInMonth year month

def daysInYear (year : Int) : Nat := if isLeapYear year then 366 else 365

theorem daysBeforeYear_succ (year : Int) :
    daysBeforeYear (year + 1) = daysBeforeYear year + daysInYear year := by
  unfold daysBeforeYear daysInYear isLeapYear
  by_cases fourth : year % 4 = 0
  · by_cases century : year % 100 = 0
    · by_cases great : year % 400 = 0
      · simp [fourth, century, great]
        omega
      · simp [fourth, century, great]
        omega
    · simp [fourth, century]
      omega
  · simp [fourth]
    omega

theorem daysBeforeMonth_succ (year : Int) (month : Nat) :
    daysBeforeMonth year (month + 1) = daysBeforeMonth year month + daysInMonth year month := rfl

/-- The twelve months are the whole year. -/
theorem daysBeforeMonth_all (year : Int) : daysBeforeMonth year 13 = daysInYear year := by
  unfold daysInYear
  cases leap : isLeapYear year <;> simp [daysBeforeMonth, daysInMonth, leap]

theorem daysInMonth_pos_iff (year : Int) {month : Nat} :
    0 < daysInMonth year month ↔ 1 ≤ month ∧ month ≤ 12 := by
  unfold daysInMonth
  split <;> grind

namespace Date

def number (d : Date) : Int :=
  daysBeforeYear d.year + daysBeforeMonth d.year d.month + d.day

variable {d : Date}

theorem month_bounds (d : Date) : 1 ≤ d.month ∧ d.month ≤ 12 := by
  have valid := d.valid
  exact (daysInMonth_pos_iff d.year).1 (by omega)

theorem next?_number (early : d.year < 262142) :
    ∃ e, d.next? = some e ∧ e.number = d.number + 1 := by
  obtain ⟨low, high, first, last⟩ := d.valid
  obtain ⟨_, bounded⟩ := d.month_bounds
  unfold next?
  by_cases inMonth : d.day + 1 ≤ daysInMonth d.year d.month
  · rw [of?, dif_pos ⟨low, high, by omega, inMonth⟩]
    refine ⟨_, rfl, ?_⟩
    simp only [number]
    omega
  rw [of?, dif_neg (by omega)]
  -- The day is the last one of its month.
  by_cases inYear : 1 ≤ daysInMonth d.year (d.month + 1)
  · have ends := daysBeforeMonth_succ d.year d.month
    rw [of?, dif_pos ⟨low, high, Nat.le_refl 1, inYear⟩]
    refine ⟨_, rfl, ?_⟩
    simp only [number]
    omega
  · have lastMonth : d.month = 12 := by
      by_contra other
      exact inYear ((daysInMonth_pos_iff d.year).2 (by omega))
    rw [of?, dif_neg (by omega), of?,
      dif_pos ⟨by omega, by omega, Nat.le_refl 1, Nat.le_of_ble_eq_true rfl⟩]
    refine ⟨_, rfl, ?_⟩
    have december : daysInMonth d.year d.month = 31 := by
      rw [lastMonth]
      rfl
    have ends : daysBeforeMonth d.year 13 = daysBeforeMonth d.year 12 + 31 :=
      daysBeforeMonth_succ d.year 12
    have year := daysBeforeYear_succ d.year
    have months := daysBeforeMonth_all d.year
    have none : daysBeforeMonth (d.year + 1) 1 = 0 := rfl
    simp only [number, none, lastMonth]
    omega

theorem previous?_number (late : -262143 < d.year) :
    ∃ e, d.previous? = some e ∧ e.number = d.number - 1 := by
  obtain ⟨low, high, first, last⟩ := d.valid
  obtain ⟨january, december⟩ := d.month_bounds
  unfold previous?
  by_cases inMonth : 1 ≤ d.day - 1
  · rw [of?, dif_pos ⟨low, high, inMonth, by omega⟩]
    refine ⟨_, rfl, ?_⟩
    simp only [number]
    omega
  rw [of?, dif_neg (by omega)]
  -- The day is the first one of its month.
  by_cases inYear : 1 ≤ daysInMonth d.year (d.month - 1)
  · have begins := daysBeforeMonth_succ d.year (d.month - 1)
    rw [Nat.sub_add_cancel january] at begins
    rw [of?, dif_pos ⟨low, high, inYear, Nat.le_refl _⟩]
    refine ⟨_, rfl, ?_⟩
    simp only [number]
    omega
  · have firstMonth : d.month = 1 := by
      by_contra other
      exact inYear ((daysInMonth_pos_iff d.year).2 (by omega))
    rw [of?, dif_neg (by omega), of?, dif_pos ⟨by omega, by omega, by decide, Nat.le_refl 31⟩]
    refine ⟨_, rfl, ?_⟩
    have year := daysBeforeYear_succ (d.year - 1)
    rw [Int.sub_add_cancel] at year
    have months := daysBeforeMonth_all (d.year - 1)
    have ends : daysBeforeMonth (d.year - 1) 13 = daysBeforeMonth (d.year - 1) 12 + 31 :=
      daysBeforeMonth_succ (d.year - 1) 12
    have none : daysBeforeMonth d.year 1 = 0 := rfl
    simp only [number, none, firstMonth]
    omega

end Date

/-- A point in time: the minutes since the beginning of the year zero in UTC, and how far its minute
has passed. A leap second is the sixty-first of its minute. -/
structure Instant where
  minutes : Int
  second : Nat
  nanosecond : Nat
deriving DecidableEq

namespace Timestamp

def instant (t : Timestamp) : Instant :=
  ⟨t.date.number * 1440 + t.time.hour * 60 + t.time.minute, t.time.second, t.time.nanosecond⟩

/-- A clock that is ahead of UTC shows a later time at the same instant. -/
theorem ofLocal?_instant (date : Date) (time : TimeOfDay) {offset : Int}
    (within : -262143 < date.year ∧ date.year < 262142) (small : offset.natAbs < 1440) :
    ∃ t, ofLocal? date time offset = some t ∧ t.instant =
      ⟨date.number * 1440 + time.hour * 60 + time.minute - offset, time.second,
        time.nanosecond⟩ := by
  obtain ⟨hour, minute, second, nanosecond⟩ := time.valid
  have clock (minutes : Int) (low : 0 ≤ minutes) (high : minutes < 1440) :
      ∃ clock, TimeOfDay.of? (minutes.toNat / 60) (minutes.toNat % 60) time.second
          time.nanosecond = some clock ∧ (clock.hour * 60 + clock.minute : Int) = minutes ∧
        clock.second = time.second ∧ clock.nanosecond = time.nanosecond := by
    rw [TimeOfDay.of?, dif_pos ⟨by omega, by omega, second, nanosecond⟩]
    refine ⟨_, rfl, ?_, rfl, rfl⟩
    dsimp only
    omega
  unfold ofLocal?
  dsimp only
  split
  · next before =>
    obtain ⟨yesterday, found, number⟩ := Date.previous?_number within.1
    obtain ⟨shown, read, minutes, same, same'⟩ :=
      clock (time.hour * 60 + time.minute - offset + 1440) (by omega) (by omega)
    rw [read, found]
    refine ⟨_, rfl, ?_⟩
    simp only [instant, number, same, same', Instant.mk.injEq, and_true]
    omega
  split
  · next after =>
    obtain ⟨tomorrow, found, number⟩ := Date.next?_number within.2
    obtain ⟨shown, read, minutes, same, same'⟩ :=
      clock (time.hour * 60 + time.minute - offset - 1440) (by omega) (by omega)
    rw [read, found]
    refine ⟨_, rfl, ?_⟩
    simp only [instant, number, same, same', Instant.mk.injEq, and_true]
    omega
  · obtain ⟨shown, read, minutes, same, same'⟩ :=
      clock (time.hour * 60 + time.minute - offset) (by omega) (by omega)
    rw [read]
    refine ⟨_, rfl, ?_⟩
    simp only [instant, same, same', Instant.mk.injEq, and_true]
    omega

end Timestamp
end DmlCompiler
