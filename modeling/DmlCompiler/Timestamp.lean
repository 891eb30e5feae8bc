import DmlCompiler.Text.Digits

/-! # Points in time

A timestamp is a civil date and a time of day in UTC, to the nanosecond; a leap second is second
60 of any minute. Moving it by an offset of less than a day changes the date by at most one day.
-/
namespace DmlCompiler

def isLeapYear (year : Int) : Bool :=
  year % 4 = 0 && (year % 100 ≠ 0 || year % 400 = 0)

def daysInMonth (year : Int) : Nat → Nat
  | 2 => if isLeapYear year then 29 else 28
  | 4 | 6 | 9 | 11 => 30
  | 1 | 3 | 5 | 7 | 8 | 10 | 12 => 31
  | _ => 0

/-- A date of the Gregorian calendar within some 262 thousand years of the year zero. -/
structure Date where
  year : Int
  month : Nat
  day : Nat
  valid : -262143 ≤ year ∧ year ≤ 262142 ∧ 1 ≤ day ∧ day ≤ daysInMonth year month
deriving DecidableEq, Repr

namespace Date

def of? (year : Int) (month day : Nat) : Option Date :=
  if h : -262143 ≤ year ∧ year ≤ 262142 ∧ 1 ≤ day ∧ day ≤ daysInMonth year month then
    some ⟨year, month, day, h⟩
  else none

/-- The next day; nothing after the last date. -/
def next? (d : Date) : Option Date :=
  of? d.year d.month (d.day + 1) <|> of? d.year (d.month + 1) 1 <|> of? (d.year + 1) 1 1

def previous? (d : Date) : Option Date :=
  of? d.year d.month (d.day - 1) <|>
    of? d.year (d.month - 1) (daysInMonth d.year (d.month - 1)) <|> of? (d.year - 1) 12 31

end Date

structure TimeOfDay where
  hour : Nat
  minute : Nat
  second : Nat
  nanosecond : Nat
  valid : hour < 24 ∧ minute < 60 ∧ second ≤ 60 ∧ nanosecond < 10 ^ 9
deriving DecidableEq, Repr

def TimeOfDay.of? (hour minute second nanosecond : Nat) : Option TimeOfDay :=
  if h : hour < 24 ∧ minute < 60 ∧ second ≤ 60 ∧ nanosecond < 10 ^ 9 then
    some ⟨hour, minute, second, nanosecond, h⟩
  else none

structure Timestamp where
  date : Date
  time : TimeOfDay
deriving DecidableEq, Repr

namespace Timestamp

/-- The UTC time of a local time that is `offset` minutes ahead of UTC. -/
def ofLocal? (date : Date) (time : TimeOfDay) (offset : Int) : Option Timestamp :=
  let minutes := (time.hour * 60 + time.minute : Int) - offset
  let at? (date : Option Date) (minutes : Int) : Option Timestamp := do
    let time ← TimeOfDay.of? (minutes.toNat / 60) (minutes.toNat % 60) time.second time.nanosecond
    return ⟨← date, time⟩
  if minutes < 0 then at? date.previous? (minutes + 1440)
  else if 1440 ≤ minutes then at? date.next? (minutes - 1440)
  else at? (some date) minutes

/-- Four digits, or a sign and at least four digits outside of the years 0 to 9999. -/
def writeYear (year : Int) : List Char :=
  if 0 ≤ year ∧ year ≤ 9999 then Text.padded 4 year.toNat
  else (if year < 0 then '-' else '+') :: Text.padded 4 year.natAbs

/-- The fewest of no, three, six and nine digits that are exact. -/
def writeFraction (nanosecond : Nat) : List Char :=
  if nanosecond = 0 then []
  else if nanosecond % 10 ^ 6 = 0 then '.' :: Text.padded 3 (nanosecond / 10 ^ 6)
  else if nanosecond % 10 ^ 3 = 0 then '.' :: Text.padded 6 (nanosecond / 10 ^ 3)
  else '.' :: Text.padded 9 nanosecond

def write (t : Timestamp) : List Char :=
  writeYear t.date.year ++ '-' :: Text.padded 2 t.date.month ++ '-' :: Text.padded 2 t.date.day ++
    'T' :: Text.padded 2 t.time.hour ++ ':' :: Text.padded 2 t.time.minute ++
    ':' :: Text.padded 2 t.time.second ++ writeFraction t.time.nanosecond ++ ['Z']

def text (t : Timestamp) : String := String.ofList t.write

end Timestamp
end DmlCompiler
