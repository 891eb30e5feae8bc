import DmlCompiler.Text.Blank
import DmlCompiler.Timestamp

/-! # Reading timestamps

Two grammars. `Timestamp.ofRfc3339?` takes the fixed form of RFC 3339. `Timestamp.ofText?` takes a
looser form of it: fewer digits, years with a sign, blanks between the parts, an offset without
its colon, and `UTC` for the offset. `Timestamp.ofLocalText?` takes the loose form without offset.
-/
namespace DmlCompiler.Timestamp

open Text (trimStart isBlank isDigit number? digits1 digitsValue)

def expect? (c : Char) : List Char → Option (List Char)
  | d :: rest => if c = d then some rest else none
  | [] => none

/-- The nanoseconds behind a point, cut to nine digits; zero without a point. -/
def fraction? : List Char → Option (Nat × List Char)
  | '.' :: rest => do
    let (digits, rest) ← digits1 rest
    let digits := digits.take 9
    return (digitsValue digits * 10 ^ (9 - digits.length), rest)
  | s => some (0, s)

def separator? : List Char → Option (List Char)
  | 'T' :: rest | 't' :: rest | ' ' :: rest => some rest
  | _ => none

/-- Minutes ahead of UTC: `Z`, or a sign, two digits of hours, what `skip` takes, and two digits of
minutes. The minus sign of typography counts as one. -/
def offset? (skip : List Char → Option (List Char)) : List Char → Option (Int × List Char)
  | 'Z' :: rest | 'z' :: rest => some (0, rest)
  | sign :: rest => do
    let negative ←
      if sign = '+' then some false
      else if sign = '-' ∨ sign = '\u2212' then some true
      else none
    let (hours, rest) ← number? 2 2 rest
    let (minutes, rest) ← number? 2 2 (← skip rest)
    if minutes < 60 then
      let offset : Int := hours * 60 + minutes
      return (if negative then -offset else offset, rest)
    else none
  | [] => none

def assemble? (date : Date) (time : TimeOfDay) (offset : Int) : Option Timestamp :=
  if offset.natAbs < 1440 then ofLocal? date time offset else none

def ofRfc3339? (text : String) : Option Timestamp := do
  let s := text.toList
  let (year, s) ← number? 4 4 s
  let (month, s) ← number? 2 2 (← expect? '-' s)
  let (day, s) ← number? 2 2 (← expect? '-' s)
  let (hour, s) ← number? 2 2 (← separator? s)
  let (minute, s) ← number? 2 2 (← expect? ':' s)
  let (second, s) ← number? 2 2 (← expect? ':' s)
  let (nanosecond, s) ← fraction? s
  let (offset, s) ← offset? (expect? ':') s
  if s.isEmpty then
    assemble? (← Date.of? year month day) (← TimeOfDay.of? hour minute second nanosecond) offset
  else none

/-- A year of at most four digits, or of any number of digits behind a sign. -/
def looseYear? : List Char → Option (Int × List Char)
  | '-' :: rest => (digits1 rest).map fun (digits, rest) => (-(digitsValue digits : Int), rest)
  | '+' :: rest => (digits1 rest).map fun (digits, rest) => (digitsValue digits, rest)
  | s => (number? 1 4 s).map fun (year, rest) => (year, rest)

/-- A number of one or two digits behind a mark, blanks around the mark aside. -/
def loosePart? (mark : Char) (s : List Char) : Option (Nat × List Char) := do
  number? 1 2 (trimStart (← expect? mark (trimStart s)))

def looseDate? (s : List Char) : Option (Date × List Char) := do
  let (year, s) ← looseYear? (trimStart s)
  let (month, s) ← loosePart? '-' s
  let (day, s) ← loosePart? '-' s
  return (← Date.of? year month day, s)

def looseTime? (s : List Char) : Option (TimeOfDay × List Char) := do
  let (hour, s) ← number? 1 2 (trimStart s)
  let (minute, s) ← loosePart? ':' s
  let (second, s) ← loosePart? ':' s
  let (nanosecond, s) ← fraction? s
  return (← TimeOfDay.of? hour minute second nanosecond, trimStart s)

def looseOffset? (s : List Char) : Option (Int × List Char) :=
  if (s.take 3).map Char.toUpper = ['U', 'T', 'C'] then some (0, s.drop 3)
  else offset? (fun s => some (s.dropWhile fun c => c == ':' || isBlank c)) s

def ofText? (text : String) : Option Timestamp := do
  let (date, s) ← looseDate? text.toList
  let (time, s) ← looseTime? (← separator? s)
  let (offset, s) ← looseOffset? s
  if (trimStart s).isEmpty then assemble? date time offset else none

def ofLocalText? (text : String) : Option Timestamp := do
  let (date, s) ← looseDate? text.toList
  let (time, s) ← looseTime? (← expect? 'T' (trimStart s))
  if s.isEmpty then ofLocal? date time 0 else none

end DmlCompiler.Timestamp
