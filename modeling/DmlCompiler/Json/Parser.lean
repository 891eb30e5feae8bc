import DmlCompiler.Json
import DmlCompiler.Binary64.Scaled

/-! # Reading JSON

The strict grammar: no comments, no trailing commas, nothing behind the value but blanks. An
integer literal that needs more than 64 bits is read as a binary64 number, and so is `-0`.
Unreadable are a literal too large for binary64, a string in which half of a pair of code units
stands alone, and an object with such a name.
-/
namespace DmlCompiler.Json

open Text (digits1 digitsValue hexNumber?)

def isBlank (c : Char) : Bool := c = ' ' || c = '\t' || c = '\n' || c = '\r'

def skipBlanks (s : List Char) : List Char := s.dropWhile isBlank

def unit? (a b c d : Char) : Option Nat := hexNumber? [a, b, c, d]

def scalar? (unit : Nat) : Option Char :=
  if 0xD800 ≤ unit ∧ unit < 0xE000 then none else some (Char.ofNat unit)

/-- The character of two code units that are the halves of a pair. -/
def paired? (high low : Nat) : Option Char :=
  if 0xD800 ≤ high ∧ high < 0xDC00 ∧ 0xDC00 ≤ low ∧ low < 0xE000 then
    some (Char.ofNat (0x10000 + (high - 0xD800) * 0x400 + (low - 0xDC00)))
  else none

def escaped? : Char → Option Char
  | '"' => some '"'
  | '\\' => some '\\'
  | '/' => some '/'
  | 'b' => some '\x08'
  | 'f' => some '\x0c'
  | 'n' => some '\n'
  | 'r' => some '\r'
  | 't' => some '\t'
  | _ => none

/-- The characters so far with one more, last one first; nothing once half of a pair stood
alone. -/
def pushed (c : Option Char) (read : Option (List Char)) : Option (List Char) := do
  return (← c) :: (← read)

/-- The rest of a string behind its opening quote; the string is missing if half of a pair stands
alone in it. -/
def stringTail (read : Option (List Char)) : List Char → Option (Option String × List Char)
  | '"' :: rest => some (read.map fun cs => String.ofList cs.reverse, rest)
  | '\\' :: 'u' :: a :: b :: c :: d :: '\\' :: 'u' :: e :: f :: g :: h :: rest =>
    match unit? a b c d with
    | none => none
    | some unit =>
      match scalar? unit, (unit? e f g h).bind (paired? unit) with
      | none, some x => stringTail (pushed (some x) read) rest
      | x, _ => stringTail (pushed x read) ('\\' :: 'u' :: e :: f :: g :: h :: rest)
  | '\\' :: 'u' :: a :: b :: c :: d :: rest =>
    match unit? a b c d with
    | none => none
    | some unit => stringTail (pushed (scalar? unit) read) rest
  | '\\' :: c :: rest =>
    match escaped? c with
    | none => none
    | x => stringTail (pushed x read) rest
  | c :: rest => if c.toNat < 0x20 then none else stringTail (pushed (some c) read) rest
  | [] => none

/-- The digits before the point: a single zero, or digits that do not begin with one. -/
def wholePart : List Char → Option (List Char × List Char)
  | '0' :: rest => some (['0'], rest)
  | s => digits1 s

def fractionPart : List Char → Option (Option (List Char) × List Char)
  | '.' :: rest => (digits1 rest).map fun (digits, rest) => (some digits, rest)
  | s => some (none, s)

def exponentDigits (negative : Bool) (s : List Char) : Option (Option Int × List Char) :=
  (digits1 s).map fun (digits, rest) =>
    (some (if negative then -(digitsValue digits : Int) else digitsValue digits), rest)

def exponentPart : List Char → Option (Option Int × List Char)
  | c :: rest =>
    if c = 'e' ∨ c = 'E' then
      match rest with
      | '+' :: rest => exponentDigits false rest
      | '-' :: rest => exponentDigits true rest
      | rest => exponentDigits false rest
    else some (none, c :: rest)
  | [] => some (none, [])

def integerOf? (negative : Bool) (n : Nat) : Option Int :=
  if negative then if 0 < n ∧ n ≤ 2 ^ 63 then some (-n) else none
  else if n < 2 ^ 64 then some n
  else none

def ofParts (negative : Bool) (whole : List Char) (fraction : Option (List Char))
    (exponent : Option Int) : Json :=
  match fraction, exponent, integerOf? negative (digitsValue whole) with
  | none, none, some n => .integer n
  | _, _, _ =>
    let decimal := ScaledDecimal.ofDigits whole (fraction.getD []) (exponent.getD 0)
    match decimal.toBinary64? negative with
    | some x => .float x
    | none => .unreadable

def unsigned (negative : Bool) (s : List Char) : Option (Json × List Char) := do
  let (whole, s) ← wholePart s
  let (fraction, s) ← fractionPart s
  let (exponent, s) ← exponentPart s
  return (ofParts negative whole fraction exponent, s)

def numeral : List Char → Option (Json × List Char)
  | '-' :: rest => unsigned true rest
  | s => unsigned false s

mutual

/-- A value at the front of the text; each step down uses one unit of `fuel`, and the length of
the text is enough of it. -/
def value (fuel : Nat) (s : List Char) : Option (Json × List Char) :=
  match fuel with
  | 0 => none
  | fuel + 1 =>
    match s with
    | 'n' :: 'u' :: 'l' :: 'l' :: rest => some (.null, rest)
    | 't' :: 'r' :: 'u' :: 'e' :: rest => some (.bool true, rest)
    | 'f' :: 'a' :: 'l' :: 's' :: 'e' :: rest => some (.bool false, rest)
    | '"' :: rest =>
      (stringTail (some []) rest).map fun (s, rest) => (s.elim .unreadable .string, rest)
    | '[' :: rest =>
      match skipBlanks rest with
      | ']' :: rest => some (.array [], rest)
      | rest =>
        match items fuel rest with
        | some (xs, rest) => some (.array xs, rest)
        | none => none
    | '\x7b' :: rest =>
      match skipBlanks rest with
      | '\x7d' :: rest => some (.object [], rest)
      | rest =>
        match fields fuel rest with
        | some (xs, rest) => some (xs.elim .unreadable .object, rest)
        | none => none
    | s => numeral s

def items (fuel : Nat) (s : List Char) : Option (List Json × List Char) :=
  match fuel with
  | 0 => none
  | fuel + 1 =>
    match value fuel s with
    | none => none
    | some (x, rest) =>
      match skipBlanks rest with
      | ']' :: rest => some ([x], rest)
      | ',' :: rest =>
        match items fuel (skipBlanks rest) with
        | some (xs, rest) => some (x :: xs, rest)
        | none => none
      | _ => none

def fields (fuel : Nat) (s : List Char) : Option (Option (List (String × Json)) × List Char) :=
  match fuel with
  | 0 => none
  | fuel + 1 =>
    match s with
    | '"' :: rest =>
      match stringTail (some []) rest with
      | none => none
      | some (name, rest) =>
        match skipBlanks rest with
        | ':' :: rest =>
          match value fuel (skipBlanks rest) with
          | none => none
          | some (x, rest) =>
            match skipBlanks rest with
            | '\x7d' :: rest => some (name.map fun name => [(name, x)], rest)
            | ',' :: rest =>
              match fields fuel (skipBlanks rest) with
              | some (xs, rest) => some (do return (← name, x) :: (← xs), rest)
              | none => none
            | _ => none
        | _ => none
    | _ => none

end

def parse? (text : String) : Option Json :=
  let s := skipBlanks text.toList
  match value (s.length + 1) s with
  | some (x, rest) => if (skipBlanks rest).isEmpty then some x else none
  | none => none

end DmlCompiler.Json
