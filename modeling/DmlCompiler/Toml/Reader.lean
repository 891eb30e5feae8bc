import DmlCompiler.Binary64
import DmlCompiler.Text.Digits
import DmlCompiler.Timestamp
import DmlCompiler.Toml

/-! # Reading TOML

The grammar of TOML 1.1 over characters, with bounds on the size of numbers and on nesting.
`Toml.parse?` gives the tree of a document, or nothing if the text is no document.
-/
namespace DmlCompiler.Toml

open Text (isDigit isLetter digitValue digitsValue hexValue? hexNumber? number?)

/-- The greatest number of parts of a key, and of arrays and inline tables inside one another. -/
def maxDepth : Nat := 80

def isSpace (c : Char) : Bool := c = ' ' || c = '\t'

def skipSpaces (s : List Char) : List Char := s.dropWhile isSpace

def isPrintable (c : Char) : Bool := c = '\t' || (0x20 ≤ c.toNat && c.toNat ≠ 0x7F)

def newline? : List Char → Option (List Char)
  | '\n' :: rest | '\r' :: '\n' :: rest => some rest
  | _ => none

def isBreak (c : Char) : Bool := c = '\n' || c = '\r'

def skipComment : List Char → Option (List Char)
  | '#' :: rest =>
    if (rest.takeWhile (!isBreak ·)).all isPrintable then some (rest.dropWhile (!isBreak ·))
    else none
  | s => some s

def endLine (s : List Char) : Option (List Char) := do
  match ← skipComment (skipSpaces s) with
  | [] => return []
  | s => newline? s

def skipLines (fuel : Nat) (s : List Char) : Option (List Char) :=
  match fuel with
  | 0 => some s
  | fuel + 1 =>
    match skipComment (skipSpaces s) with
    | none => none
    | some s =>
      match newline? s with
      | some rest => skipLines fuel rest
      | none => some s

def character? (code : Nat) : Option Char :=
  if code < 0xD800 ∨ (0xE000 ≤ code ∧ code < 0x110000) then some (Char.ofNat code) else none

def coded? (digits : Nat) (s : List Char) : Option (Char × List Char) :=
  if s.length < digits then none
  else ((hexNumber? (s.take digits)).bind character?).map fun c => (c, s.drop digits)

def escape? : List Char → Option (Char × List Char)
  | 'b' :: rest => some ('\x08', rest)
  | 't' :: rest => some ('\t', rest)
  | 'n' :: rest => some ('\n', rest)
  | 'f' :: rest => some ('\x0c', rest)
  | 'r' :: rest => some ('\r', rest)
  | 'e' :: rest => some ('\x1b', rest)
  | '"' :: rest => some ('"', rest)
  | '\\' :: rest => some ('\\', rest)
  | 'x' :: rest => coded? 2 rest
  | 'u' :: rest => coded? 4 rest
  | 'U' :: rest => coded? 8 rest
  | _ => none

/-- The rest of a string on one line, up to the quote; `read` holds its characters, last one
first. With `escapes` a backslash is one. -/
def lineString (quote : Char) (escapes : Bool) (fuel : Nat) (read : List Char) (s : List Char) :
    Option (String × List Char) :=
  match fuel, s with
  | fuel + 1, c :: rest =>
    if c = quote then some (String.ofList read.reverse, rest)
    else if escapes ∧ c = '\\' then
      match escape? rest with
      | some (x, rest) => lineString quote escapes fuel (x :: read) rest
      | none => none
    else if isPrintable c then lineString quote escapes fuel (c :: read) rest
    else none
  | _, _ => none

/-- The rest behind a backslash at the end of a line: the line break and the blanks after it. -/
def continuation? (s : List Char) : Option (List Char) :=
  (newline? (skipSpaces s)).map fun rest => rest.dropWhile fun c => isSpace c || isBreak c

/-- The rest of a string over several lines, up to three quotes; one or two more quotes before
them belong to the string. -/
def blockString (quote : Char) (escapes : Bool) (fuel : Nat) (read : List Char) (s : List Char) :
    Option (String × List Char) :=
  match fuel, s with
  | fuel + 1, c :: rest =>
    if c = quote then
      let quotes := (c :: rest).takeWhile (· = quote)
      let count := quotes.length
      if count < 3 then blockString quote escapes fuel (quotes ++ read) ((c :: rest).drop count)
      else if count ≤ 5 then
        some (String.ofList (quotes.drop 3 ++ read).reverse, (c :: rest).drop count)
      else none
    else if escapes ∧ c = '\\' then
      match continuation? rest with
      | some rest => blockString quote escapes fuel read rest
      | none =>
        match escape? rest with
        | some (x, rest) => blockString quote escapes fuel (x :: read) rest
        | none => none
    else
      match newline? (c :: rest) with
      | some rest => blockString quote escapes fuel ('\n' :: read) rest
      | none =>
        if isPrintable c then blockString quote escapes fuel (c :: read) rest else none
  | _, _ => none

/-- A string of any of the four kinds. A line break right behind three quotes is dropped. -/
def quoted? (s : List Char) : Option (String × List Char) :=
  let block (quote : Char) (escapes : Bool) (rest : List Char) :=
    blockString quote escapes (rest.length + 1) [] ((newline? rest).getD rest)
  match s with
  | '"' :: '"' :: '"' :: rest => block '"' true rest
  | '\x27' :: '\x27' :: '\x27' :: rest => block '\x27' false rest
  | '"' :: rest => lineString '"' true (rest.length + 1) [] rest
  | '\x27' :: rest => lineString '\x27' false (rest.length + 1) [] rest
  | _ => none

def isKeyChar (c : Char) : Bool := isLetter c || isDigit c || c = '_' || c = '-'

def simpleKey? (s : List Char) : Option (String × List Char) :=
  match s with
  | '"' :: rest => lineString '"' true (rest.length + 1) [] rest
  | '\x27' :: rest => lineString '\x27' false (rest.length + 1) [] rest
  | s =>
    let key := s.takeWhile isKeyChar
    if key.isEmpty then none else some (String.ofList key, s.drop key.length)

def keyParts? (fuel : Nat) (s : List Char) : Option (List String × List Char) :=
  match fuel with
  | 0 => none
  | fuel + 1 =>
    match simpleKey? (skipSpaces s) with
    | none => none
    | some (key, rest) =>
      match skipSpaces rest with
      | '.' :: rest => (keyParts? fuel rest).map fun (path, rest) => (key :: path, rest)
      | rest => some ([key], rest)

def key? (s : List Char) : Option (List String × List Char) :=
  (keyParts? (s.length + 1) s).filter fun (path, _) => path.length ≤ maxDepth

def digit? (base : Nat) (c : Char) : Option Nat := (hexValue? c).filter (· < base)

/-- Continues a number by the digits of a base, single underscores between them allowed. -/
def moreDigits? (base n : Nat) : List Char → Option Nat
  | [] => some n
  | '_' :: c :: rest => (digit? base c).bind fun d => moreDigits? base (n * base + d) rest
  | c :: rest => (digit? base c).bind fun d => moreDigits? base (n * base + d) rest

def digits? (base : Nat) : List Char → Option Nat
  | c :: rest => (digit? base c).bind fun d => moreDigits? base d rest
  | [] => none

def decimal? : List Char → Option Nat
  | ['0'] => some 0
  | '0' :: _ => none
  | s => digits? 10 s

def signed? : List Char → Option Int
  | '-' :: rest => (decimal? rest).map fun n => -(n : Int)
  | '+' :: rest => (decimal? rest).map fun n => n
  | s => (decimal? s).map fun n => n

/-- An integer of at most 128 bits; only decimal ones have a sign. -/
def integer? (token : List Char) : Option Toml := do
  let n : Int ←
    match token with
    | '0' :: 'x' :: rest => (digits? 16 rest).map fun n => n
    | '0' :: 'o' :: rest => (digits? 8 rest).map fun n => n
    | '0' :: 'b' :: rest => (digits? 2 rest).map fun n => n
    | s => signed? s
  if -2 ^ 127 ≤ n ∧ n < 2 ^ 128 then some (.integer n) else none

def plainDigits (s : List Char) : Nat := digitsValue (s.filter isDigit)

/-- Infinity, not a number, or decimal digits with a point or an exponent that are not too large for
binary64. -/
def isFloat (token : List Char) : Bool :=
  let unsigned := match token with
    | '+' :: rest | '-' :: rest => rest
    | s => s
  if unsigned = "inf".toList ∨ unsigned = "nan".toList then true
  else
    let mantissa := token.takeWhile fun c => c ≠ 'e' && c ≠ 'E'
    let exponent := token.drop mantissa.length
    let whole := mantissa.takeWhile (· ≠ '.')
    let fraction := mantissa.drop whole.length
    let (negative, exponentDigits) := match exponent.drop 1 with
      | '+' :: rest => (false, rest)
      | '-' :: rest => (true, rest)
      | s => (false, s)
    let size : Int := plainDigits exponentDigits
    (signed? whole).isSome &&
      (fraction.isEmpty || (digits? 10 (fraction.drop 1)).isSome) &&
      (exponent.isEmpty || (digits? 10 exponentDigits).isSome) &&
      !(fraction.isEmpty && exponent.isEmpty) &&
      (Binary64.ofDecimal? false (plainDigits mantissa)
        ((if negative then -size else size) - (fraction.filter isDigit).length)).isSome

def date? (s : List Char) : Option (List Char) := do
  match ← number? 4 4 s with
  | (year, '-' :: s) =>
    match ← number? 2 2 s with
    | (month, '-' :: s) => do
      let (day, s) ← number? 2 2 s
      let _ ← Date.of? year month day
      return s
    | _ => none
  | _ => none

/-- The rest behind a time of day, whose seconds may be left out. -/
def time? (s : List Char) : Option (List Char) := do
  let (hour, s) ← number? 2 2 s
  match s with
  | ':' :: s => do
    let (minute, s) ← number? 2 2 s
    let (second, s) ←
      match s with
      | ':' :: s => number? 2 2 s
      | s => some (0, s)
    let _ ← TimeOfDay.of? hour minute second 0
    match s with
    | '.' :: c :: s => if isDigit c then some (s.dropWhile isDigit) else none
    | '.' :: [] => none
    | s => some s
  | _ => none

def isOffset : List Char → Bool
  | [] | ['Z'] | ['z'] => true
  | [sign, a, b, ':', c, d] =>
    (sign = '+' || sign = '-') && [a, b, c, d].all isDigit &&
      digitValue a * 10 + digitValue b < 24 && digitValue c < 6
  | _ => false

def isDateTime (token : List Char) : Bool :=
  match date? token with
  | some [] => true
  | some (c :: rest) =>
    (c = 'T' || c = 't' || c = ' ') && ((time? rest).any isOffset)
  | none => time? token = some []

def isScalarChar (c : Char) : Bool := isKeyChar c || c = '+' || c = '.' || c = ':'

/-- The characters of a value without quotes or brackets; one space may stand behind a date. -/
def scalarToken (s : List Char) : List Char :=
  let token := s.takeWhile isScalarChar
  match date? token, s.drop token.length with
  | some [], ' ' :: c :: rest =>
    if isDigit c then token ++ ' ' :: (c :: rest).takeWhile isScalarChar else token
  | _, _ => token

def scalar? (s : List Char) : Option (Toml × List Char) := do
  let token := scalarToken s
  let rest := s.drop token.length
  if token = "true".toList then return (.boolean true, rest)
  if token = "false".toList then return (.boolean false, rest)
  match integer? token with
  | some value => return (value, rest)
  | none =>
    if isFloat token && (signed? token).isNone then return (.float, rest)
    if isDateTime token then return (.date, rest)
    none

mutual

/-- A value at the front of the text; each step down uses one unit of `fuel`, each array or inline
table one of `room`. -/
def value (fuel room : Nat) (s : List Char) : Option (Toml × List Char) :=
  match fuel with
  | 0 => none
  | fuel + 1 =>
    match s with
    | '"' :: _ | '\x27' :: _ => (quoted? s).map fun (s, rest) => (.string s, rest)
    | '[' :: rest =>
      if room = 0 then none
      else (items fuel (room - 1) [] rest).map fun (xs, rest) => (.array xs, rest)
    | '\x7b' :: rest => if room = 0 then none else entries fuel (room - 1) (.empty .dotted) rest
    | s => scalar? s

def items (fuel room : Nat) (read : List Toml) (s : List Char) : Option (List Toml × List Char) :=
  match fuel with
  | 0 => none
  | fuel + 1 =>
    match skipLines s.length s with
    | some (']' :: rest) => some (read.reverse, rest)
    | some s =>
      match value fuel room s with
      | none => none
      | some (x, rest) =>
        match skipLines rest.length rest with
        | some (',' :: rest) => items fuel room (x :: read) rest
        | some (']' :: rest) => some ((x :: read).reverse, rest)
        | _ => none
    | none => none

def entries (fuel room : Nat) (table : Toml) (s : List Char) : Option (Toml × List Char) :=
  match fuel with
  | 0 => none
  | fuel + 1 =>
    match skipLines s.length s with
    | some ('\x7d' :: rest) => some (sealed table, rest)
    | some s =>
      match key? s with
      | some (path, '=' :: rest) =>
        match value fuel room (skipSpaces rest) with
        | none => none
        | some (x, rest) =>
          match addValue path x table with
          | none => none
          | some table =>
            match skipLines rest.length rest with
            | some (',' :: rest) => entries fuel room table rest
            | some ('\x7d' :: rest) => some (sealed table, rest)
            | _ => none
      | _ => none
    | none => none

def sealed : Toml → Toml
  | .table _ entries => .table .inline entries
  | t => t

end

/-- The document so far and the path of the table that takes the next keys. -/
structure Reading where
  root : Toml
  path : List String

def line (r : Reading) (s : List Char) : Option (Reading × List Char) := do
  match skipSpaces s with
  | '[' :: '[' :: rest =>
    match ← key? rest with
    | (path, ']' :: ']' :: rest) => return (⟨← addElement path r.root, path⟩, ← endLine rest)
    | _ => none
  | '[' :: rest =>
    match ← key? rest with
    | (path, ']' :: rest) => return (⟨← addTable path r.root, path⟩, ← endLine rest)
    | _ => none
  | [] => return (r, [])
  | c :: rest =>
    if c = '#' ∨ isBreak c then return (r, ← endLine (c :: rest))
    else
      match ← key? (c :: rest) with
      | (path, '=' :: rest) =>
        let (x, rest) ← value (rest.length + 1) maxDepth (skipSpaces rest)
        let root ← modifyAt false (addValue path x) r.path r.root
        return (⟨root, r.path⟩, ← endLine rest)
      | _ => none

def lines (fuel : Nat) (r : Reading) (s : List Char) : Option Toml :=
  match fuel, s with
  | _, [] => some r.root
  | 0, _ => none
  | fuel + 1, s =>
    match line r s with
    | some (r, rest) => lines fuel r rest
    | none => none

def parse? (text : String) : Option Toml :=
  let s := match text.toList with
    | '\ufeff' :: rest => rest
    | s => s
  lines (s.length + 1) ⟨.empty .header, []⟩ s

end DmlCompiler.Toml
