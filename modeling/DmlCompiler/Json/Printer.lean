import DmlCompiler.Json
import DmlCompiler.Text.Digits
import DmlCompiler.Binary64.Shortest

/-! # Printing JSON

Compact text: no blanks, fields in their order, only quotes, backslashes and control characters
escaped. A number that is not finite has no JSON form and is printed as null; so is what is
unreadable.
-/
namespace DmlCompiler.Json

open Text (hexDigit)

/-- Numbers are positional while the leading digit stands between 10^(-5) and 10^15. -/
def numberLayout : NumberLayout := ⟨-5, 15⟩

def escape (c : Char) : List Char :=
  if c = '"' then ['\\', '"']
  else if c = '\\' then ['\\', '\\']
  else if c = '\n' then ['\\', 'n']
  else if c = '\r' then ['\\', 'r']
  else if c = '\t' then ['\\', 't']
  else if c = '\x08' then ['\\', 'b']
  else if c = '\x0c' then ['\\', 'f']
  else if c.toNat < 0x20 then ['\\', 'u', '0', '0', hexDigit (c.toNat / 16), hexDigit c.toNat]
  else [c]

def quote (s : String) : List Char := '"' :: s.toList.flatMap escape ++ ['"']

def writeInteger (n : Int) : List Char :=
  if n < 0 then '-' :: Nat.toDigits 10 n.natAbs else Nat.toDigits 10 n.natAbs

mutual

def write : Json → List Char
  | .null | .unreadable => "null".toList
  | .bool true => "true".toList
  | .bool false => "false".toList
  | .integer n => writeInteger n
  | .float x => if x.isFinite then numberLayout.writeNumber x else "null".toList
  | .string s => quote s
  | .array [] => ['[', ']']
  | .array (x :: xs) => '[' :: write x ++ writeItems xs
  | .object [] => ['\x7b', '\x7d']
  | .object ((k, x) :: xs) => '\x7b' :: quote k ++ ':' :: write x ++ writeFields xs

def writeItems : List Json → List Char
  | [] => [']']
  | x :: xs => ',' :: write x ++ writeItems xs

def writeFields : List (String × Json) → List Char
  | [] => ['\x7d']
  | (k, x) :: xs => ',' :: quote k ++ ':' :: write x ++ writeFields xs

end

def text (value : Json) : String := String.ofList value.write

end DmlCompiler.Json
