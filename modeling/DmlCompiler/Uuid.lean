import DmlCompiler.Text.Digits

/-! # UUIDs

Written in lower case with hyphens. Read in either case as thirty-two digits, as five groups with
hyphens, and as five groups in braces or behind `urn:uuid:`.
-/
namespace DmlCompiler

structure Uuid where
  value : BitVec 128
deriving DecidableEq, Repr, Inhabited

namespace Uuid

def digits (u : Uuid) : List Char :=
  (List.range 32).map fun i => Text.hexDigit (u.value.toNat / 16 ^ (31 - i))

def groups : List Nat := [8, 4, 4, 4, 12]

def hyphenate : List Nat → List Char → List Char
  | size :: next :: sizes, s => s.take size ++ '-' :: hyphenate (next :: sizes) (s.drop size)
  | _, s => s

def join? : List Nat → List Char → Option (List Char)
  | size :: next :: sizes, s =>
    match s.drop size with
    | '-' :: rest => (join? (next :: sizes) rest).map (s.take size ++ ·)
    | _ => none
  | _, s => some s

def ofDigits? (s : List Char) : Option Uuid :=
  if s.length = 32 then (Text.hexNumber? s).map fun n => ⟨.ofNat 128 n⟩ else none

def ofGroups? (s : List Char) : Option Uuid := (join? groups s).bind ofDigits?

def text (u : Uuid) : String := String.ofList (hyphenate groups u.digits)

def ofText? (text : String) : Option Uuid :=
  match text.toList with
  | '\x7b' :: rest => if rest.getLast? = some '\x7d' then ofGroups? rest.dropLast else none
  | 'u' :: 'r' :: 'n' :: ':' :: 'u' :: 'u' :: 'i' :: 'd' :: ':' :: rest => ofGroups? rest
  | s => ofDigits? s <|> ofGroups? s

end Uuid
end DmlCompiler
