import DmlCompiler.Sql
import DmlCompiler.Text.Digits

/-! # Renaming parameters in finished text

One pass from left to right. A name counts where no letter, digit or underscore follows it, so
that `@p1` is not found in `@p10`; of several names that count at one place the longest is taken.
What is put in is not looked at again.
-/
namespace DmlCompiler.Sql

def standsAt (name text : List Char) : Bool :=
  !name.isEmpty && name.isPrefixOf text && !((text.drop name.length).head?.any Text.isWord)

/-- The longest of the names at the front, with its replacement; of equal names the last. -/
def nameAt? {α : Type} (renames : List (List Char × α)) (text : List Char) :
    Option (List Char × α) :=
  renames.foldl
    (fun best rename =>
      if standsAt rename.1 text && best.all (fun held => held.1.length ≤ rename.1.length) then
        some rename
      else best)
    none

/-- The text with every name replaced; `skip` characters at the front belong to a name that has
been replaced already. -/
def scan {α : Type} (renames : List (List Char × α)) (skip : Nat) :
    List Char → List (Char ⊕ α)
  | [] => []
  | c :: rest =>
    match skip with
    | skip + 1 => scan renames skip rest
    | 0 =>
      match nameAt? renames (c :: rest) with
      | some (name, new) => .inr new :: scan renames (name.length - 1) rest
      | none => .inl c :: scan renames 0 rest

def renameParameters (renames : List (String × String)) (text : String) : String :=
  String.ofList <|
    (scan (renames.map fun (old, new) => (old.toList, new.toList)) 0 text.toList).flatMap
      fun
        | .inl c => [c]
        | .inr new => new

/-- The text of a finished statement, the named parameters turned into places with numbers. -/
def ofFinished (renames : List (String × Nat)) (text : String) : Sql :=
  (scan (renames.map fun (old, number) => (old.toList, number)) 0 text.toList).map
    fun
      | .inl c => .char c
      | .inr number => .place number

end DmlCompiler.Sql
