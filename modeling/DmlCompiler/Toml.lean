/-! # TOML documents

The tree of a document, and the rules for adding to it: no key twice, no table defined twice, and
nothing added to what was written in one piece. Numbers with a point and dates are only known to be
there.
-/
namespace DmlCompiler

inductive TableForm where
  /-- Named on the way to a table below it. -/
  | implied
  /-- Named on the way to a key below it. -/
  | dotted
  /-- Under a header of its own. -/
  | header
  /-- Between braces. -/
  | inline
deriving DecidableEq, Repr

inductive Toml where
  | string (value : String)
  | integer (value : Int)
  | boolean (value : Bool)
  | float
  | date
  | array (items : List Toml)
  /-- The tables under one doubled header. -/
  | tables (items : List Toml)
  | table (form : TableForm) (entries : List (String × Toml))
deriving Repr, Inhabited

namespace Toml

def empty (form : TableForm) : Toml := .table form []

/-- Puts an entry in the place of the one of its key, or at the end. -/
def put (key : String) (value : Toml) : List (String × Toml) → List (String × Toml)
  | [] => [(key, value)]
  | (other, held) :: rest =>
    if other = key then (key, value) :: rest else (other, held) :: put key value rest

/-- Changes the table at the end of a path, making the tables on the way that are missing. With
`dotted` the path is that of a key, which must not enter a table under a header of its own. -/
def modifyAt (dotted : Bool) (change : Toml → Option Toml) : List String → Toml → Option Toml
  | [], t => change t
  | key :: path, .table form entries => do
    let below ←
      match entries.lookup key with
      | none =>
        modifyAt dotted change path (.empty (if dotted then .dotted else .implied))
      | some (.tables items) =>
        match items.getLast? with
        | some last =>
          (modifyAt dotted change path last).map fun last => .tables (items.dropLast ++ [last])
        | none => none
      | some (.table form entries) =>
        if form = .inline ∨ (dotted ∧ form = .header) then none
        else modifyAt dotted change path (.table form entries)
      | some _ => none
    return .table form (put key below entries)
  | _ :: _, _ => none

def addKey (key : String) (value : Toml) : Toml → Option Toml
  | .table form entries =>
    if (entries.lookup key).isSome then none else some (.table form (entries ++ [(key, value)]))
  | _ => none

def addValue (path : List String) (value : Toml) (t : Toml) : Option Toml := do
  let key ← path.getLast?
  modifyAt true (addKey key value) path.dropLast t

/-- Defines the table of a header; a table that was only implied so far is defined now. -/
def addTable (path : List String) (t : Toml) : Option Toml := do
  let key ← path.getLast?
  let define : Toml → Option Toml
    | .table form entries =>
      match entries.lookup key with
      | none => some (.table form (entries ++ [(key, .empty .header)]))
      | some (.table .implied below) => some (.table form (put key (.table .header below) entries))
      | some _ => none
    | _ => none
  modifyAt false define path.dropLast t

def addElement (path : List String) (t : Toml) : Option Toml := do
  let key ← path.getLast?
  let append : Toml → Option Toml
    | .table form entries =>
      match entries.lookup key with
      | none => some (.table form (entries ++ [(key, .tables [.empty .header])]))
      | some (.tables items) =>
        some (.table form (put key (.tables (items ++ [.empty .header])) entries))
      | some _ => none
    | _ => none
  modifyAt false append path.dropLast t

def get? (key : String) : Toml → Option Toml
  | .table _ entries => entries.lookup key
  | _ => none

def text? : Toml → Option String
  | .string s => some s
  | _ => none

def boolean? : Toml → Option Bool
  | .boolean b => some b
  | _ => none

def natural? (bound : Nat) : Toml → Option Nat
  | .integer n => if 0 ≤ n ∧ n < bound then some n.toNat else none
  | _ => none

end Toml
end DmlCompiler
