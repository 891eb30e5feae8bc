import DmlCompiler.Binary64

/-! # JSON

A document as it is written: fields keep their order and may repeat, and a part that has the form
of a value but is none is kept as unreadable, so that a reader may pass over it. `Json.fields?`
reads the fields of a record, `Json.depth` counts how far arrays and objects are nested, and
`Json.within` makes unreadable what is nested too deeply.
-/
namespace DmlCompiler

inductive Json where
  | null
  | bool (value : Bool)
  | integer (value : Int)
  | float (value : Binary64)
  | string (value : String)
  | array (items : List Json)
  | object (fields : List (String × Json))
  | unreadable
deriving Repr, Inhabited

namespace Json

mutual

def decideEq : (a b : Json) → Decidable (a = b)
  | .null, .null => isTrue rfl
  | .unreadable, .unreadable => isTrue rfl
  | .bool a, .bool b => decidable_of_iff (a = b) (by simp)
  | .integer a, .integer b => decidable_of_iff (a = b) (by simp)
  | .float a, .float b => decidable_of_iff (a = b) (by simp)
  | .string a, .string b => decidable_of_iff (a = b) (by simp)
  | .array a, .array b =>
    match decideItems a b with
    | isTrue h => isTrue (by rw [h])
    | isFalse h => isFalse (by simpa using h)
  | .object a, .object b =>
    match decideFields a b with
    | isTrue h => isTrue (by rw [h])
    | isFalse h => isFalse (by simpa using h)
  | .null, .bool _ | .null, .integer _ | .null, .float _ | .null, .string _ | .null, .array _
  | .null, .object _ | .null, .unreadable | .bool _, .null | .bool _, .integer _
  | .bool _, .float _ | .bool _, .string _ | .bool _, .array _ | .bool _, .object _
  | .bool _, .unreadable | .integer _, .null | .integer _, .bool _ | .integer _, .float _
  | .integer _, .string _ | .integer _, .array _ | .integer _, .object _
  | .integer _, .unreadable | .float _, .null | .float _, .bool _ | .float _, .integer _
  | .float _, .string _ | .float _, .array _ | .float _, .object _ | .float _, .unreadable
  | .string _, .null | .string _, .bool _ | .string _, .integer _ | .string _, .float _
  | .string _, .array _ | .string _, .object _ | .string _, .unreadable | .array _, .null
  | .array _, .bool _ | .array _, .integer _ | .array _, .float _ | .array _, .string _
  | .array _, .object _ | .array _, .unreadable | .object _, .null | .object _, .bool _
  | .object _, .integer _ | .object _, .float _ | .object _, .string _ | .object _, .array _
  | .object _, .unreadable | .unreadable, .null | .unreadable, .bool _ | .unreadable, .integer _
  | .unreadable, .float _ | .unreadable, .string _ | .unreadable, .array _
  | .unreadable, .object _ => isFalse (by simp)

def decideItems : (a b : List Json) → Decidable (a = b)
  | [], [] => isTrue rfl
  | [], _ :: _ | _ :: _, [] => isFalse (by simp)
  | x :: xs, y :: ys =>
    match decideEq x y, decideItems xs ys with
    | isTrue h, isTrue t => isTrue (by rw [h, t])
    | isFalse h, _ => isFalse (by simp [h])
    | _, isFalse t => isFalse (by simp [t])

def decideFields : (a b : List (String × Json)) → Decidable (a = b)
  | [], [] => isTrue rfl
  | [], _ :: _ | _ :: _, [] => isFalse (by simp)
  | (k, x) :: xs, (l, y) :: ys =>
    match decEq k l, decideEq x y, decideFields xs ys with
    | isTrue n, isTrue h, isTrue t => isTrue (by rw [n, h, t])
    | isFalse n, _, _ => isFalse (by simp [n])
    | _, isFalse h, _ => isFalse (by simp [h])
    | _, _, isFalse t => isFalse (by simp [t])

end

instance : DecidableEq Json := decideEq

mutual

def depth : Json → Nat
  | .array items => depthItems items + 1
  | .object fields => depthFields fields + 1
  | _ => 0

def depthItems : List Json → Nat
  | [] => 0
  | x :: xs => max x.depth (depthItems xs)

def depthFields : List (String × Json) → Nat
  | [] => 0
  | (_, x) :: xs => max x.depth (depthFields xs)

end

mutual

def within (limit : Nat) : Json → Json
  | .array items =>
    match limit with
    | 0 => .unreadable
    | limit + 1 => .array (withinItems limit items)
  | .object fields =>
    match limit with
    | 0 => .unreadable
    | limit + 1 => .object (withinFields limit fields)
  | value => value

def withinItems (limit : Nat) : List Json → List Json
  | [] => []
  | x :: xs => x.within limit :: withinItems limit xs

def withinFields (limit : Nat) : List (String × Json) → List (String × Json)
  | [] => []
  | (name, x) :: xs => (name, x.within limit) :: withinFields limit xs

end

mutual

/-- The limit changes nothing that keeps to it. -/
theorem within_of_depth_le : ∀ {limit : Nat} (x : Json), x.depth ≤ limit → x.within limit = x
  | 0, .array _, h | 0, .object _, h => by simp [depth] at h
  | limit + 1, .array items, h => by
    rw [within, withinItems_of_depth_le items (by simpa [depth] using h)]
  | limit + 1, .object fields, h => by
    rw [within, withinFields_of_depth_le fields (by simpa [depth] using h)]
  | _, .null, _ | _, .bool _, _ | _, .integer _, _ | _, .float _, _ | _, .string _, _
  | _, .unreadable, _ => by simp [within]

theorem withinItems_of_depth_le : ∀ {limit : Nat} (xs : List Json), depthItems xs ≤ limit →
    withinItems limit xs = xs
  | _, [], _ => rfl
  | limit, x :: xs, h => by
    have both : x.depth ≤ limit ∧ depthItems xs ≤ limit := Nat.max_le.1 h
    rw [withinItems, within_of_depth_le x both.1, withinItems_of_depth_le xs both.2]

theorem withinFields_of_depth_le : ∀ {limit : Nat} (xs : List (String × Json)),
    depthFields xs ≤ limit → withinFields limit xs = xs
  | _, [], _ => rfl
  | limit, (name, x) :: xs, h => by
    have both : x.depth ≤ limit ∧ depthFields xs ≤ limit := Nat.max_le.1 h
    rw [withinFields, within_of_depth_le x both.1, withinFields_of_depth_le xs both.2]

end

mutual

def isReadable : Json → Bool
  | .array items => readableItems items
  | .object fields => readableFields fields
  | .unreadable => false
  | _ => true

def readableItems : List Json → Bool
  | [] => true
  | x :: xs => x.isReadable && readableItems xs

def readableFields : List (String × Json) → Bool
  | [] => true
  | (_, x) :: xs => x.isReadable && readableFields xs

end

/-- The value of a field that occurs at most once; `none` when it is repeated. -/
def unique? (name : String) (fields : List (String × Json)) : Option (Option Json) :=
  match fields.filter (·.1 == name) with
  | [] => some none
  | [(_, value)] => some (some value)
  | _ => none

/-- The values of a record's fields in the order of `names`. A record is an object, in which
fields of other names are ignored and a missing field is `none`, or the array of all its values. -/
def fields? (names : List String) : Json → Option (List (Option Json))
  | .object fields => names.mapM (unique? · fields)
  | .array items => if items.length = names.length then some (items.map some) else none
  | _ => none

def get? (name : String) : Json → Option Json
  | .object fields => (fields.find? (·.1 == name)).map (·.2)
  | _ => none

def text? : Json → Option String
  | .string s => some s
  | _ => none

def bool? : Json → Option Bool
  | .bool b => some b
  | _ => none

def integer? (low high : Int) : Json → Option Int
  | .integer n => if low ≤ n ∧ n ≤ high then some n else none
  | _ => none

/-- A number; an integer literal stands for the nearest binary64 number. -/
def number? : Json → Option Binary64
  | .float x => some x
  | .integer n => some (.ofInt n)
  | _ => none

def list? {α : Type} (read : Json → Option α) : Json → Option (List α)
  | .array items => items.mapM read
  | _ => none

/-- An optional field: missing or null is `none`. -/
def optional? {α : Type} (read : Json → Option α) : Option Json → Option (Option α)
  | none | some .null => some none
  | some value => (read value).map some

/-- The name and payload of a variant: an object with exactly one field, or the bare name, whose
payload is then missing. -/
def variant? : Json → Option (String × Option Json)
  | .string name => some (name, none)
  | .object [(name, payload)] => some (name, some payload)
  | _ => none

/-- A variant without payload, which may also be written with the payload null. -/
def bare? (value : Json) : Option String :=
  match value.variant? with
  | some (name, none) | some (name, some .null) => some name
  | _ => none

end Json
end DmlCompiler
