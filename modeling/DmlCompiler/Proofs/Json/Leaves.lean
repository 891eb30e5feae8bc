import DmlCompiler.Json.Document

/-! # Leaves

A document is made of leaves, in arrays and objects. Most of what a text can hold of a document is
a question of its leaves alone. -/
namespace DmlCompiler.Json

mutual

def leaves : Json → List Json
  | .array items => itemLeaves items
  | .object fields => fieldLeaves fields
  | leaf => [leaf]

def itemLeaves : List Json → List Json
  | [] => []
  | x :: xs => x.leaves ++ itemLeaves xs

def fieldLeaves : List (String × Json) → List Json
  | [] => []
  | (_, x) :: xs => x.leaves ++ fieldLeaves xs

end

theorem itemLeaves_eq (xs : List Json) : itemLeaves xs = xs.flatMap leaves := by
  induction xs with
  | nil => rfl
  | cons x xs ih => rw [itemLeaves, ih, List.flatMap_cons]

theorem fieldLeaves_eq (fields : List (String × Json)) :
    fieldLeaves fields = fields.flatMap (·.2.leaves) := by
  induction fields with
  | nil => rfl
  | cons field fields ih => rw [fieldLeaves, ih, List.flatMap_cons]

def AllLeaves (P : Json → Prop) (x : Json) : Prop := ∀ leaf ∈ x.leaves, P leaf

section AllLeaves

variable {P Q : Json → Prop}

theorem AllLeaves.imp {x : Json} (h : x.AllLeaves P) (weaker : ∀ leaf, P leaf → Q leaf) :
    x.AllLeaves Q :=
  fun leaf mem => weaker leaf (h leaf mem)

theorem allLeaves_leaf {x : Json} (isLeaf : x.leaves = [x]) : x.AllLeaves P ↔ P x := by
  rw [AllLeaves, isLeaf, List.forall_mem_singleton]

@[simp] theorem allLeaves_null : Json.null.AllLeaves P ↔ P .null := allLeaves_leaf rfl

@[simp] theorem allLeaves_bool {b : Bool} : (Json.bool b).AllLeaves P ↔ P (.bool b) :=
  allLeaves_leaf rfl

@[simp] theorem allLeaves_integer {n : Int} : (Json.integer n).AllLeaves P ↔ P (.integer n) :=
  allLeaves_leaf rfl

@[simp] theorem allLeaves_float {x : Binary64} : (Json.float x).AllLeaves P ↔ P (.float x) :=
  allLeaves_leaf rfl

@[simp] theorem allLeaves_string {s : String} : (Json.string s).AllLeaves P ↔ P (.string s) :=
  allLeaves_leaf rfl

@[simp] theorem allLeaves_unreadable : Json.unreadable.AllLeaves P ↔ P .unreadable :=
  allLeaves_leaf rfl

@[simp] theorem allLeaves_array {items : List Json} :
    (Json.array items).AllLeaves P ↔ ∀ x ∈ items, x.AllLeaves P := by
  rw [AllLeaves, leaves, itemLeaves_eq, List.forall_mem_flatMap]
  rfl

@[simp] theorem allLeaves_object {fields : List (String × Json)} :
    (Json.object fields).AllLeaves P ↔ ∀ field ∈ fields, field.2.AllLeaves P := by
  rw [AllLeaves, leaves, fieldLeaves_eq, List.forall_mem_flatMap]
  rfl

end AllLeaves

/-- What holds of the leaves, and of arrays and objects if it holds of all their parts, holds of
every document. -/
@[elab_as_elim]
theorem by_parts {P : Json → Prop} (null : P .null) (bool : ∀ b, P (.bool b))
    (integer : ∀ n, P (.integer n)) (float : ∀ x, P (.float x)) (string : ∀ s, P (.string s))
    (unreadable : P .unreadable) (array : ∀ items, (∀ x ∈ items, P x) → P (.array items))
    (object : ∀ fields, (∀ field ∈ fields, P field.2) → P (.object fields)) (x : Json) : P x :=
  @Json.rec P (fun items => ∀ x ∈ items, P x) (fun fields => ∀ field ∈ fields, P field.2)
    (fun field => P field.2) null bool integer float string array object unreadable
    nofun (fun _ _ here behind => List.forall_mem_cons.2 ⟨here, behind⟩)
    nofun (fun _ _ here behind => List.forall_mem_cons.2 ⟨here, behind⟩) (fun _ _ here => here) x

theorem normalizeItems_eq (items : List Json) : normalizeItems items = items.map normalize := by
  induction items with
  | nil => rfl
  | cons x xs ih => rw [normalizeItems, ih, List.map_cons]

theorem normalizeFields_eq (fields : List (String × Json)) :
    normalizeFields fields = fields.map fun field => (field.1, field.2.normalize) := by
  induction fields with
  | nil => rfl
  | cons field fields ih => rw [normalizeFields, ih, List.map_cons]

/-- The leaves of a normal form are in normal form. -/
theorem normalize_leaves (x : Json) : x.normalize.AllLeaves fun leaf => leaf.normalize = leaf := by
  induction x using by_parts with
  | null | bool | string | unreadable => simp [normalize]
  | integer n => by_cases fits : inWord n <;> simp [normalize, fits]
  | float x => by_cases finite : x.isFinite <;> simp [normalize, finite]
  | array items ih =>
    rw [normalize, normalizeItems_eq, allLeaves_array, List.forall_mem_map]
    exact ih
  | object fields ih =>
    rw [normalize, normalizeFields_eq, allLeaves_object]
    intro field sorted
    obtain ⟨origin, there, rfl⟩ := List.mem_map.1 (mem_of_mem_sortFields sorted)
    exact ih origin there

end DmlCompiler.Json
