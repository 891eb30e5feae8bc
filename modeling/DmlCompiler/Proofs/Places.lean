import DmlCompiler.Sql
import Mathlib.Data.List.Basic

/-! # Places of parameters

The places in a text from left to right. A fragment holds the numbers of the parameters that were
added while it was rendered; in order it holds each of them once, in its turn. -/
namespace DmlCompiler

namespace Symbol

def place? : Symbol → Option Nat
  | .char _ => none
  | .place number => some number

def relabel (f : Nat → Nat) : Symbol → Symbol
  | .char c => .char c
  | .place number => .place (f number)

end Symbol

namespace Sql

theorem ofString_append (s t : String) : ofString (s ++ t) = ofString s ++ ofString t := by
  simp [ofString]

theorem ofString_intercalate (separator : String) (texts : List String) :
    ofString (separator.intercalate texts) = join separator (texts.map ofString) := by
  induction texts with
  | nil => simp [ofString, join]
  | cons s texts ih =>
    cases texts with
    | nil => simp [join]
    | cons t texts =>
      rw [String.intercalate_cons_cons, ofString_append, ofString_append, ih]
      simp only [join, List.map_cons, List.intercalate_cons_cons]

structure IsClosed (holds : Sql → Prop) : Prop where
  nil : holds []
  append {a b : Sql} : holds a → holds b → holds (a ++ b)

namespace IsClosed

variable {holds : Sql → Prop} {fragments : List Sql}

theorem flatten (closed : IsClosed holds) (h : ∀ sql ∈ fragments, holds sql) :
    holds fragments.flatten := by
  induction fragments with
  | nil => exact closed.nil
  | cons sql fragments ih =>
    rw [List.flatten_cons]
    exact closed.append (h sql List.mem_cons_self) (ih fun a ha => h a (List.mem_cons_of_mem _ ha))

theorem join (closed : IsClosed holds) {separator : String} (hs : holds (ofString separator))
    (h : ∀ sql ∈ fragments, holds sql) : holds (Sql.join separator fragments) := by
  induction fragments with
  | nil => exact closed.nil
  | cons sql fragments ih =>
    have first := h sql List.mem_cons_self
    cases fragments with
    | nil => simpa [Sql.join] using first
    | cons sql' fragments =>
      have rest := ih fun a ha => h a (List.mem_cons_of_mem _ ha)
      rw [Sql.join, List.intercalate_cons_cons]
      exact closed.append (closed.append first hs) rest

end IsClosed

def places (sql : Sql) : List Nat := sql.filterMap Symbol.place?

variable {a b sql : Sql}

@[simp] theorem places_nil : places [] = [] := rfl

@[simp] theorem places_cons_char (c : Char) : places (.char c :: sql) = places sql := rfl

@[simp] theorem places_cons_place (number : Nat) :
    places (.place number :: sql) = number :: places sql := rfl

@[simp] theorem places_append : places (a ++ b) = places a ++ places b := List.filterMap_append

@[simp] theorem places_ofString (s : String) : places (ofString s) = [] := by
  simp [places, ofString, Symbol.place?]

@[simp] theorem places_replicate (n : Nat) (c : Char) :
    places (List.replicate n (.char c)) = [] := by
  simp [places, Symbol.place?]

@[simp] theorem places_parenthesize : places sql.parenthesize = places sql := by
  simp [parenthesize]

@[simp] theorem places_flatten (fragments : List Sql) :
    places fragments.flatten = (fragments.map places).flatten := by
  induction fragments with
  | nil => rfl
  | cons sql fragments ih => simp [ih]

@[simp] theorem places_join (separator : String) (fragments : List Sql) :
    places (join separator fragments) = (fragments.map places).flatten := by
  induction fragments with
  | nil => rfl
  | cons sql fragments ih =>
    cases fragments with
    | nil => simp [join]
    | cons sql' fragments =>
      simp only [join, List.intercalate_cons_cons, places_append, places_ofString,
        List.map_cons, List.flatten_cons] at ih ⊢
      rw [ih, List.append_nil]

@[simp] theorem relabel_ofString (f : Nat → Nat) (s : String) :
    (ofString s).map (Symbol.relabel f) = ofString s := by
  simp [ofString, Symbol.relabel]

theorem places_relabel (f : Nat → Nat) :
    places (sql.map (Symbol.relabel f)) = sql.places.map f := by
  have each : Symbol.place? ∘ Symbol.relabel f = fun s => s.place?.map f := by
    funext s
    cases s <;> rfl
  rw [places, List.filterMap_map, each, places, List.map_filterMap]

end Sql

/-- The numbers are those after `m` up to `n`, and if they are in order each is there once and in
its turn. -/
structure Fills (inOrder : Prop) (m n : Nat) (numbers : List Nat) : Prop where
  le : m ≤ n
  mem_iff : ∀ k, k ∈ numbers ↔ m < k ∧ k ≤ n
  sorted : inOrder → numbers = List.range' (m + 1) (n - m)

namespace Fills

variable {inOrder : Prop} {l m n : Nat} {numbers numbers' : List Nat}

theorem empty : Fills inOrder n n [] where
  le := Nat.le_refl n
  mem_iff k := by simp
  sorted _ := by simp

theorem single : Fills inOrder n (n + 1) [n + 1] where
  le := Nat.le_succ n
  mem_iff k := by
    rw [List.mem_singleton]
    omega
  sorted _ := by simp

theorem append (h : Fills inOrder l m numbers) (h' : Fills inOrder m n numbers') :
    Fills inOrder l n (numbers ++ numbers') where
  le := Nat.le_trans h.le h'.le
  mem_iff k := by
    have := h.le
    have := h'.le
    rw [List.mem_append, h.mem_iff, h'.mem_iff]
    omega
  sorted ordered := by
    have first := h.le
    have second := h'.le
    have gap : n - l = (m - l) + (n - m) := by omega
    have start : m + 1 = l + 1 + (m - l) := by omega
    rw [h.sorted ordered, h'.sorted ordered, gap, start, List.range'_append_1]

theorem repeated (h : Fills inOrder m n numbers) (unordered : ¬ inOrder)
    (known : ∀ k ∈ numbers', k ∈ numbers) : Fills inOrder m n (numbers ++ numbers') where
  le := h.le
  mem_iff k := by
    rw [List.mem_append, ← h.mem_iff]
    constructor
    · rintro (mem | mem)
      · exact mem
      · exact known k mem
    · exact Or.inl
  sorted ordered := absurd ordered unordered

theorem shift (h : Fills inOrder m n numbers) (k : Nat) :
    Fills inOrder (k + m) (k + n) (numbers.map (k + ·)) where
  le := Nat.add_le_add_left h.le k
  mem_iff j := by
    simp only [List.mem_map, h.mem_iff]
    constructor
    · rintro ⟨i, hi, rfl⟩
      omega
    · intro hj
      exact ⟨j - k, by omega, by omega⟩
  sorted ordered := by
    have length : k + n - (k + m) = n - m := by omega
    rw [h.sorted ordered, List.map_add_range', length, Nat.add_assoc]

end Fills
end DmlCompiler
