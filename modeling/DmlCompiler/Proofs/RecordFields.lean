import DmlCompiler.Proofs.Timestamp.Rfc3339
import DmlCompiler.SqlValue.Record
import Mathlib.Data.List.Forall2

/-! # What a record keeps of an object

The record of an object has one entry for every field, in the order of the names, and the entry
carries what the field says. The integers above the signed 64-bit words are the only exception:
they are not carried as integers but rounded to binary64 numbers. -/
namespace DmlCompiler

namespace Json

/-- The value says the same as the JSON value, with no digit, character or member lost. -/
inductive KeptAs : Json → SqlValue → Prop
  | null : KeptAs .null .null
  | bool (b : Bool) : KeptAs (.bool b) (.boolean b)
  | smallInt {n : Int} {i : Int16} (same : i.toInt = n) : KeptAs (.integer n) (.smallInt i)
  | integer {n : Int} {i : Int32} (same : i.toInt = n) : KeptAs (.integer n) (.integer i)
  | bigInt {n : Int} {i : Int64} (same : i.toInt = n) : KeptAs (.integer n) (.bigInt i)
  | exact {n : Int} {d : JsonDocument} (same : d.value = .integer n) : KeptAs (.integer n) (.json d)
  | float (x : Binary64) : KeptAs (.float x) (.float x)
  | timestamp (p : Rfc3339) {t : Timestamp} (same : t.instant = p.instant) :
      KeptAs (.string p.text) (.timestamp t)
  | text {s : String} (other : ¬ ∃ p : Rfc3339, s = p.text) : KeptAs (.string s) (.text s)
  | array {items : List Json} {d : JsonDocument} (same : d.value = .array items) :
      KeptAs (.array items) (.json d)
  | object {fields : List (String × Json)} {d : JsonDocument} (same : d.value = .object fields) :
      KeptAs (.object fields) (.json d)

def AboveSigned : Json → Prop
  | .integer n => 2 ^ 63 ≤ n
  | _ => False

variable {x y : Json} {v : SqlValue}

theorem inWord_of_normal {n : Int} (normal : (Json.integer n).normalize = .integer n) :
    -2 ^ 63 ≤ n ∧ n < 2 ^ 64 := by
  by_cases h : inWord n = true
  · simpa [inWord] using h
  · simp [normalize, h] at normal

theorem normal_fields {fields : List (String × Json)}
    (normal : (Json.object fields).normalize = .object fields) :
    Sorted fields ∧ ∀ field ∈ fields, field.2.normalize = field.2 := by
  obtain sorts : sortFields (normalizeFields fields) = fields := by simpa [normalize] using normal
  refine ⟨sorts ▸ sorted_sortFields _, fun field mem => ?_⟩
  rw [← sorts] at mem
  exact normalize_of_mem fields field (mem_of_mem_sortFields mem)

end Json

namespace SqlValue

variable {n : Int}

theorem ofInteger_kept (low : -2 ^ 63 ≤ n) (high : n < 2 ^ 63) :
    (Json.integer n).KeptAs (ofInteger n) := by
  unfold ofInteger
  split
  · next narrow =>
    exact .integer (Int32.toInt_ofInt_of_le narrow.1 (Int.lt_of_le_sub_one narrow.2))
  · split
    · next wide => exact .bigInt (Int64.toInt_ofInt_of_le wide.1 (Int.lt_of_le_sub_one wide.2))
    · next wider => exact absurd ⟨low, Int.le_sub_one_of_lt high⟩ wider

theorem ofInteger_above (high : 2 ^ 63 ≤ n) : ofInteger n = .float (.ofInt n) := by
  have narrow : Int32.maxValue.toInt < n := by
    rw [Int32.toInt_maxValue]
    omega
  have wide : Int64.maxValue.toInt < n := by
    rw [Int64.toInt_maxValue]
    omega
  rw [ofInteger, if_neg fun h => Int.not_le.2 narrow h.2, if_neg fun h => Int.not_le.2 wide h.2]

theorem ofJson_string (s : String) : (Json.string s).KeptAs (ofJson (.string s)) := by
  cases read : Timestamp.ofRfc3339? s with
  | none =>
    simp only [ofJson, read]
    exact .text (Timestamp.ofRfc3339?_iff.2.1 read)
  | some t =>
    obtain ⟨p, rfl, same⟩ := Timestamp.ofRfc3339?_iff.1 t read
    simp only [ofJson, read]
    exact .timestamp p same

/-- The integers above the signed words are what is not kept. -/
theorem ofJson_keptAs_iff {x : Json} (normal : x.normalize = x) :
    x.KeptAs (ofJson x) ↔ ¬ x.AboveSigned := by
  cases x with
  | integer n =>
    constructor
    · intro kept above
      rw [ofJson, ofInteger_above above] at kept
      cases kept
    · intro small
      exact ofInteger_kept (Json.inWord_of_normal normal).1 (Int.not_le.1 small)
  | null => exact iff_of_true .null id
  | bool b => exact iff_of_true (.bool b) id
  | float x => exact iff_of_true (.float x) id
  | string s => exact iff_of_true (ofJson_string s) id
  | array items => exact iff_of_true (.array normal) id
  | object fields => exact iff_of_true (.object normal) id
  | unreadable => simp [Json.normalize] at normal

end SqlValue

/-- The entry stands for the field, under its name. It keeps the field unless that is an integer
above the signed words, of which it holds the nearest binary64 number. -/
structure Record.StandsFor (entry : String × SqlValue) (field : String × Json) : Prop where
  name : entry.1 = field.1
  kept_iff : field.2.KeptAs entry.2 ↔ ¬ field.2.AboveSigned
  rounded : ∀ n : Int, field.2 = .integer n → 2 ^ 63 ≤ n → entry.2 = .float (.ofInt n)

/-- The record has an entry for every field of the object, in the order of the names. -/
theorem record_stands_for_fields {value : Json} {fields : List (String × Json)}
    (isObject : (JsonDocument.of value).value = .object fields) :
    Json.Sorted fields ∧ List.Forall₂ Record.StandsFor (Record.ofJson value) fields := by
  obtain ⟨sorted, normal⟩ := Json.normal_fields (isObject ▸ (JsonDocument.of value).normal)
  refine ⟨sorted, ?_⟩
  rw [Record.ofJson, isObject, List.forall₂_map_left_iff, List.forall₂_same]
  rintro ⟨name, x⟩ mem
  refine ⟨rfl, SqlValue.ofJson_keptAs_iff (normal _ mem), ?_⟩
  rintro n rfl above
  exact SqlValue.ofInteger_above above

/-- The names of the object stand in another order, and one of them stands twice. -/
theorem record_stands_for_fields_unsorted :
    Json.Sorted [("at", .string "2024-02-29T23:59:60Z"), ("id", .integer (2 ^ 63 - 1))] ∧
      List.Forall₂ Record.StandsFor
        (Record.ofJson (.object [("id", .integer 0), ("id", .integer (2 ^ 63 - 1)),
          ("at", .string "2024-02-29T23:59:60Z")]))
        [("at", .string "2024-02-29T23:59:60Z"), ("id", .integer (2 ^ 63 - 1))] :=
  record_stands_for_fields (by decide +kernel)

/-- The greatest word is not kept, and nothing tells it from the word before it. -/
theorem greatest_word_rounded :
    Record.ofJson (.object [("a", .integer (2 ^ 64 - 1))]) = [("a", .float (.ofInt (2 ^ 64 - 1)))] ∧
      ¬ (Json.integer (2 ^ 64 - 1)).KeptAs (.float (.ofInt (2 ^ 64 - 1))) ∧
      Record.ofJson (.object [("a", .integer (2 ^ 64 - 1))]) =
        Record.ofJson (.object [("a", .integer (2 ^ 64 - 2))]) :=
  ⟨rfl, nofun, by decide +kernel⟩

end DmlCompiler
