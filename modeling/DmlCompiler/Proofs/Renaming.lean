import DmlCompiler.Proofs.Lexing
import DmlCompiler.Proofs.Renaming.Occurrences
import Std.Data.String.ToNat

/-! # Reading places back

In finished text that the lexer accepts, the name of a parameter stands at the places of this
parameter and nowhere else. So replacing names by places gives back the text that was finished,
with its places labelled anew. -/
namespace DmlCompiler

namespace Sql

variable {d : Dialect} {q q' : Lexer} {sql : Sql}

def chars (d : Dialect) (sql : Sql) : List Char := sql.flatMap (symbolChars d)

@[simp] theorem text_toList : (text d sql).toList = chars d sql := by
  simp [text, chars]

@[simp] theorem chars_append (a b : Sql) : chars d (a ++ b) = chars d a ++ chars d b :=
  List.flatMap_append

@[simp] theorem chars_nil : chars d [] = [] := rfl

@[simp] theorem chars_ofString (s : String) : chars d (ofString s) = s.toList := by
  rw [chars, ofString, List.flatMap_map]
  exact List.flatMap_singleton' s.toList

theorem text_append (a b : Sql) : text d (a ++ b) = text d a ++ text d b := by
  apply String.ext
  simp

theorem text_ofString (s : String) : text d (ofString s) = s := by
  apply String.ext
  simp

@[simp] theorem chars_cons_place (number : Nat) :
    chars d (.place number :: sql) = (d.parameterName number).toList ++ chars d sql := rfl

theorem isMark_of_step {c : Char} (h : q.step (.char c) = some q') : isMark c = false := by
  by_contra marked
  simp only [Bool.not_eq_false, isMark, Bool.or_eq_true, decide_eq_true_eq] at marked
  rcases marked with (rfl | rfl) | rfl <;> cases h

/-- What follows an operand that is complete begins with no letter or digit. -/
theorem not_word_of_done {n : Nat} (h : Lexes (n, .done) sql q') :
    ∀ c ∈ (chars d sql).head?, Text.isWord c = false := by
  cases sql with
  | nil => simp [chars]
  | cons s sql =>
    obtain ⟨r, first, _⟩ := lexes_cons.1 h
    cases s with
    | place number => cases first
    | char c =>
      by_contra word
      simp only [chars, List.flatMap_cons, symbolChars, List.singleton_append, List.head?_cons,
        Option.mem_some_iff, forall_eq', Bool.not_eq_false] at word
      simp [Lexer.step, word] at first

end Sql

def Dialect.digits (number : Nat) : List Char := Nat.toDigits 10 number

namespace Dialect

variable {d : Dialect} {j k : Nat}

theorem parameterName_toList : (d.parameterName k).toList = d.marker.toList ++ digits k := by
  simp [parameterName, digits]

theorem digits_word : ∀ c ∈ digits k, Text.isWord c = true := by
  intro c hc
  have digit : Text.isDigit c = true := Nat.isDigit_of_mem_toDigits (by decide) (by decide) hc
  simp [Text.isWord, digit]

theorem digits_injective (h : digits j = digits k) : j = k := by
  refine Nat.repr_injective ?_
  rw [Nat.repr_eq_ofList_toDigits, Nat.repr_eq_ofList_toDigits]
  exact congrArg String.ofList h

theorem parameterName_cons : ∃ c rest, (d.parameterName k).toList = c :: rest ∧
    Sql.isMark c = true ∧ ∀ c ∈ rest, Text.isWord c = true := by
  obtain ⟨c, marker, eq, mark, letters⟩ := d.marker_cons
  refine ⟨c, marker ++ digits k, ?_, mark, fun e he => ?_⟩
  · rw [parameterName_toList, eq, List.cons_append]
  · exact (List.mem_append.1 he).elim (letters e) (digits_word e)

theorem parameterName_isMarked : Sql.IsMarked (d.parameterName k).toList := by
  rw [parameterName_toList]
  exact Sql.isMarked_marker d digits_word

theorem parameterName_toList_inj :
    (d.parameterName j).toList = (d.parameterName k).toList ↔ j = k := by
  rw [parameterName_toList, parameterName_toList, List.append_cancel_left_eq]
  exact ⟨digits_injective, congrArg digits⟩

end Dialect

namespace Sql

variable {d : Dialect} {α : Type}

theorem standsAt_parameterName {j k : Nat} {rest : List Char}
    (bounded : ∀ c ∈ rest.head?, Text.isWord c = false) :
    standsAt (d.parameterName j).toList ((d.parameterName k).toList ++ rest) ↔ j = k := by
  have name (n : Nat) : IsMarked (d.parameterName n).toList := Dialect.parameterName_isMarked
  have whole := (name k).marked_append.2 (takeWhile_word_eq_nil.2 bounded)
  rw [(name j).standsAt_iff, whole, Dialect.parameterName_toList_inj, eq_comm]

/-- No name stands at a character that is not its mark. -/
theorem not_standsAt_of_unmarked {k : Nat} {c : Char} {rest : List Char} (h : isMark c = false) :
    standsAt (d.parameterName k).toList (c :: rest) = false := by
  obtain ⟨mark, word, eq, marked, _⟩ := d.parameterName_cons (k := k)
  have other : mark ≠ c := by
    rintro rfl
    rw [h] at marked
    cases marked
  simp [standsAt, eq, other]

def replaced (f : Nat → α) : Symbol → Char ⊕ α
  | .char c => .inl c
  | .place number => .inr (f number)

theorem scan_chars {numbers : List Nat} (f : Nat → α) {sql : Sql} :
    ∀ {q q' : Lexer}, Lexes q sql q' → (∀ k ∈ sql.places, k ∈ numbers) →
      scan (numbers.map fun k => ((d.parameterName k).toList, f k)) 0 (chars d sql) =
        sql.map (replaced f) := by
  induction sql with
  | nil => exact fun _ _ => rfl
  | cons s sql ih =>
    intro q q' lexed known
    obtain ⟨r, first, rest⟩ := lexes_cons.1 lexed
    cases s with
    | char c =>
      have unmarked := isMark_of_step first
      have none : nameAt? (numbers.map fun k => ((d.parameterName k).toList, f k))
          (c :: chars d sql) = none := by
        refine nameAt?_eq_none.2 fun rename hr => ?_
        obtain ⟨k, _, rfl⟩ := List.mem_map.1 hr
        exact not_standsAt_of_unmarked unmarked
      have known : ∀ k ∈ places sql, k ∈ numbers := known
      have text : chars d (.char c :: sql) = c :: chars d sql := rfl
      rw [text, scan, none, List.map_cons, ih rest known]
      rfl
    | place k =>
      have complete : r = (q.1, .done) := by
        simp only [Lexer.step] at first
        split at first
        · exact (Option.some.inj first).symm
        · cases first
      subst complete
      have bounded := not_word_of_done (d := d) rest
      have found : nameAt? (numbers.map fun k => ((d.parameterName k).toList, f k))
          ((d.parameterName k).toList ++ chars d sql) =
            some ((d.parameterName k).toList, f k) := by
        refine nameAt?_eq_some (List.mem_map.2 ⟨k, known k List.mem_cons_self, rfl⟩)
          ((standsAt_parameterName bounded).2 rfl) ?_
        rintro rename hr stands
        obtain ⟨j, _, rfl⟩ := List.mem_map.1 hr
        rw [(standsAt_parameterName bounded).1 stands]
      have known : ∀ k ∈ places sql, k ∈ numbers := fun j hj =>
        known j (List.mem_cons_of_mem k hj)
      have text : chars d (.place k :: sql) = (d.parameterName k).toList ++ chars d sql := rfl
      obtain ⟨c, word, name, _⟩ := d.parameterName_cons (k := k)
      rw [text]
      rw [name] at found ⊢
      rw [List.cons_append, scan, ← List.cons_append, found]
      simp only [List.length_cons, Nat.add_sub_cancel, scan_skip, List.map_cons]
      rw [ih rest known]
      rfl

/-- The finished text with its names replaced is the text before it was finished, labelled anew. -/
theorem ofFinished_text {numbers : List Nat} (f : Nat → Nat) {sql : Sql} {q q' : Lexer}
    (lexed : Lexes q sql q') (known : ∀ k ∈ sql.places, k ∈ numbers) :
    ofFinished (numbers.map fun k => (d.parameterName k, f k)) (text d sql) =
      sql.map (Symbol.relabel f) := by
  have scanned := scan_chars (d := d) f lexed known
  unfold ofFinished
  rw [List.map_map, text_toList]
  simp only [Function.comp_def, scanned, List.map_map]
  refine List.map_congr_left fun s _ => ?_
  cases s <;> rfl

theorem ofString_eq_nil {text : String} : ofString text = [] ↔ text = "" := by simp [ofString]

theorem text_eq_empty (dialect : Dialect) (sql : Sql) : sql.text dialect = "" ↔ sql = [] := by
  cases sql with
  | nil => exact ⟨fun _ => rfl, fun _ => rfl⟩
  | cons s sql =>
    refine iff_of_false ?_ (List.cons_ne_nil s sql)
    intro empty
    have letters := congrArg String.toList empty
    rw [text_toList] at letters
    cases s with
    | char c => cases letters
    | place k =>
      obtain ⟨c, word, name, _⟩ := dialect.parameterName_cons (k := k)
      have split : chars dialect (.place k :: sql) =
          (dialect.parameterName k).toList ++ chars dialect sql := rfl
      rw [split, name] at letters
      cases letters

theorem ofFinished_eq_nil (renames : List (String × Nat)) (text : String) :
    ofFinished renames text = [] ↔ text = "" := by
  rw [ofFinished, List.map_eq_nil_iff, ← String.toList_eq_nil_iff]
  cases text.toList with
  | nil => exact ⟨fun _ => rfl, fun _ => rfl⟩
  | cons c rest =>
    refine iff_of_false ?_ (List.cons_ne_nil c rest)
    rw [scan]
    split <;> exact List.cons_ne_nil _ _

end Sql
end DmlCompiler
