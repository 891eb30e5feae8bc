import DmlCompiler.Sql.Renaming
import Mathlib.Data.List.Nodup

/-! # Occurrences of names

The names of parameters are a mark with a word behind it. So at every place of a text at most one
of them can occur, which is the character there together with the whole word that follows it, and a
name is found by looking this marked word up. -/
namespace DmlCompiler

namespace Sql

def isMark (c : Char) : Bool := c = '@' || c = '?' || c = '$'

theorem isMark_of_word {c : Char} (h : Text.isWord c = true) : isMark c = false := by
  by_contra marked
  simp only [Bool.not_eq_false, isMark, Bool.or_eq_true, decide_eq_true_eq] at marked
  rcases marked with (rfl | rfl) | rfl <;> revert h <;> decide

theorem not_word_of_isMark {c : Char} (h : isMark c = true) : Text.isWord c = false := by
  cases word : Text.isWord c with
  | false => rfl
  | true => rw [isMark_of_word word] at h; cases h

end Sql

theorem Dialect.marker_cons {d : Dialect} : ∃ c rest, d.marker.toList = c :: rest ∧
    Sql.isMark c = true ∧ ∀ c ∈ rest, Text.isWord c = true := by
  cases d <;> exact ⟨_, _, rfl, by decide, List.all_eq_true.1 (by decide)⟩

namespace Sql

/-- The marker of a dialect and behind it one decimal digit or more. -/
def IsPlaceholder (name : List Char) : Prop :=
  ∃ dialect : Dialect, ∃ digits, name = dialect.marker.toList ++ digits ∧ digits ≠ [] ∧
    ∀ c ∈ digits, '0' ≤ c ∧ c ≤ '9'

/-- At this place of the text the name stands, and behind it no letter, digit or underscore. -/
def OccursAt (name text : List Char) (place : Nat) : Prop :=
  ∃ behind, text.drop place = name ++ behind ∧ ∀ c ∈ behind.head?, Text.isWord c = false

def marked : List Char → List Char
  | [] => []
  | c :: rest => c :: rest.takeWhile Text.isWord

structure IsMarked (name : List Char) : Prop where
  ne_nil : name ≠ []
  mark : ∀ c ∈ name.head?, Text.isWord c = false
  word : ∀ c ∈ name.tail, Text.isWord c = true

variable {α : Type} {name other rest text : List Char} {renames : List (List Char × α)}

theorem isMarked_cons {c : Char} : IsMarked (c :: rest) ↔
    Text.isWord c = false ∧ ∀ d ∈ rest, Text.isWord d = true := by
  constructor
  · rintro ⟨-, mark, word⟩
    exact ⟨mark c rfl, word⟩
  · rintro ⟨mark, word⟩
    exact ⟨List.cons_ne_nil c rest, by simpa using mark, word⟩

theorem isMarked_marker (d : Dialect) {word : List Char} (all : ∀ c ∈ word, Text.isWord c = true) :
    IsMarked (d.marker.toList ++ word) := by
  obtain ⟨c, marker, eq, mark, letters⟩ := d.marker_cons
  rw [eq, List.cons_append, isMarked_cons]
  refine ⟨not_word_of_isMark mark, fun d hd => ?_⟩
  rcases List.mem_append.1 hd with hd | hd
  · exact letters d hd
  · exact all d hd

theorem IsPlaceholder.isMarked (h : IsPlaceholder name) : IsMarked name := by
  obtain ⟨dialect, digits, rfl, -, all⟩ := h
  refine isMarked_marker dialect fun c hc => ?_
  simp [Text.isWord, Text.isDigit, all c hc]

theorem IsMarked.takeWhile (h : IsMarked name) (rest : List Char) :
    (name ++ rest).takeWhile Text.isWord = [] := by
  cases name with
  | nil => exact absurd rfl h.ne_nil
  | cons c word => simp [h.mark c rfl]

/-- A name is all of the marked word if no word goes on behind it. -/
theorem IsMarked.marked_append (h : IsMarked name) :
    marked (name ++ rest) = name ↔ rest.takeWhile Text.isWord = [] := by
  cases name with
  | nil => exact absurd rfl h.ne_nil
  | cons c word =>
    have all : ∀ d ∈ word, Text.isWord d = true := h.word
    simp [marked, List.takeWhile_append_of_pos all]

theorem takeWhile_word_eq_nil :
    text.takeWhile Text.isWord = [] ↔ ∀ c ∈ text.head?, Text.isWord c = false := by
  cases text with
  | nil => simp
  | cons c rest => by_cases word : Text.isWord c = true <;> simp [word]

/-- The marked word is all that can occur at the front. -/
theorem occursAt_zero (h : IsMarked name) : OccursAt name text 0 ↔ marked text = name := by
  unfold OccursAt
  rw [List.drop_zero]
  constructor
  · rintro ⟨behind, rfl, ends⟩
    exact h.marked_append.2 (takeWhile_word_eq_nil.2 ends)
  · rintro rfl
    cases text with
    | nil => exact absurd rfl h.ne_nil
    | cons c rest =>
      refine ⟨rest.dropWhile Text.isWord, ?_, ?_⟩
      · rw [marked, List.cons_append, List.takeWhile_append_dropWhile]
      · intro d hd
        have stopped := List.head?_dropWhile_not Text.isWord rest
        rw [hd] at stopped
        simpa using stopped

theorem not_occursAt_nil (h : IsMarked name) (place : Nat) : ¬ OccursAt name [] place := by
  rintro ⟨behind, eq, -⟩
  rw [List.drop_nil, eq_comm, List.append_eq_nil_iff] at eq
  exact h.ne_nil eq.1

theorem occursAt_append (front : List Char) {place : Nat} :
    OccursAt name (front ++ rest) (front.length + place) ↔ OccursAt name rest place := by
  unfold OccursAt
  rw [List.drop_append, List.drop_eq_nil_of_le (by omega), Nat.add_sub_cancel_left, List.nil_append]

/-- A name does not occur inside of another one. -/
theorem not_occursAt_inside (hn : IsMarked name) (ho : IsMarked other) {place : Nat}
    (after : 0 < place) (inside : place < other.length) :
    ¬ OccursAt name (other ++ rest) place := by
  rintro ⟨behind, eq, -⟩
  obtain ⟨c, word, rfl⟩ := List.exists_cons_of_ne_nil hn.ne_nil
  obtain ⟨place, rfl⟩ := Nat.exists_eq_succ_of_ne_zero (Nat.ne_of_gt after)
  have first := congrArg List.head? eq
  rw [List.head?_drop, List.getElem?_append_left inside, ← List.getElem?_tail, List.cons_append,
    List.head?_cons] at first
  have letter := ho.word c (List.mem_of_getElem? first)
  rw [hn.mark c rfl] at letter
  cases letter

theorem standsAt_iff : standsAt name text = true ↔ name ≠ [] ∧ OccursAt name text 0 := by
  simp only [standsAt, Bool.and_eq_true, Bool.not_eq_true', List.isEmpty_eq_false_iff,
    List.isPrefixOf_iff_prefix, OccursAt, List.drop_zero, and_assoc]
  refine and_congr_right fun _ => ?_
  constructor
  · rintro ⟨⟨behind, rfl⟩, ends⟩
    refine ⟨behind, rfl, ?_⟩
    rw [List.drop_left] at ends
    cases behind with
    | nil => nofun
    | cons c behind => simpa using ends
  · rintro ⟨behind, rfl, ends⟩
    refine ⟨⟨behind, rfl⟩, ?_⟩
    rw [List.drop_left]
    cases behind with
    | nil => rfl
    | cons c behind => simp [ends c rfl]

theorem IsMarked.standsAt_iff (h : IsMarked name) :
    standsAt name text = true ↔ marked text = name := by
  rw [Sql.standsAt_iff, occursAt_zero h]
  exact and_iff_right h.ne_nil

def better (text : List Char) (best : Option (List Char × α)) (rename : List Char × α) :
    Option (List Char × α) :=
  if standsAt rename.1 text && best.all (fun held => held.1.length ≤ rename.1.length) then
    some rename
  else best

theorem nameAt?_eq_foldl : nameAt? renames text = renames.foldl (better text) none := rfl

theorem nameAt?_mem {rename : List Char × α} (h : nameAt? renames text = some rename) :
    rename ∈ renames ∧ standsAt rename.1 text = true := by
  have found : ∀ (rs : List (List Char × α)) (best : Option (List Char × α)),
      rs.foldl (better text) best = some rename →
        best = some rename ∨ rename ∈ rs ∧ standsAt rename.1 text = true := by
    intro rs
    induction rs with
    | nil => exact fun _ h => .inl h
    | cons r rs ih =>
      intro best h
      rcases ih _ h with taken | ⟨mem, stands⟩
      · unfold better at taken
        split at taken
        · next longer =>
          rw [Bool.and_eq_true] at longer
          cases taken
          exact .inr ⟨List.mem_cons_self, longer.1⟩
        · exact .inl taken
      · exact .inr ⟨List.mem_cons_of_mem r mem, stands⟩
  rcases found renames none h with none | found
  · cases none
  · exact found

theorem nameAt?_eq_none :
    nameAt? renames text = none ↔ ∀ rename ∈ renames, standsAt rename.1 text = false := by
  have general : ∀ (rs : List (List Char × α)) (best : Option (List Char × α)),
      rs.foldl (better text) best = none ↔
        best = none ∧ ∀ rename ∈ rs, standsAt rename.1 text = false := by
    intro rs
    induction rs with
    | nil => simp
    | cons r rs ih =>
      intro best
      have step : better text best r = none ↔ best = none ∧ standsAt r.1 text = false := by
        unfold better
        cases best with
        | none => cases standsAt r.1 text <;> simp
        | some held => split <;> simp
      rw [List.foldl_cons, ih, step, List.forall_mem_cons, and_assoc]
  rw [nameAt?_eq_foldl, general]
  exact and_iff_right rfl

theorem nameAt?_eq_some {rename : List Char × α} (mem : rename ∈ renames)
    (stands : standsAt rename.1 text = true)
    (only : ∀ r ∈ renames, standsAt r.1 text = true → r = rename) :
    nameAt? renames text = some rename := by
  cases found : nameAt? renames text with
  | none =>
    rw [nameAt?_eq_none.1 found rename mem] at stands
    cases stands
  | some r =>
    obtain ⟨listed, first⟩ := nameAt?_mem found
    rw [only r listed first]

theorem scan_skip (front rest : List Char) :
    scan renames front.length (front ++ rest) = scan renames 0 rest := by
  induction front with
  | nil => rfl
  | cons c front ih => simpa [scan] using ih

/-- All old names are marked, and none of them stands twice. -/
structure Distinguishes (renames : List (List Char × α)) : Prop where
  isMarked : ∀ rename ∈ renames, IsMarked rename.1
  distinct : (renames.map Prod.fst).Nodup

namespace Distinguishes

variable (h : Distinguishes renames)
include h

theorem eq_of_mem {r r' : List Char × α} (hr : r ∈ renames) (hr' : r' ∈ renames)
    (same : r.1 = r'.1) : r = r' :=
  List.inj_on_of_nodup_map h.distinct hr hr' same

theorem nameAt?_eq_some {rename : List Char × α} :
    nameAt? renames text = some rename ↔ rename ∈ renames ∧ marked text = rename.1 := by
  constructor
  · intro found
    obtain ⟨listed, stands⟩ := nameAt?_mem found
    exact ⟨listed, (h.isMarked rename listed).standsAt_iff.1 stands⟩
  · rintro ⟨listed, front⟩
    refine Sql.nameAt?_eq_some listed ((h.isMarked rename listed).standsAt_iff.2 front) ?_
    intro r hr stands
    have same := (h.isMarked r hr).standsAt_iff.1 stands
    exact h.eq_of_mem hr listed (same.symm.trans front)

theorem nameAt?_eq_none : nameAt? renames text = none ↔ marked text ∉ renames.map Prod.fst := by
  rw [Sql.nameAt?_eq_none]
  constructor
  · intro none mem
    obtain ⟨rename, hr, same⟩ := List.mem_map.1 mem
    have stands := (h.isMarked rename hr).standsAt_iff.2 same.symm
    rw [none rename hr] at stands
    cases stands
  · intro unlisted rename hr
    by_contra stands
    rw [Bool.not_eq_false, (h.isMarked rename hr).standsAt_iff] at stands
    exact unlisted (stands ▸ List.mem_map_of_mem hr)

/-- Where a name stands at the front, nothing else occurs but what occurs behind it. -/
theorem occursAt_cases {old : List Char} {new : α} (hr : (old, new) ∈ renames)
    (front : marked (old ++ rest) = old) {other : List Char × α} (ho : other ∈ renames)
    {place : Nat} (occurs : OccursAt other.1 (old ++ rest) place) :
    other = (old, new) ∧ place = 0 ∨
      ∃ later, place = old.length + later ∧ OccursAt other.1 rest later := by
  by_cases early : place < old.length
  · by_cases zero : place = 0
    · subst zero
      have same := (occursAt_zero (h.isMarked other ho)).1 occurs
      exact .inl ⟨h.eq_of_mem ho hr (same.symm.trans front), rfl⟩
    · have after := Nat.pos_of_ne_zero zero
      exact absurd occurs (not_occursAt_inside (h.isMarked other ho) (h.isMarked _ hr) after early)
  · obtain ⟨later, rfl⟩ := Nat.exists_eq_add_of_le (Nat.le_of_not_lt early)
    exact .inr ⟨later, rfl, (occursAt_append old).1 occurs⟩

end Distinguishes
end Sql
end DmlCompiler
