import DmlCompiler.Command
import DmlCompiler.Proofs.Renaming

/-! # Balanced text

Every parenthesis in a balanced text is closed inside of it. Naming the places of a text and
replacing names by places keep the balance, where the names have it, too. -/
namespace DmlCompiler

namespace Sql

/-- The open parentheses behind the symbol. Where none is open, none can be closed. -/
def nest (depth : Nat) : Symbol → Option Nat
  | .place _ => some depth
  | .char c =>
    if c = '(' then some (depth + 1)
    else if c = ')' then
      match depth with
      | 0 => none
      | outer + 1 => some outer
    else some depth

def Balanced (sql : Sql) : Prop := ∀ depth, sql.foldlM nest depth = some depth

def LeavesOpen (count : Nat) (sql : Sql) : Prop :=
  ∀ depth, sql.foldlM nest depth = some (depth + count)

variable {a b sql : Sql}

theorem balanced_nil : Balanced [] := fun _ => rfl

theorem balanced_place (number : Nat) : Balanced [.place number] := fun _ => rfl

theorem LeavesOpen.append {count : Nat} (ha : LeavesOpen count a) (hb : Balanced b) :
    LeavesOpen count (a ++ b) := by
  intro depth
  rw [List.foldlM_append, ha depth]
  exact hb (depth + count)

theorem Balanced.append (ha : Balanced a) (hb : Balanced b) : Balanced (a ++ b) :=
  @LeavesOpen.append a b 0 ha hb

theorem balanced_isClosed : IsClosed Balanced := ⟨balanced_nil, Balanced.append⟩

theorem balanced_flatten {fragments : List Sql} (h : ∀ sql ∈ fragments, Balanced sql) :
    Balanced fragments.flatten :=
  balanced_isClosed.flatten h

theorem balanced_join {separator : String} (hs : Balanced (ofString separator))
    {fragments : List Sql} (h : ∀ sql ∈ fragments, Balanced sql) :
    Balanced (join separator fragments) :=
  balanced_isClosed.join hs h

theorem foldlM_closing (depth : Nat) : ∀ count : Nat,
    (List.replicate count (Symbol.char ')')).foldlM nest (depth + count) = some depth
  | 0 => rfl
  | count + 1 => by
    rw [List.replicate_succ, List.foldlM_cons]
    exact foldlM_closing depth count

theorem LeavesOpen.close {count : Nat} (h : LeavesOpen count a) :
    Balanced (a ++ List.replicate count (.char ')')) := by
  intro depth
  rw [List.foldlM_append, h depth]
  exact foldlM_closing depth count

theorem Balanced.parenthesize (h : Balanced sql) : Balanced sql.parenthesize := by
  have opening : LeavesOpen 1 (ofString "(") := fun _ => rfl
  exact (opening.append h).close

theorem balanced_of_free {s : String} (h : ∀ c ∈ s.toList, c ≠ '(' ∧ c ≠ ')') :
    Balanced (ofString s) := by
  unfold ofString
  generalize s.toList = letters at h
  induction letters with
  | nil => exact balanced_nil
  | cons c letters ih =>
    obtain ⟨notOpen, notClosed⟩ := h c List.mem_cons_self
    intro depth
    have step : nest depth (.char c) = some depth := by simp [nest, notOpen, notClosed]
    rw [List.map_cons, List.foldlM_cons, step]
    exact ih (fun c hc => h c (List.mem_cons_of_mem _ hc)) depth

theorem free_of_word {c : Char} (h : Text.isWord c = true) : c ≠ ' ' ∧ c ≠ '(' ∧ c ≠ ')' := by
  refine ⟨?_, ?_, ?_⟩ <;>
  · rintro rfl
    cases h

/-- Where the lexer goes on, no parenthesis is closed that was not opened. -/
theorem nest_of_step {q q' : Lexer} {s : Symbol} (h : q.step s = some q') :
    nest q.1 s = some q'.1 := by
  cases s with
  | place number =>
    simp only [Lexer.step, Option.ite_none_right_eq_some, Option.some.injEq] at h
    rw [← h.2]
    rfl
  | char c =>
    by_cases word : Text.isWord c = true
    · obtain ⟨_, notOpen, notClosed⟩ := free_of_word word
      simp only [Lexer.step, word, if_true, Option.ite_none_right_eq_some, Option.some.injEq] at h
      rw [← h.2]
      simp [nest, notOpen, notClosed]
    · by_cases opens : c = '('
      · subst opens
        simp only [Lexer.step, word, Char.reduceEq, if_true, if_false, Bool.false_eq_true,
          Option.ite_none_right_eq_some, Option.some.injEq] at h
        rw [← h.2]
        rfl
      · by_cases closes : c = ')'
        · subst closes
          simp only [Lexer.step, word, Char.reduceEq, if_true, if_false, Bool.false_eq_true] at h
          split at h
          · cases h
          · cases h
          · cases h
            rfl
        · simp only [Lexer.step, word, opens, closes, if_false, Bool.false_eq_true] at h
          have same : q'.1 = q.1 := by grind
          simp [nest, opens, closes, same]

theorem Lexes.nest {q q' : Lexer} (h : Lexes q sql q') : sql.foldlM Sql.nest q.1 = some q'.1 := by
  induction sql generalizing q with
  | nil => 
    cases lexes_nil.1 h
    rfl
  | cons s sql ih =>
    obtain ⟨r, first, rest⟩ := lexes_cons.1 h
    rw [List.foldlM_cons, nest_of_step first]
    exact ih rest

theorem Sound.balanced (h : Sound sql) : Balanced sql := by
  intro depth
  obtain ⟨_, _, lexed⟩ := h depth
  exact lexed.nest

theorem Continues.balanced (h : Continues sql) : Balanced sql := by
  intro depth
  obtain ⟨_, _, lexed⟩ := h depth .done .done
  exact lexed.nest

theorem Separates.balanced (h : Separates sql) : Balanced sql :=
  fun depth => (h depth .done .done).nest

theorem Opens.leavesOpen {count : Nat} (h : Opens count sql) : LeavesOpen count sql :=
  fun depth => (h depth).nest

theorem IsName.balanced {s : String} (h : IsName s) : Balanced (ofString s) := h.sound.balanced

theorem balanced_parameterName (d : Dialect) (k : Nat) :
    Balanced (ofString (d.parameterName k)) := by
  have marker : Balanced (ofString d.marker) := by
    cases d <;> exact fun _ => rfl
  rw [Dialect.parameterName, ofString_append]
  exact marker.append (isName_toString k).balanced

theorem Balanced.text (h : Balanced sql) (d : Dialect) : Balanced (ofString (sql.text d)) := by
  intro depth
  rw [← h depth, ofString, text_toList]
  clear h
  induction sql generalizing depth with
  | nil => rfl
  | cons s sql ih =>
    have same : ((symbolChars d s).map Symbol.char).foldlM nest depth = nest depth s := by
      cases s with
      | char c => simp [symbolChars]
      | place k => exact balanced_parameterName d k depth
    rw [chars, List.flatMap_cons, List.map_append, List.foldlM_append, same, List.foldlM_cons]
    cases nest depth s with
    | none => rfl
    | some deeper => exact ih deeper

theorem eq_append_of_standsAt {name : List Char} {c : Char} {rest : List Char}
    (h : standsAt name (c :: rest) = true) :
    ∃ name', name = c :: name' ∧ rest = name' ++ rest.drop (name.length - 1) := by
  obtain ⟨some, behind, eq, _⟩ := standsAt_iff.1 h
  obtain ⟨c', name', rfl⟩ := List.exists_cons_of_ne_nil some
  rw [List.drop_zero, List.cons_append, List.cons.injEq] at eq
  obtain ⟨rfl, rfl⟩ := eq
  exact ⟨name', rfl, by simp⟩

def ofScanned : Char ⊕ Nat → Symbol
  | .inl c => .char c
  | .inr number => .place number

theorem nest_scan {renames : List (List Char × Nat)}
    (balanced : ∀ rename ∈ renames, Balanced (rename.1.map .char)) :
    ∀ (text : List Char) (skip depth : Nat),
      ((scan renames skip text).map ofScanned).foldlM nest depth =
        ((text.drop skip).map Symbol.char).foldlM nest depth
  | [], skip, depth => by simp [scan]
  | c :: rest, skip + 1, depth => by
    rw [scan, List.drop_succ_cons]
    exact nest_scan balanced rest skip depth
  | c :: rest, 0, depth => by
    rw [List.drop_zero, scan]
    split
    · next name number found =>
      obtain ⟨mem, stands⟩ := nameAt?_mem found
      obtain ⟨name', rfl, split⟩ : ∃ name', name = c :: name' ∧ rest = name' ++ _ :=
        eq_append_of_standsAt stands
      have closed := balanced _ mem depth
      have later := nest_scan balanced rest ((c :: name').length - 1) depth
      have text : c :: rest = (c :: name') ++ rest.drop ((c :: name').length - 1) :=
        congrArg (c :: ·) split
      rw [text, List.map_append, List.foldlM_append, closed, List.map_cons, List.foldlM_cons]
      exact later
    · rw [List.map_cons, List.map_cons, List.foldlM_cons, List.foldlM_cons]
      have later := nest_scan balanced rest 0
      simp only [List.drop_zero] at later
      simp only [ofScanned, later]

end Sql

structure Command.IsBalanced (c : Command) : Prop where
  sql : Sql.Balanced (Sql.ofString c.sql)
  names : ∀ p ∈ c.parameters, Sql.Balanced (Sql.ofString p.name)

theorem Sql.ofFinished_balanced {renames : List (String × Nat)} {text : String}
    (h : Balanced (ofString text)) (names : ∀ rename ∈ renames, Balanced (ofString rename.1)) :
    Balanced (ofFinished renames text) := by
  intro depth
  refine (nest_scan (fun rename mem => ?_) text.toList 0 depth).trans (h depth)
  obtain ⟨entry, known, rfl⟩ := List.mem_map.1 mem
  exact names entry known

end DmlCompiler
