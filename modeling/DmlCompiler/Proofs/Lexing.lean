import DmlCompiler.Identifier
import DmlCompiler.Proofs.Places

/-! # Lexing SQL text

What may stand beside what in the text that the renderer writes: names and numbers, places,
parentheses that match, commas and operators between blanks, and nothing else. A finite control
reads the text from left to right and counts the open parentheses; a text that it accepts keeps
its places apart from any letter or digit. -/
namespace DmlCompiler

namespace Sql

inductive Edge where
  /-- Nothing, a blank or an opening parenthesis, so that an operand may begin. -/
  | gap
  /-- A name or number, which may go on. -/
  | word
  /-- An operand that is complete. -/
  | done
  /-- A comma or the sign of an operator, which a blank has to follow. -/
  | sign
deriving DecidableEq, Repr

/-- An operand may end here. -/
inductive Edge.Closed : Edge → Prop where
  | word : Closed .word
  | done : Closed .done

/-- The open parentheses and what stands before the next symbol. -/
abbrev Lexer := Nat × Edge

def Lexer.step (q : Lexer) : Symbol → Option Lexer
  | .place _ => if q.2 = .gap then some (q.1, .done) else none
  | .char c =>
    if Text.isWord c then
      if q.2 = .gap ∨ q.2 = .word then some (q.1, .word) else none
    else if c = ' ' then some (q.1, .gap)
    else if c = '(' then
      if q.2 = .gap ∨ q.2 = .word then some (q.1 + 1, .gap) else none
    else if c = ')' then
      match q with
      | (_, .sign) | (0, _) => none
      | (n + 1, _) => some (n, .done)
    else if c = ',' then
      if q.2 = .word ∨ q.2 = .done then some (q.1, .sign) else none
    else if c = '.' then if q.2 = .word then some (q.1, .gap) else none
    else if c = '*' then if q.2 = .gap then some (q.1, .done) else none
    else if c = '+' ∨ c = '-' ∨ c = '/' then if q.2 = .gap then some (q.1, .sign) else none
    else if c = '=' ∨ c = '<' ∨ c = '>' then
      if q.2 = .gap ∨ q.2 = .sign then some (q.1, .sign) else none
    else none

def Lexes (q : Lexer) (sql : Sql) (q' : Lexer) : Prop := sql.foldlM Lexer.step q = some q'

variable {q q' r : Lexer} {a b sql : Sql} {n : Nat}

theorem lexes_nil : Lexes q [] q' ↔ q' = q := by
  simp [Lexes, eq_comm]

theorem lexes_cons {s : Symbol} :
    Lexes q (s :: sql) q' ↔ ∃ r, q.step s = some r ∧ Lexes r sql q' := by
  simp only [Lexes, List.foldlM_cons, Option.bind_eq_bind, Option.bind_eq_some_iff]

theorem lexes_append : Lexes q (a ++ b) q' ↔ ∃ r, Lexes q a r ∧ Lexes r b q' := by
  simp only [Lexes, List.foldlM_append, Option.bind_eq_bind, Option.bind_eq_some_iff]

theorem Lexes.append (ha : Lexes q a r) (hb : Lexes r b q') : Lexes q (a ++ b) q' :=
  lexes_append.2 ⟨r, ha, hb⟩

/-- The lexer does not look at the numbers of places. -/
theorem Lexes.relabel (h : Lexes q sql q') (f : Nat → Nat) :
    Lexes q (sql.map (Symbol.relabel f)) q' := by
  induction sql generalizing q with
  | nil => exact h
  | cons s sql ih =>
    obtain ⟨r, first, rest⟩ := lexes_cons.1 h
    refine lexes_cons.2 ⟨r, ?_, ih rest⟩
    cases s <;> exact first

/-- A text that is an operand, whatever stands around it. -/
def Sound (sql : Sql) : Prop := ∀ n, ∃ e, e.Closed ∧ Lexes (n, .gap) sql (n, e)

def SoundIfSome (sql : Sql) : Prop := sql ≠ [] → Sound sql

/-- A text between two operands. -/
def Separates (sql : Sql) : Prop := ∀ n e, e.Closed → Lexes (n, e) sql (n, .gap)

/-- A text behind an operand that does not need another one behind it. -/
def Continues (sql : Sql) : Prop := ∀ n e, e.Closed → ∃ e', e'.Closed ∧ Lexes (n, e) sql (n, e')

def Opens (depth : Nat) (sql : Sql) : Prop := ∀ n, Lexes (n, .gap) sql (n + depth, .gap)

/-- An operand before the text ends in a word or is complete. -/
theorem Separates.of (word : ∀ n, Lexes (n, .word) sql (n, .gap))
    (done : ∀ n, Lexes (n, .done) sql (n, .gap)) : Separates sql := by
  intro n e closed
  cases closed
  · exact word n
  · exact done n

theorem Continues.of {e : Edge} (closed : e.Closed) (word : ∀ n, Lexes (n, .word) sql (n, e))
    (done : ∀ n, Lexes (n, .done) sql (n, e)) : Continues sql := by
  intro n e' closed'
  refine ⟨e, closed, ?_⟩
  cases closed'
  · exact word n
  · exact done n

theorem sound_place (number : Nat) : Sound [.place number] := fun _ => ⟨.done, .done, rfl⟩

theorem continues_nil : Continues [] := fun _ e closed => ⟨e, closed, rfl⟩

theorem Continues.append (ha : Continues a) (hb : Continues b) : Continues (a ++ b) := by
  intro n e closed
  obtain ⟨e₁, closed₁, first⟩ := ha n e closed
  obtain ⟨e₂, closed₂, second⟩ := hb n e₁ closed₁
  exact ⟨e₂, closed₂, first.append second⟩

theorem continues_flatten {fragments : List Sql} (h : ∀ sql ∈ fragments, Continues sql) :
    Continues fragments.flatten :=
  IsClosed.flatten ⟨continues_nil, Continues.append⟩ h

theorem Separates.sound (ha : Separates a) (hb : Sound b) : Continues (a ++ b) := by
  intro n e closed
  obtain ⟨e', closed', second⟩ := hb n
  exact ⟨e', closed', (ha n e closed).append second⟩

theorem Sound.continue (ha : Sound a) (hb : Continues b) : Sound (a ++ b) := by
  intro n
  obtain ⟨e, closed, first⟩ := ha n
  obtain ⟨e', closed', second⟩ := hb n e closed
  exact ⟨e', closed', first.append second⟩

theorem Sound.between {separator : Sql} (ha : Sound a) (hs : Separates separator) (hb : Sound b) :
    Sound (a ++ separator ++ b) := by
  rw [List.append_assoc]
  exact ha.continue (hs.sound hb)

theorem Opens.sound (ha : Opens 0 a) (hb : Sound b) : Sound (a ++ b) := by
  intro n
  obtain ⟨e, closed, second⟩ := hb n
  exact ⟨e, closed, (ha n).append second⟩

theorem Sound.opens (ha : Sound a) (hb : Separates b) : Opens 0 (a ++ b) := by
  intro n
  obtain ⟨e, closed, first⟩ := ha n
  exact first.append (hb n e closed)

theorem Opens.append {depth : Nat} (ha : Opens 0 a) (hb : Opens depth b) : Opens depth (a ++ b) :=
  fun n => (ha n).append (hb n)

theorem sound_join {separator : String} (hs : Separates (ofString separator))
    {fragments : List Sql} (hf : ∀ sql ∈ fragments, Sound sql) (some : fragments ≠ []) :
    Sound (join separator fragments) := by
  induction fragments with
  | nil => exact absurd rfl some
  | cons sql fragments ih =>
    have first := hf sql List.mem_cons_self
    cases fragments with
    | nil => simpa [join] using first
    | cons sql' fragments =>
      have rest := ih (fun a ha => hf a (List.mem_cons_of_mem _ ha)) (List.cons_ne_nil _ _)
      rw [join, List.intercalate_cons_cons]
      exact first.between hs rest

theorem lexes_closing {e : Edge} (he : e.Closed) : ∀ depth : Nat,
    Lexes (n + (depth + 1), e) (List.replicate (depth + 1) (.char ')')) (n, .done)
  | 0 => by cases he <;> rfl
  | depth + 1 => by
    refine lexes_cons.2 ⟨(n + (depth + 1), .done), ?_, lexes_closing .done depth⟩
    cases he <;> rfl

theorem Sound.wrap {opening : Sql} {depth : Nat} (ho : Opens (depth + 1) opening) (ha : Sound a) :
    Sound (opening ++ a ++ List.replicate (depth + 1) (.char ')')) := by
  intro n
  obtain ⟨e, closed, inner⟩ := ha (n + (depth + 1))
  exact ⟨.done, .done, ((ho n).append inner).append (lexes_closing closed depth)⟩

theorem Sound.parenthesize (h : Sound sql) : Sound sql.parenthesize := by
  have opens : Opens 1 (ofString "(") := fun _ => rfl
  exact h.wrap opens

theorem sound_list {separator : String} (hs : Separates (ofString separator))
    {fragments : List Sql} (hf : ∀ sql ∈ fragments, Sound sql) :
    Sound (join separator fragments).parenthesize := by
  by_cases none : fragments = []
  · subst none
    exact fun n => ⟨.done, .done, rfl⟩
  · exact (sound_join hs hf none).parenthesize

theorem Sound.relabel (h : Sound sql) (f : Nat → Nat) : Sound (sql.map (Symbol.relabel f)) := by
  intro n
  obtain ⟨e, closed, lexed⟩ := h n
  exact ⟨e, closed, lexed.relabel f⟩

theorem Sound.ne_nil (h : Sound sql) : sql ≠ [] := by
  rintro rfl
  obtain ⟨e, closed, lexed⟩ := h 0
  cases lexed
  cases closed

structure IsName (s : String) : Prop where
  ne_nil : s.toList ≠ []
  word : ∀ c ∈ s.toList, Text.isWord c

/-- Letters may go on where they may begin. -/
theorem lexes_letters {letters : List Char} (hw : ∀ c ∈ letters, Text.isWord c) :
    Lexes (n, .word) (letters.map .char) (n, .word) := by
  induction letters with
  | nil => rfl
  | cons c letters ih =>
    have first := hw c List.mem_cons_self
    refine lexes_cons.2 ⟨(n, .word), ?_, ih fun c hc => hw c (List.mem_cons_of_mem _ hc)⟩
    simp [Lexer.step, first]

theorem IsName.lexes {s : String} (h : IsName s) : Lexes (n, .gap) (ofString s) (n, .word) := by
  obtain ⟨some, hw⟩ := h
  unfold ofString
  cases letters : s.toList with
  | nil => exact absurd letters some
  | cons c rest =>
    rw [letters] at hw
    have first := hw c List.mem_cons_self
    refine lexes_cons.2 ⟨(n, .word), ?_, lexes_letters fun c hc => hw c (List.mem_cons_of_mem _ hc)⟩
    simp [Lexer.step, first]

theorem IsName.sound {s : String} (h : IsName s) : Sound (ofString s) :=
  fun _ => ⟨.word, .word, h.lexes⟩

theorem isName_toString (n : Nat) : IsName (toString n) where
  ne_nil := by
    rw [Nat.toString_eq_ofList_toDigits, String.toList_ofList]
    exact Nat.toDigits_ne_nil
  word := by
    intro c hc
    rw [Nat.toString_eq_ofList_toDigits, String.toList_ofList] at hc
    have digit : Text.isDigit c = true := Nat.isDigit_of_mem_toDigits (by decide) (by decide) hc
    simp [Text.isWord, digit]

theorem isName_of_checkShape {name : String} (h : Identifier.checkShape name = .ok ()) :
    IsName name := by
  unfold Identifier.checkShape at h
  split at h
  · cases h
  · next first rest letters =>
    split at h
    · cases h
    split at h
    · cases h
    split at h
    · cases h
    next start others =>
    simp only [Bool.not_eq_true', Bool.not_eq_false, Bool.or_eq_true, beq_iff_eq] at start
    simp only [Bool.not_eq_true', Bool.not_eq_false, List.all_eq_true] at others
    refine ⟨by simp [letters], ?_⟩
    intro c hc
    rcases List.mem_cons.1 (letters ▸ hc) with rfl | hc
    · rcases start with letter | rfl
      · simp [Text.isWord, letter]
      · decide
    · exact others c hc

theorem isName_of_check {name : String} (h : Identifier.check name = .ok ()) : IsName name := by
  unfold Identifier.check at h
  cases shape : Identifier.checkShape name with
  | error e =>
    rw [shape] at h
    cases h
  | ok u => exact isName_of_checkShape shape

end Sql
end DmlCompiler
