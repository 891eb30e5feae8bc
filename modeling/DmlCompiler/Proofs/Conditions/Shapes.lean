import DmlCompiler.Proofs.Conditions.Clauses
import DmlCompiler.Proofs.Validity

/-! # The text of clauses

The shapes of the text that an expression without its children has, and what they read into. -/
namespace DmlCompiler.Sql

def keywords : List String := ["AND", "OR", "BETWEEN", "NOT"]

/-- A word that has no part in the structure of a condition. -/
structure IsOperand (s : String) : Prop where
  word : IsWord s.toList
  plain : ∀ k ∈ keywords, s.toList ≠ k.toList

instance (s : String) : Decidable (IsOperand s) :=
  decidable_of_iff (IsWord s.toList ∧ ∀ k ∈ keywords, s.toList ≠ k.toList)
    ⟨fun h => ⟨h.1, h.2⟩, fun h => ⟨h.word, h.plain⟩⟩

inductive Term : Sql → Prop where
  | operand {s : String} (h : IsOperand s) : Term (ofString s)
  | place (number : Nat) : Term [.place number]
  | call {name : String} {arguments : Sql} (h : IsOperand name) (balanced : Balanced arguments) :
      Term (ofString name ++ arguments.parenthesize)
  | arithmetic {first : Sql} {operands : List Sql} (h : Term first)
      (each : ∀ o ∈ operands, ∃ (symbol : String) (number : Nat),
        IsOperand symbol ∧ o = ofString s!" {symbol} " ++ [.place number]) :
      Term (first ++ operands.flatten).parenthesize

inductive RightSide (operator : Operator) : Argument → Sql → Prop where
  | property {other : Expression} {sql : Sql} (h : Term sql) :
      RightSide operator (.property other) sql
  | value {v : SqlValue} (single : operator.isRange = false) (number : Nat) :
      RightSide operator (.value v) [.place number]
  | list {operands : List Operand} {entries : Sql} (single : operator.isRange = false)
      (balanced : Balanced entries) : RightSide operator (.list operands) entries.parenthesize
  | range {v w : SqlValue} (double : operator.isRange = true) (low high : Nat) :
      RightSide operator (.range v w) ([.place low] ++ ofString " AND " ++ [.place high])

inductive IsClause : Option Operator → Option Argument → Sql → Prop where
  | term {argument : Option Argument} {sql : Sql} (h : Term sql) : IsClause none argument sql
  | nullCheck {operator : Operator} {argument : Option Argument} {left : Sql}
      (h : operator.isNullCheck = true) (hl : Term left) :
      IsClause (some operator) argument (left ++ ofString s!" {operator.sql}")
  | comparison {operator : Operator} {argument : Argument} {left right : Sql} (hl : Term left)
      (hr : RightSide operator argument right) :
      IsClause (some operator) (some argument)
        (left ++ ofString s!" {operator.sql}" ++ ofString " " ++ right)

variable {d : Dialect} {sql : Sql} {ts us : List Tree}

theorem IsOperand.isPlain {s : String} (h : IsOperand s) : (Tree.word s.toList).IsPlain := by
  intro w hw
  have known : w ∈ keywords := List.mem_append_left ["NOT"] hw
  simpa [Tree.isWord] using h.plain w known

theorem IsOperand.begins {s : String} (h : IsOperand s) :
    Tree.isWord "NOT" (.word s.toList) = false := by
  simpa [Tree.isWord] using h.plain "NOT" (by decide)

theorem IsOperand.scalar {s : String} (h : IsOperand s) : Scalar [.word s.toList] :=
  .plain (by simpa using h.isPlain) h.begins nofun

theorem IsOperand.scalar_call {s : String} (h : IsOperand s) (content : List Tree) :
    Scalar [.word s.toList, .group content] := by
  refine .plain ?_ h.begins nofun
  simp only [List.forall_mem_cons]
  exact ⟨h.isPlain, group_isPlain content, by simp⟩

theorem isOperand_parameterName (d : Dialect) (number : Nat) :
    IsOperand (d.parameterName number) := by
  obtain ⟨mark, word, letters, marked, all⟩ := d.parameterName_cons (k := number)
  refine ⟨⟨by simp [letters], ?_⟩, ?_⟩
  · intro c hc
    rw [letters] at hc
    rcases List.mem_cons.1 hc with rfl | hc
    · refine ⟨?_, ?_, ?_⟩ <;>
      · rintro rfl
        cases marked
    · exact free_of_word (all c hc)
  · intro k hk same
    rw [letters] at same
    have unmarked : ∀ k ∈ keywords, k.toList.head?.any isMark = false := by decide
    have contra := unmarked k hk
    rw [← same, List.head?_cons, Option.any_some, marked] at contra
    cases contra

/-- The dot keeps the name of a column apart from any keyword. -/
theorem isOperand_column {c : ColumnRef} (h : c.IsValid) : IsOperand c.sql := by
  have table := isName_of_check h.table
  have column := isName_of_check h.column
  have letters : c.sql.toList = c.table.toList ++ '.' :: c.column.toList := by
    simp [ColumnRef.sql]
  refine ⟨⟨by simp [letters], ?_⟩, ?_⟩
  · intro l hl
    rw [letters, List.mem_append, List.mem_cons] at hl
    rcases hl with hl | rfl | hl
    · exact free_of_word (table.word l hl)
    · decide
    · exact free_of_word (column.word l hl)
  · intro k hk same
    have dot : ∀ k ∈ keywords, '.' ∉ k.toList := by decide
    exact dot k hk (by simp [← same, letters])

@[simp] theorem chars_parenthesize : chars d sql.parenthesize = '(' :: (chars d sql ++ [')']) := by
  simp [parenthesize]

theorem Scalar.isPlain (h : Scalar ts) : ∀ t ∈ ts, t.IsPlain := by
  cases h with
  | plain plain _ _ => exact plain
  | group h => simpa using group_isPlain _

theorem Scalar.begins (h : Scalar ts) : ∃ t rest, ts = t :: rest ∧ t.isWord "NOT" = false := by
  cases h with
  | plain _ begins _ => exact ⟨_, _, rfl, begins⟩
  | group h => exact ⟨_, _, rfl, rfl⟩

theorem several_of_append {t u : Tree} (content : List Tree) :
    t :: (ts ++ u :: us) ≠ [.group content] := by
  cases ts <;> nofun

theorem Scalar.append (h : Scalar ts) (hu : ∀ u ∈ us, u.IsPlain) : Scalar (ts ++ us) := by
  cases us with
  | nil => rwa [List.append_nil]
  | cons u us =>
    obtain ⟨t, rest, rfl, begins⟩ := h.begins
    refine .plain ?_ begins several_of_append
    intro v hv
    have mem : v ∈ (t :: rest) ++ (u :: us) := hv
    rcases List.mem_append.1 mem with hv | hv
    · exact h.isPlain v hv
    · exact hu v hv

theorem reads_operands {text : List Char} (read : Reads text ts) : ∀ {operands : List Sql},
    (∀ o ∈ operands, ∃ (symbol : String) (number : Nat),
      IsOperand symbol ∧ o = ofString s!" {symbol} " ++ [.place number]) →
    ∃ us, Reads (text ++ chars d operands.flatten) (ts ++ us) ∧ ∀ u ∈ us, u.IsPlain := by
  intro operands
  induction operands generalizing text ts with
  | nil => exact fun _ => ⟨[], by simpa using read, by simp⟩
  | cons o operands ih =>
    intro each
    obtain ⟨symbol, number, isSymbol, rfl⟩ := each o List.mem_cons_self
    have place := isOperand_parameterName d number
    have longer := (read.blank isSymbol.word.reads).blank place.word.reads
    obtain ⟨us, reads, plain⟩ := ih longer fun o ho => each o (List.mem_cons_of_mem _ ho)
    refine ⟨.word symbol.toList :: .word (d.parameterName number).toList :: us, ?_, ?_⟩
    · simpa [toString] using reads
    · simp only [List.forall_mem_cons]
      exact ⟨isSymbol.isPlain, place.isPlain, plain⟩

theorem Term.reads (d : Dialect) (h : Term sql) : ∃ ts, Reads (chars d sql) ts ∧ Scalar ts := by
  induction h with
  | operand h => exact ⟨_, by simpa using h.word.reads, h.scalar⟩
  | place number =>
    have h := isOperand_parameterName d number
    exact ⟨_, by simpa using h.word.reads, h.scalar⟩
  | call h balanced =>
    obtain ⟨content, inside⟩ := balanced.readsInside d
    exact ⟨_, by simpa using h.word.reads_call inside, h.scalar_call content⟩
  | arithmetic h each ih =>
    obtain ⟨ts, read, scalar⟩ := ih
    obtain ⟨us, reads, plain⟩ := reads_operands (d := d) read each
    refine ⟨_, ?_, .group (scalar.append plain)⟩
    simpa using reads_group reads.inside

theorem IsOperand.balanced {s : String} (h : IsOperand s) : Balanced (ofString s) :=
  balanced_of_free fun c hc => (h.word.free c hc).2

theorem Term.balanced (h : Term sql) : Balanced sql := by
  induction h with
  | operand h => exact h.balanced
  | place number => exact balanced_place number
  | call h arguments => exact h.balanced.append arguments.parenthesize
  | arithmetic h each ih =>
    refine (ih.append (balanced_flatten fun o ho => ?_)).parenthesize
    obtain ⟨symbol, number, isSymbol, rfl⟩ := each o ho
    have blank : Balanced (ofString " ") := fun _ => rfl
    simp only [toString, ofString_append]
    exact ((blank.append isSymbol.balanced).append blank).append (balanced_place number)

def operatorWords : Operator → List String
  | .notLike => ["NOT", "LIKE"]
  | .notIn => ["NOT", "IN"]
  | .notBetween => ["NOT", "BETWEEN"]
  | .isNull => ["IS", "NULL"]
  | .isNotNull => ["IS", "NOT", "NULL"]
  | operator => [operator.sql]

def wordTrees (words : List String) : List Tree := words.map fun w => .word w.toList

theorem reads_words {w : String} {ws : List String} (h : ∀ v ∈ w :: ws, IsWord v.toList) :
    Reads (" ".intercalate (w :: ws)).toList (wordTrees (w :: ws)) := by
  induction ws generalizing w with
  | nil => simpa [wordTrees] using (h w List.mem_cons_self).reads
  | cons v ws ih =>
    have first := (h w List.mem_cons_self).reads
    have rest := ih fun v hv => h v (List.mem_cons_of_mem _ hv)
    have text : (" ".intercalate (w :: v :: ws)).toList =
        w.toList ++ ' ' :: (" ".intercalate (v :: ws)).toList := by
      rw [String.intercalate_cons_cons]
      simp
    rw [text]
    exact first.blank rest

theorem isWord_of_operatorWords (operator : Operator) :
    ∀ w ∈ operatorWords operator, IsWord w.toList := by
  cases operator <;> decide

theorem reads_operator (operator : Operator) :
    Reads operator.sql.toList (wordTrees (operatorWords operator)) := by
  have text : operator.sql = " ".intercalate (operatorWords operator) := by
    cases operator <;> decide
  have words := isWord_of_operatorWords operator
  rw [text]
  cases eq : operatorWords operator with
  | nil => cases operator <;> cases eq
  | cons w ws =>
    rw [eq] at words
    exact reads_words words

theorem operatorWords_plain {operator : Operator} (single : operator.isRange = false) :
    ∀ t ∈ wordTrees (operatorWords operator), t.IsPlain := by
  cases operator <;> first | decide | cases single

theorem operatorWords_range {operator : Operator} (double : operator.isRange = true) :
    ∃ before, wordTrees (operatorWords operator) = before ++ [.word "BETWEEN".toList] ∧
      ∀ t ∈ before, t.IsPlain := by
  cases operator <;> try cases double
  · exact ⟨[], rfl, by simp⟩
  · exact ⟨[.word "NOT".toList], rfl, by decide⟩

theorem isUnit_of_scalar (h : Scalar ts) (hu : us ≠ []) (uncut : Uncut (tokens (ts ++ us))) :
    IsUnit (tokens (ts ++ us)) (.clause (stripped (ts ++ us))) := by
  obtain ⟨t, rest, rfl, begins⟩ := h.begins
  obtain ⟨u, more, rfl⟩ := List.exists_cons_of_ne_nil hu
  rw [List.cons_append, stripped_of_several several_of_append]
  exact isUnit_of_uncut uncut begins several_of_append

/-- A property goes with an operator that takes one operand. -/
def SingleProperty (operator : Operator) (argument : Argument) : Prop :=
  ∀ other, argument = .property other → operator.isRange = false

theorem RightSide.reads (d : Dialect) {operator : Operator} {argument : Argument}
    (proper : SingleProperty operator argument) (h : RightSide operator argument sql) :
    ∃ us, us ≠ [] ∧ Reads (operator.sql.toList ++ ' ' :: chars d sql) us ∧ Uncut (tokens us) := by
  have words := reads_operator operator
  have term : ∀ {sql : Sql}, operator.isRange = false → Term sql →
      ∃ us, us ≠ [] ∧ Reads (operator.sql.toList ++ ' ' :: chars d sql) us ∧
        Uncut (tokens us) := by
    intro sql single h
    obtain ⟨ts, read, scalar⟩ := h.reads d
    obtain ⟨t, rest, rfl, _⟩ := scalar.begins
    refine ⟨_, by simp, words.blank read, ?_⟩
    rw [tokens_append]
    exact (uncut_of_plain (operatorWords_plain single)).append (uncut_of_plain scalar.isPlain)
  cases h with
  | property h => exact term (proper _ rfl) h
  | value single number => exact term single (.place number)
  | list single balanced =>
    obtain ⟨content, inside⟩ := balanced.readsInside d
    refine ⟨wordTrees (operatorWords operator) ++ [.group content], by simp,
      by simpa using words.blank (reads_group inside), ?_⟩
    rw [tokens_append]
    refine (uncut_of_plain (operatorWords_plain single)).append (uncut_of_plain ?_)
    simpa using group_isPlain content
  | range double low high =>
    obtain ⟨before, split, plain⟩ := operatorWords_range double
    have isLow := isOperand_parameterName d low
    have isHigh := isOperand_parameterName d high
    have and : IsWord "AND".toList := by decide
    have read := ((words.blank isLow.word.reads).blank and.reads).blank isHigh.word.reads
    refine ⟨_, ?_, by simpa using read, ?_⟩
    · simp
    have range := uncut_range isLow.isPlain isHigh.isPlain
    have uncut := (uncut_of_plain plain).append range
    rw [← tokens_append] at uncut
    simpa [split] using uncut

/-- A clause is a unit, and what it means is its own text. -/
theorem IsClause.reads (d : Dialect) {operator : Option Operator} {argument : Option Argument}
    (proper : ∀ o ∈ operator, ∀ a ∈ argument, SingleProperty o a)
    (h : IsClause operator argument sql) :
    ∃ ts, Reads (chars d sql) ts ∧ IsUnit (tokens ts) (.clause (stripped ts)) := by
  cases h with
  | term h =>
    obtain ⟨ts, read, scalar⟩ := h.reads d
    exact ⟨ts, read, scalar.isUnit⟩
  | @nullCheck operator _ left null hl =>
    obtain ⟨ts, read, scalar⟩ := hl.reads d
    have single : operator.isRange = false := by cases operator <;> first | rfl | cases null
    have some : wordTrees (operatorWords operator) ≠ [] := by cases operator <;> nofun
    refine ⟨_, ?_, isUnit_of_scalar scalar some ?_⟩
    · simpa [toString] using read.blank (reads_operator operator)
    · rw [tokens_append]
      exact (uncut_of_plain scalar.isPlain).append (uncut_of_plain (operatorWords_plain single))
  | comparison hl hr =>
    obtain ⟨ts, read, scalar⟩ := hl.reads d
    obtain ⟨us, some, readRight, uncut⟩ := hr.reads d (proper _ rfl _ rfl)
    refine ⟨_, ?_, isUnit_of_scalar scalar some ?_⟩
    · simpa [toString] using read.blank readRight
    · rw [tokens_append]
      exact (uncut_of_plain scalar.isPlain).append uncut

theorem RightSide.balanced {operator : Operator} {argument : Argument}
    (h : RightSide operator argument sql) : Balanced sql := by
  cases h with
  | property h => exact h.balanced
  | value single number => exact balanced_place number
  | list single balanced => exact balanced.parenthesize
  | range double low high =>
    have and : Balanced (ofString " AND ") := fun _ => rfl
    exact ((balanced_place low).append and).append (balanced_place high)

theorem IsClause.balanced {operator : Option Operator} {argument : Option Argument}
    (h : IsClause operator argument sql) : Balanced sql := by
  have spaced : ∀ operator : Operator, Balanced (ofString s!" {operator.sql}") := by
    intro operator
    cases operator <;> exact fun _ => rfl
  have blank : Balanced (ofString " ") := fun _ => rfl
  cases h with
  | term h => exact h.balanced
  | nullCheck null hl => exact hl.balanced.append (spaced _)
  | comparison hl hr => exact ((hl.balanced.append (spaced _)).append blank).append hr.balanced

end DmlCompiler.Sql
