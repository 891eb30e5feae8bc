import DmlCompiler.Json.Parser
import DmlCompiler.Json.Printer
import DmlCompiler.Proofs.Digits

/-! # Strings and numbers read back

A string is read back as it was before its characters were escaped, and a number literal is read
in the same way whatever stands behind it. -/
namespace DmlCompiler.Json

open Text

section Strings

variable {cs rest : List Char}

theorem unit?_escape (c : Char) :
    unit? '0' '0' (hexDigit (c.toNat / 16)) (hexDigit c.toNat) = some (c.toNat % 256) := by
  have front : hexNumber? ['0', '0'] = some 0 := by decide
  have first := hexNumber?_append ['0', '0'] (c.toNat / 16)
  have second := hexNumber?_append ['0', '0', hexDigit (c.toNat / 16)] c.toNat
  rw [front] at first
  rw [List.cons_append, List.cons_append, List.nil_append] at first
  rw [first] at second
  rw [unit?]
  refine second.trans ?_
  simp only [Option.map_some]
  congr 1
  omega

theorem stringTail_unit {a b c d x : Char} {unit : Nat} (read : unit? a b c d = some unit)
    (whole : scalar? unit = some x) :
    stringTail (some cs) ('\\' :: 'u' :: a :: b :: c :: d :: rest) =
      stringTail (some (x :: cs)) rest := by
  rw [stringTail.eq_def]
  split
  · next eq => cases eq
  · next eq =>
    -- another escape follows, which would matter only for half of a pair
    cases eq
    simp only [read, whole]
    rfl
  · next eq =>
    cases eq
    simp only [read, whole]
    rfl
  · next shorter eq =>
    cases eq
    exact (shorter a b c d rest rfl rfl).elim
  · next escape eq =>
    cases eq
    exact (escape 'u' _ rfl rfl).elim
  · next eq => cases eq

theorem stringTail_plain {c : Char} (quote : c ≠ '"') (backslash : c ≠ '\\')
    (printable : ¬ c.toNat < 0x20) :
    stringTail (some cs) (c :: rest) = stringTail (some (c :: cs)) rest := by
  rw [stringTail.eq_def]
  split
  · next eq => exact (quote (List.cons.inj eq).1).elim
  · next eq => exact (backslash (List.cons.inj eq).1).elim
  · next eq => exact (backslash (List.cons.inj eq).1).elim
  · next eq => exact (backslash (List.cons.inj eq).1).elim
  · next eq =>
    cases eq
    rw [if_neg printable]
    rfl
  · next eq => cases eq

theorem stringTail_escape (c : Char) :
    stringTail (some cs) (escape c ++ rest) = stringTail (some (c :: cs)) rest := by
  unfold escape
  by_cases quote : c = '"'
  · subst quote
    simp [stringTail, escaped?, pushed]
  by_cases backslash : c = '\\'
  · subst backslash
    simp [stringTail, escaped?, pushed]
  rw [if_neg quote, if_neg backslash]
  split
  · next eq => subst eq; simp [stringTail, escaped?, pushed]
  split
  · next eq => subst eq; simp [stringTail, escaped?, pushed]
  split
  · next eq => subst eq; simp [stringTail, escaped?, pushed]
  split
  · next eq => subst eq; simp [stringTail, escaped?, pushed]
  split
  · next eq => subst eq; simp [stringTail, escaped?, pushed]
  split
  · next control =>
    apply stringTail_unit (unit?_escape c)
    have small : c.toNat % 256 = c.toNat := Nat.mod_eq_of_lt (by omega)
    rw [small, scalar?, if_neg (by omega), Char.ofNat_toNat]
  · next printable => exact stringTail_plain quote backslash printable

/-- The characters of a string are read up to its closing quote. -/
theorem stringTail_escaped (s : List Char) :
    stringTail (some cs) (s.flatMap escape ++ '"' :: rest) =
      some (some (String.ofList (cs.reverse ++ s)), rest) := by
  induction s generalizing cs with
  | nil => simp [stringTail]
  | cons c s ih =>
    rw [List.flatMap_cons, List.append_assoc, stringTail_escape, ih]
    simp

end Strings

section Numbers

variable {s s' rest : List Char}

/-- The text begins with nothing that a number could go on with. -/
def EndsLiteral (rest : List Char) : Prop :=
  ∀ c ∈ rest.head?, isDigit c = false ∧ c ≠ '.' ∧ c ≠ 'e' ∧ c ≠ 'E'

theorem EndsLiteral.digits (ends : EndsLiteral rest) : EndsNumber rest :=
  fun c hc => (ends c hc).1

theorem digits1_extend {digits : List Char} (read : digits1 s = some (digits, s'))
    (ends : EndsNumber rest) : digits1 (s ++ rest) = some (digits, s' ++ rest) := by
  unfold digits1 at read
  rw [List.span_eq_takeWhile_dropWhile] at read
  split at read
  · cases read
  · next nonempty =>
    cases read
    have all : ∀ c ∈ s.takeWhile isDigit, isDigit c = true := fun c hc =>
      List.mem_takeWhile_imp hc
    have behind : EndsNumber (s.dropWhile isDigit ++ rest) := by
      intro c hc
      cases left : s.dropWhile isDigit with
      | nil =>
        rw [left] at hc
        exact ends c hc
      | cons d tail =>
        rw [left] at hc
        cases hc
        have stops := List.head_dropWhile_not isDigit (l := s) (by rw [left]; simp)
        simpa [left] using stops
    have some : s.takeWhile isDigit ≠ [] := by
      intro none
      exact nonempty _ (by rw [none])
    have again := digits1_append all some behind
    rwa [← List.append_assoc, List.takeWhile_append_dropWhile] at again

theorem wholePart_extend {digits : List Char} (read : wholePart s = some (digits, s'))
    (ends : EndsLiteral rest) : wholePart (s ++ rest) = some (digits, s' ++ rest) := by
  unfold wholePart at read ⊢
  split at read
  · cases read
    rfl
  · next nonzero =>
    cases s with
    | nil => cases read
    | cons c s =>
      split
      · next eq =>
        cases eq
        exact (nonzero s rfl).elim
      · exact digits1_extend read ends.digits

theorem fractionPart_extend {fraction : Option (List Char)}
    (read : fractionPart s = some (fraction, s')) (ends : EndsLiteral rest) :
    fractionPart (s ++ rest) = some (fraction, s' ++ rest) := by
  unfold fractionPart at read ⊢
  split at read
  · obtain ⟨⟨digits, left⟩, found, eq⟩ := Option.map_eq_some_iff.1 read
    cases eq
    simp [digits1_extend found ends.digits]
  · next point =>
    cases read
    split
    · next eq =>
      cases s with
      | nil => exact ((ends '.' (by rw [← List.nil_append rest, eq]; rfl)).2.1 rfl).elim
      | cons c s =>
        cases eq
        exact (point s rfl).elim
    · rfl

theorem exponentDigits_extend {negative : Bool} {exponent : Option Int}
    (read : exponentDigits negative s = some (exponent, s')) (ends : EndsLiteral rest) :
    exponentDigits negative (s ++ rest) = some (exponent, s' ++ rest) := by
  obtain ⟨⟨digits, left⟩, found, eq⟩ := Option.map_eq_some_iff.1 read
  cases eq
  simp [exponentDigits, digits1_extend found ends.digits]

theorem exponentPart_extend {exponent : Option Int}
    (read : exponentPart s = some (exponent, s')) (ends : EndsLiteral rest) :
    exponentPart (s ++ rest) = some (exponent, s' ++ rest) := by
  cases s with
  | nil =>
    cases read
    cases rest with
    | nil => rfl
    | cons c rest =>
      obtain ⟨_, _, lower, upper⟩ := ends c rfl
      simp [exponentPart, lower, upper]
  | cons c s =>
    rw [List.cons_append]
    unfold exponentPart at read ⊢
    dsimp only at read ⊢
    by_cases mark : c = 'e' ∨ c = 'E'
    · rw [if_pos mark] at read ⊢
      cases s with
      | nil => cases read
      | cons sign s =>
        rw [List.cons_append]
        split at read
        · next eq =>
          cases eq
          exact exponentDigits_extend read ends
        · next eq =>
          cases eq
          exact exponentDigits_extend read ends
        · next plus minus =>
          have extended := exponentDigits_extend read ends
          split
          · next eq => cases eq; exact (plus s rfl).elim
          · next eq => cases eq; exact (minus s rfl).elim
          · exact extended
    · rw [if_neg mark] at read ⊢
      cases read
      rfl

theorem numeral_extend {value : Json} (read : numeral s = some (value, s'))
    (ends : EndsLiteral rest) : numeral (s ++ rest) = some (value, s' ++ rest) := by
  have step {negative : Bool} {s : List Char} (read : unsigned negative s = some (value, s')) :
      unsigned negative (s ++ rest) = some (value, s' ++ rest) := by
    simp only [unsigned, Option.bind_eq_bind, Option.bind_eq_some_iff, Option.pure_def] at read
    obtain ⟨⟨whole, s₁⟩, first, ⟨fraction, s₂⟩, second, ⟨exponent, s₃⟩, third, eq⟩ := read
    cases eq
    simp [unsigned, wholePart_extend first ends, fractionPart_extend second ends,
      exponentPart_extend third ends]
  unfold numeral at read ⊢
  split at read
  · exact step read
  · next positive =>
    cases s with
    | nil => cases read
    | cons c s =>
      split
      · next eq =>
        cases eq
        exact (positive s rfl).elim
      · exact step read

/-- An integer that 64 bits hold is read from its digits. -/
theorem numeral_writeInteger {n : Int} (low : -2 ^ 63 ≤ n) (high : n < 2 ^ 64) :
    numeral (writeInteger n) = some (.integer n, []) := by
  have digits (k : Nat) : wholePart (Nat.toDigits 10 k) = some (Nat.toDigits 10 k, []) := by
    unfold wholePart
    split
    · next eq =>
      obtain ⟨rfl, rfl⟩ := eq_zero_of_toDigits eq
      rfl
    · have ends : EndsNumber [] := nofun
      have all := digits1_append (fun c hc => isDigit_of_toDigits (n := k) hc)
        Nat.toDigits_ne_nil ends
      rwa [List.append_nil] at all
  have whole (negative : Bool) (k : Nat) (fits : integerOf? negative k = some n) :
      unsigned negative (Nat.toDigits 10 k) = some (.integer n, []) := by
    simp [unsigned, digits, fractionPart, exponentPart, ofParts, digitsValue_toDigits, fits]
  unfold writeInteger
  split
  · next negative =>
    apply whole
    rw [integerOf?, if_pos rfl, if_pos (by omega)]
    congr 1
    omega
  · next positive =>
    have head : ∀ rest, Nat.toDigits 10 n.natAbs ≠ '-' :: rest := by
      intro rest eq
      have digit := isDigit_of_toDigits (n := n.natAbs) (c := '-') (by rw [eq]; simp)
      revert digit
      decide
    unfold numeral
    split
    · next eq => exact (head _ eq).elim
    · apply whole
      rw [integerOf?, if_neg (by decide), if_pos (by omega)]
      congr 1
      omega

end Numbers
end DmlCompiler.Json
