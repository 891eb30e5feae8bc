import DmlCompiler.Text.Digits
import Mathlib.Data.List.TakeDrop
import Mathlib.Data.List.TakeWhile
import Mathlib.Tactic.Ring
import Std.Data.String.ToNat

/-! # Digits read back

The digits that are written for a number are read as the number, wherever a text goes on behind
them with something else than a digit. -/
namespace DmlCompiler.Text

variable {digits rest : List Char} {n : Nat}

theorem isDigit_of_toDigits {c : Char} (h : c ∈ Nat.toDigits 10 n) : isDigit c = true :=
  Nat.isDigit_of_mem_toDigits (by decide) (by decide) h

theorem digitsValue_eq (digits : List Char) : digitsValue digits = Nat.ofDigitChars 10 digits 0 := by
  rw [Nat.ofDigitChars_eq_foldl]
  have step : (fun n c => n * 10 + digitValue c) =
      fun sofar c => 10 * sofar + (c.toNat - '0'.toNat) := by
    funext n c
    rw [digitValue, Nat.mul_comm]
  rw [digitsValue, step]

theorem digitsValue_toDigits (n : Nat) : digitsValue (Nat.toDigits 10 n) = n := by
  rw [digitsValue_eq, Nat.ofDigitChars_ten_toDigits]

theorem digitsValue_cons (c : Char) (digits : List Char) :
    digitsValue (c :: digits) = digitValue c * 10 ^ digits.length + digitsValue digits := by
  have general (sofar : Nat) : digits.foldl (fun n c => n * 10 + digitValue c) sofar =
      sofar * 10 ^ digits.length + digitsValue digits := by
    induction digits generalizing sofar with
    | nil => simp [digitsValue]
    | cons d digits ih =>
      have alone : digitsValue (d :: digits) =
          digits.foldl (fun n c => n * 10 + digitValue c) (0 * 10 + digitValue d) := rfl
      rw [List.foldl_cons, alone, ih, ih, List.length_cons, Nat.pow_succ]
      ring
  have first : digitsValue (c :: digits) =
      digits.foldl (fun n c => n * 10 + digitValue c) (0 * 10 + digitValue c) := rfl
  rw [first, general, Nat.zero_mul, Nat.zero_add]

theorem digitsValue_append (digits rest : List Char) :
    digitsValue (digits ++ rest) = digitsValue digits * 10 ^ rest.length + digitsValue rest := by
  induction digits with
  | nil => simp [digitsValue]
  | cons c digits ih =>
    rw [List.cons_append, digitsValue_cons, digitsValue_cons, ih, List.length_append, Nat.pow_add]
    ring

theorem toNat_of_isDigit {c : Char} (h : isDigit c = true) :
    c.toNat = 48 + digitValue c ∧ digitValue c < 10 := by
  simp only [isDigit, Bool.and_eq_true, decide_eq_true_eq, Char.le_def, UInt32.le_iff_toNat_le] at h
  have low : 48 ≤ c.toNat := h.1
  have high : c.toNat ≤ 57 := h.2
  have zero : '0'.toNat = 48 := rfl
  rw [digitValue, zero]
  omega

theorem digitsValue_lt (all : ∀ c ∈ digits, isDigit c = true) :
    digitsValue digits < 10 ^ digits.length := by
  induction digits with
  | nil => simp [digitsValue]
  | cons c digits ih =>
    obtain ⟨first, later⟩ := List.forall_mem_cons.1 all
    have digit := (toNat_of_isDigit first).2
    have below := ih later
    rw [digitsValue_cons, List.length_cons, Nat.pow_succ]
    have scaled := Nat.mul_le_mul_right (10 ^ digits.length) (Nat.le_of_lt_succ digit)
    omega

/-- As many digits of the same value are the same digits. -/
theorem eq_of_digitsValue {digits' : List Char} (all : ∀ c ∈ digits, isDigit c = true)
    (all' : ∀ c ∈ digits', isDigit c = true) (length : digits.length = digits'.length)
    (value : digitsValue digits = digitsValue digits') : digits = digits' := by
  induction digits generalizing digits' with
  | nil => exact (List.length_eq_zero_iff.1 length.symm).symm
  | cons c digits ih =>
    cases digits' with
    | nil => cases length
    | cons c' digits' =>
      obtain ⟨first, later⟩ := List.forall_mem_cons.1 all
      obtain ⟨first', later'⟩ := List.forall_mem_cons.1 all'
      have shorter : digits.length = digits'.length := Nat.succ.inj length
      have below := digitsValue_lt later
      have below' := digitsValue_lt later'
      rw [digitsValue_cons, digitsValue_cons, shorter] at value
      rw [shorter] at below
      have rest : digitsValue digits = digitsValue digits' := by
        have cut := congrArg (· % 10 ^ digits'.length) value
        simpa [Nat.mod_eq_of_lt below, Nat.mod_eq_of_lt below', Nat.add_mod] using cut
      have same : digitValue c = digitValue c' := by
        rw [rest] at value
        exact Nat.eq_of_mul_eq_mul_right (Nat.pow_pos (by decide)) (Nat.add_right_cancel value)
      have char : c = c' := by
        rw [← Char.toNat_inj, (toNat_of_isDigit first).1, (toNat_of_isDigit first').1, same]
      rw [char, ih later later' shorter rest]

theorem eq_zero_of_toDigits (h : Nat.toDigits 10 n = '0' :: rest) : n = 0 ∧ rest = [] := by
  induction n using Nat.strong_induction_on generalizing rest with
  | _ n ih =>
    by_cases small : n < 10
    · rw [Nat.toDigits_of_lt_base small] at h
      obtain ⟨first, rfl⟩ := List.cons.inj h
      exact ⟨Nat.zero_eq_digitChar.1 first.symm, rfl⟩
    · rw [Nat.toDigits_of_base_le (by decide) (by omega)] at h
      cases digits : Nat.toDigits 10 (n / 10) with
      | nil => exact absurd digits Nat.toDigits_ne_nil
      | cons c cs =>
        rw [digits] at h
        obtain ⟨rfl, _⟩ := List.cons.inj h
        have none := (ih (n / 10) (by omega) digits).1
        omega

section Padded

theorem digitsValue_padded (width n : Nat) : digitsValue (padded width n) = n := by
  rw [digitsValue_eq, padded, Nat.ofDigitChars_append, Nat.ofDigitChars_replicate_zero,
    Nat.mul_zero, Nat.ofDigitChars_ten_toDigits]

theorem isDigit_of_padded {width : Nat} {c : Char} (h : c ∈ padded width n) : isDigit c = true := by
  rcases List.mem_append.1 h with h | h
  · rw [List.eq_of_mem_replicate h]
    rfl
  · exact isDigit_of_toDigits h

theorem length_padded {width : Nat} (some : 0 < width) (small : n < 10 ^ width) :
    (padded width n).length = width := by
  have fits := (Nat.length_toDigits_le_iff (by decide) some).2 small
  rw [padded, List.length_append, List.length_replicate]
  omega

/-- Digits are those of their value, with the zeros that they begin with. -/
theorem padded_digitsValue (all : ∀ c ∈ digits, isDigit c = true) (some : digits ≠ []) :
    padded digits.length (digitsValue digits) = digits :=
  eq_of_digitsValue (fun _ => isDigit_of_padded) all
    (length_padded (List.length_pos_iff.2 some) (digitsValue_lt all)) (digitsValue_padded _ _)

theorem padded_ne_nil (width n : Nat) : padded width n ≠ [] :=
  List.append_ne_nil_of_right_ne_nil _ Nat.toDigits_ne_nil

end Padded

def EndsNumber (rest : List Char) : Prop := ∀ c ∈ rest.head?, isDigit c = false

theorem EndsNumber.cons {c : Char} (h : isDigit c = false) : EndsNumber (c :: rest) := by
  intro d hd
  cases hd
  exact h

theorem takeWhile_digits (all : ∀ c ∈ digits, isDigit c = true) (ends : EndsNumber rest) :
    (digits ++ rest).takeWhile isDigit = digits := by
  rw [List.takeWhile_append_of_pos all]
  cases rest with
  | nil => simp
  | cons c rest => simp [ends c rfl]

theorem digits1_append (all : ∀ c ∈ digits, isDigit c = true) (some : digits ≠ [])
    (ends : EndsNumber rest) : digits1 (digits ++ rest) = .some (digits, rest) := by
  have taken := takeWhile_digits all ends
  have left : (digits ++ rest).dropWhile isDigit = rest := by
    rw [List.dropWhile_append_of_pos all]
    cases rest with
    | nil => rfl
    | cons c rest => simp [ends c rfl]
  unfold digits1
  rw [List.span_eq_takeWhile_dropWhile, taken, left]
  cases digits with
  | nil => exact absurd rfl some
  | cons c digits => rfl

/-- A number of few enough digits, behind which no digit follows or none more is read. -/
theorem number?_append {least most : Nat} (all : ∀ c ∈ digits, isDigit c = true)
    (enough : least ≤ digits.length)
    (whole : digits.length = most ∨ digits.length ≤ most ∧ EndsNumber rest) :
    number? least most (digits ++ rest) = some (digitsValue digits, rest) := by
  have taken : ((digits ++ rest).take most).takeWhile isDigit = digits := by
    rcases whole with length | ⟨length, ends⟩
    · rw [← length, List.take_left]
      exact List.takeWhile_eq_self_iff.2 all
    · rw [List.take_append, List.take_of_length_le length]
      refine takeWhile_digits all ?_
      intro c hc
      apply ends c
      cases rest with
      | nil => simp at hc
      | cons d rest =>
        cases gap : most - digits.length with
        | zero =>
          rw [gap] at hc
          cases hc
        | succ k =>
          rw [gap] at hc
          exact hc
  unfold number?
  dsimp only
  rw [taken, if_neg (Nat.not_lt.2 enough), List.drop_left]

theorem number?_padded {least width : Nat} (enough : least ≤ width) (some : 0 < width)
    (small : n < 10 ^ width) (rest : List Char) :
    number? least width (padded width n ++ rest) = .some (n, rest) := by
  have length := length_padded some small
  rw [number?_append (fun _ => isDigit_of_padded) (by omega) (.inl length), digitsValue_padded]

theorem digits1_eq_some {s : List Char} (h : digits1 s = .some (digits, rest)) :
    s = digits ++ rest ∧ digits ≠ [] ∧ ∀ c ∈ digits, isDigit c = true := by
  unfold digits1 at h
  rw [List.span_eq_takeWhile_dropWhile] at h
  split at h
  · cases h
  · next other =>
    obtain ⟨rfl, rfl⟩ := Prod.mk.inj (Option.some.inj h)
    refine ⟨List.takeWhile_append_dropWhile.symm, fun none => ?_, fun c => List.mem_takeWhile_imp⟩
    exact other _ (Prod.ext none rfl)

/-- A number of a fixed width stands there with this many digits. -/
theorem number?_eq_some {width : Nat} {s : List Char} (wide : 0 < width)
    (h : number? width width s = some (n, rest)) : s = padded width n ++ rest ∧ n < 10 ^ width := by
  unfold number? at h
  dsimp only at h
  split at h
  · cases h
  · next enough =>
    obtain ⟨rfl, rfl⟩ := Prod.mk.inj (Option.some.inj h)
    let digits := (s.take width).takeWhile isDigit
    have most : digits.length ≤ width :=
      Nat.le_trans (List.takeWhile_prefix _).length_le (List.length_take_le width s)
    have length : digits.length = width := Nat.le_antisymm most (Nat.le_of_not_lt enough)
    have all : ∀ c ∈ digits, isDigit c = true := fun c => List.mem_takeWhile_imp
    have whole : digits = s.take width :=
      (List.takeWhile_prefix _).eq_of_length_le (by rw [length]; exact List.length_take_le width s)
    have written := padded_digitsValue all fun none => by rw [none] at length; exact wide.ne length
    have bound := digitsValue_lt all
    rw [length] at written bound
    refine ⟨?_, bound⟩
    rw [written, length, whole]
    exact (List.take_append_drop width s).symm

section Hex

theorem hexValue?_hexDigit (n : Nat) : hexValue? (hexDigit n) = some (n % 16) := by
  have all : ∀ k < 16, hexValue? (Nat.digitChar k) = some k := by decide
  exact all (n % 16) (Nat.mod_lt n (by decide))

theorem hexNumber?_append (digits : List Char) (n : Nat) :
    hexNumber? (digits ++ [hexDigit n]) =
      (hexNumber? digits).map fun value => value * 16 + n % 16 := by
  unfold hexNumber?
  rw [List.foldlM_append]
  cases List.foldlM (fun n c => (hexValue? c).map (n * 16 + ·)) 0 digits with
  | none => rfl
  | some value => simp [hexValue?_hexDigit]

end Hex
end DmlCompiler.Text
