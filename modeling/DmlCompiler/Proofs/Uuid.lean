import DmlCompiler.Proofs.Digits
import DmlCompiler.Uuid
import Mathlib

/-! # UUIDs read back -/
namespace DmlCompiler.Uuid

open Text

theorem length_digits (u : Uuid) : u.digits.length = 32 := by simp [digits]

theorem hexNumber?_digits (u : Uuid) : hexNumber? u.digits = some u.value.toNat := by
  -- so many digits are read as the number without the digits behind them
  have front (k : Nat) (hk : k ≤ 32) :
      hexNumber? ((List.range k).map fun i => hexDigit (u.value.toNat / 16 ^ (31 - i))) =
        some (u.value.toNat / 16 ^ (32 - k)) := by
    induction k with
    | zero =>
      have bound : u.value.toNat / 16 ^ 32 = 0 := Nat.div_eq_of_lt u.value.isLt
      rw [Nat.sub_zero, bound]
      rfl
    | succ k ih =>
      have shorter : 16 ^ (32 - k) = 16 ^ (31 - k) * 16 := by
        rw [← Nat.pow_succ]
        congr 1
        omega
      rw [List.range_succ, List.map_append, List.map_singleton, hexNumber?_append, ih (by omega),
        Option.map_some, shorter, ← Nat.div_div_eq_div_mul, Nat.div_add_mod']
      congr 3
      omega
  have all := front 32 (Nat.le_refl 32)
  rwa [Nat.sub_self, Nat.pow_zero, Nat.div_one] at all

theorem ofDigits?_digits (u : Uuid) : ofDigits? u.digits = some u := by
  rw [ofDigits?, if_pos (length_digits u), hexNumber?_digits, Option.map_some,
    BitVec.ofNat_toNat, BitVec.setWidth_eq]

theorem join?_hyphenate (sizes : List Nat) (s : List Char) (enough : sizes.sum ≤ s.length) :
    join? sizes (hyphenate sizes s) = some s := by
  induction sizes generalizing s with
  | nil => rfl
  | cons size sizes ih =>
    cases sizes with
    | nil => rfl
    | cons next sizes =>
      rw [List.sum_cons] at enough
      have first : (s.take size).length = size := by rw [List.length_take]; omega
      have behind := ih (s.drop size) (by rw [List.length_drop]; omega)
      rw [hyphenate, join?, List.drop_left' first, List.take_left' first]
      simp [behind]

theorem length_hyphenate (sizes : List Nat) (s : List Char) (enough : sizes.sum ≤ s.length) :
    (hyphenate sizes s).length = s.length + (sizes.length - 1) := by
  induction sizes generalizing s with
  | nil => rfl
  | cons size sizes ih =>
    cases sizes with
    | nil => rfl
    | cons next sizes =>
      rw [List.sum_cons] at enough
      have behind := ih (s.drop size) (by rw [List.length_drop]; omega)
      rw [List.length_drop, List.length_cons] at behind
      rw [hyphenate, List.length_append, List.length_take, List.length_cons, behind,
        List.length_cons, List.length_cons]
      omega

/-- A digit opens neither of the longer forms. -/
theorem hyphenate_digits (u : Uuid) :
    ∃ c rest, hyphenate groups u.digits = c :: rest ∧ c ≠ '\x7b' ∧ c ≠ 'u' := by
  have plain : ∀ k < 16, Nat.digitChar k ≠ '\x7b' ∧ Nat.digitChar k ≠ 'u' := by decide
  exact ⟨_, _, rfl, plain _ (Nat.mod_lt _ (by decide))⟩

/-- A UUID is read from its text. -/
theorem ofText?_text (u : Uuid) : ofText? u.text = some u := by
  have sizes : groups.sum ≤ u.digits.length := by
    rw [length_digits]
    decide
  have joined : ofGroups? (hyphenate groups u.digits) = some u := by
    rw [ofGroups?, join?_hyphenate _ _ sizes, Option.bind_some, ofDigits?_digits]
  have longer : ofDigits? (hyphenate groups u.digits) = none := by
    rw [ofDigits?, if_neg]
    rw [length_hyphenate _ _ sizes, length_digits]
    decide
  obtain ⟨c, rest, text, brace, urn⟩ := hyphenate_digits u
  rw [ofText?, Uuid.text, String.toList_ofList]
  split
  · next eq => exact (brace (List.cons.inj (text.symm.trans eq)).1).elim
  · next eq => exact (urn (List.cons.inj (text.symm.trans eq)).1).elim
  · rw [longer, joined]
    rfl

end DmlCompiler.Uuid
