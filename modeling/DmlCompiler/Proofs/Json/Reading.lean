import DmlCompiler.Proofs.Json.Leaves
import DmlCompiler.Proofs.Json.Tokens

/-! # Documents read back

The text of a document is read as the document, with null for the numbers that are not finite. What
is taken for granted of a finite number is that its own text reads back as the number. -/
namespace DmlCompiler

open Json Text

/-- The text of the number is read as the number. -/
def Binary64.ReadsBack (x : Binary64) : Prop :=
  numeral (numberLayout.writeNumber x) = some (.float x, [])

instance (x : Binary64) : Decidable x.ReadsBack := inferInstanceAs (Decidable (_ = _))

-- five times the 135th power of ten is rounded twice and becomes a number beside it
example : ¬ Binary64.ReadsBack ⟨0x5C1B843422E3A84D⟩ := by decide +kernel

namespace Json

mutual

def written : Json → Json
  | .float x => if x.isFinite then .float x else .null
  | .array items => .array (writtenItems items)
  | .object fields => .object (writtenFields fields)
  | .unreadable => .null
  | value => value

def writtenItems : List Json → List Json
  | [] => []
  | x :: xs => x.written :: writtenItems xs

def writtenFields : List (String × Json) → List (String × Json)
  | [] => []
  | (name, x) :: xs => (name, x.written) :: writtenFields xs

end

/-- An integer keeps to 64 bits, and a finite number reads back. -/
def PrintsLeaf : Json → Prop
  | .integer n => -2 ^ 63 ≤ n ∧ n < 2 ^ 64
  | .float x => x.isFinite = true → x.ReadsBack
  | _ => True

def Prints (x : Json) : Prop := x.AllLeaves PrintsLeaf

section Front

def BeginsNumber (s : List Char) : Prop := ∃ c rest, s = c :: rest ∧ (c = '-' ∨ isDigit c = true)

def BeginsValue (s : List Char) : Prop :=
  ∃ c rest, s = c :: rest ∧ isBlank c = false ∧ c ≠ ']' ∧ c ≠ '\x7d'

variable {s rest : List Char}

theorem beginsNumber_of_numeral {value : Json} (read : numeral s = some (value, rest)) :
    BeginsNumber s := by
  unfold numeral at read
  split at read
  · exact ⟨_, _, rfl, .inl rfl⟩
  · simp only [unsigned, Option.bind_eq_bind, Option.bind_eq_some_iff] at read
    obtain ⟨⟨whole, left⟩, first, _⟩ := read
    unfold wholePart at first
    split at first
    · exact ⟨_, _, rfl, .inr rfl⟩
    · unfold digits1 at first
      rw [List.span_eq_takeWhile_dropWhile] at first
      cases s with
      | nil => cases first
      | cons c s =>
        refine ⟨c, s, rfl, .inr ?_⟩
        by_contra other
        simp [other] at first

theorem BeginsNumber.value (h : BeginsNumber s) (fuel : Nat) :
    Json.value (fuel + 1) s = numeral s := by
  obtain ⟨c, rest, rfl, first⟩ := h
  have other (d : Char) (sign : d ≠ '-') (digit : isDigit d = false) : c ≠ d := by
    rintro rfl
    rcases first with rfl | first
    · exact sign rfl
    · rw [digit] at first
      cases first
  rw [Json.value.eq_def]
  dsimp only
  split
  · next eq => exact (other 'n' (by decide) rfl (List.cons.inj eq).1).elim
  · next eq => exact (other 't' (by decide) rfl (List.cons.inj eq).1).elim
  · next eq => exact (other 'f' (by decide) rfl (List.cons.inj eq).1).elim
  · next eq => exact (other '"' (by decide) rfl (List.cons.inj eq).1).elim
  · next eq => exact (other '[' (by decide) rfl (List.cons.inj eq).1).elim
  · next eq => exact (other '\x7b' (by decide) rfl (List.cons.inj eq).1).elim
  · rfl

theorem BeginsValue.skip (h : BeginsValue s) : skipBlanks s = s := by
  obtain ⟨c, rest, rfl, blank, _⟩ := h
  simp [skipBlanks, blank]

theorem BeginsValue.append (h : BeginsValue s) (rest : List Char) : BeginsValue (s ++ rest) := by
  obtain ⟨c, behind, rfl, plain⟩ := h
  exact ⟨c, behind ++ rest, rfl, plain⟩

theorem BeginsNumber.beginsValue (h : BeginsNumber s) : BeginsValue s := by
  obtain ⟨c, rest, rfl, first⟩ := h
  have other (d : Char) (sign : d ≠ '-') (digit : isDigit d = false) : c ≠ d := by
    rintro rfl
    rcases first with rfl | first
    · exact sign rfl
    · rw [digit] at first
      cases first
  refine ⟨c, rest, rfl, ?_, other ']' (by decide) rfl, other '\x7d' (by decide) rfl⟩
  simp [isBlank, other ' ' (by decide) rfl, other '\t' (by decide) rfl,
    other '\n' (by decide) rfl, other '\r' (by decide) rfl]

end Front

variable {rest : List Char}

theorem value_number {x y : Json} (reads : numeral x.write = some (y, [])) (fuel : Nat)
    (ends : EndsLiteral rest) : value (fuel + 1) (x.write ++ rest) = some (y, rest) := by
  have extended := numeral_extend reads ends
  rw [(beginsNumber_of_numeral extended).value]
  simpa using extended

theorem numeral_write_float {x : Binary64} (finite : x.isFinite = true) (h : x.ReadsBack) :
    numeral (Json.float x).write = some (.float x, []) := by
  rw [write, if_pos finite]
  exact h

theorem beginsValue_write : ∀ {x : Json}, x.Prints → BeginsValue x.write
  | .null, _ | .unreadable, _ => ⟨_, _, rfl, rfl, by decide, by decide⟩
  | .bool true, _ | .bool false, _ => ⟨_, _, rfl, rfl, by decide, by decide⟩
  | .integer n, h => by
    obtain ⟨low, high⟩ : (Json.integer n).PrintsLeaf := h _ (List.mem_singleton.2 rfl)
    exact (beginsNumber_of_numeral (numeral_writeInteger low high)).beginsValue
  | .float x, h => by
    by_cases finite : x.isFinite = true
    · have reads : (Json.float x).PrintsLeaf := h _ (List.mem_singleton.2 rfl)
      exact (beginsNumber_of_numeral (numeral_write_float finite (reads finite))).beginsValue
    · rw [write, if_neg finite]
      exact ⟨_, _, rfl, rfl, by decide, by decide⟩
  | .string s, _ => ⟨_, _, rfl, rfl, by decide, by decide⟩
  | .array [], _ | .array (_ :: _), _ => ⟨_, _, rfl, rfl, by decide, by decide⟩
  | .object [], _ | .object (_ :: _), _ => ⟨_, _, rfl, rfl, by decide, by decide⟩

def itemsText : List Json → List Char
  | [] => [']']
  | x :: xs => x.write ++ writeItems xs

def fieldsText : List (String × Json) → List Char
  | [] => ['\x7d']
  | (name, x) :: xs => quote name ++ ':' :: x.write ++ writeFields xs

theorem write_array (items : List Json) : (Json.array items).write = '[' :: itemsText items := by
  cases items <;> rfl

theorem write_object (fields : List (String × Json)) :
    (Json.object fields).write = '\x7b' :: fieldsText fields := by
  cases fields with
  | nil => rfl
  | cons field fields => simp [write, fieldsText]

theorem value_quote (fuel : Nat) (s : List Char) : value (fuel + 1) ('"' :: s) =
    (stringTail (some []) s).map fun (s, rest) => (s.elim .unreadable .string, rest) := rfl

theorem stringTail_quoted (s : String) (rest : List Char) :
    stringTail (some []) (s.toList.flatMap escape ++ '"' :: rest) = some (some s, rest) := by
  rw [stringTail_escaped]
  simp

theorem value_items {fuel : Nat} {s : List Char} (first : BeginsValue s) :
    value (fuel + 1) ('[' :: s) = (items fuel s).map fun read => (.array read.1, read.2) := by
  have skipped := first.skip
  obtain ⟨c, behind, rfl, _, other, _⟩ := first
  rw [value.eq_def]
  dsimp only
  split
  · next eq => cases eq
  · next eq => cases eq
  · next eq => cases eq
  · next eq => cases eq
  · next eq =>
    cases eq
    rw [skipped]
    split
    · next eq => exact (other (List.cons.inj eq).1).elim
    · cases items fuel (c :: behind) <;> rfl
  · next eq => cases eq
  · next bracket _ => exact (bracket _ rfl).elim

theorem value_fields {fuel : Nat} {s : List Char} : value (fuel + 1) ('\x7b' :: '"' :: s) =
    (fields fuel ('"' :: s)).map fun read => (read.1.elim .unreadable .object, read.2) := by
  have skipped : skipBlanks ('"' :: s) = '"' :: s := rfl
  rw [value.eq_def]
  dsimp only
  split
  · next eq => cases eq
  · next eq => cases eq
  · next eq => cases eq
  · next eq => cases eq
  · next eq => cases eq
  · next eq =>
    cases eq
    rw [skipped]
    split
    · next eq => cases eq
    · cases fields fuel ('"' :: s) <;> rfl
  · next brace => exact (brace _ rfl).elim

section Steps

variable {fuel : Nat} {name : String} {s rest behind : List Char} {x : Json}

theorem items_last (read : value fuel s = some (x, ']' :: rest)) :
    items (fuel + 1) s = some ([x], rest) := by
  have bracket : skipBlanks (']' :: rest) = ']' :: rest := rfl
  rw [items.eq_def]
  simp only [read, bracket]

theorem items_more {xs : List Json} (read : value fuel s = some (x, ',' :: behind))
    (first : BeginsValue behind) (more : items fuel behind = some (xs, rest)) :
    items (fuel + 1) s = some (x :: xs, rest) := by
  have comma : skipBlanks (',' :: behind) = ',' :: behind := rfl
  rw [items.eq_def]
  simp only [read, comma, first.skip, more]

theorem fields_quoted : fields (fuel + 1) (quote name ++ ':' :: s) =
    fields (fuel + 1) ('"' :: (name.toList.flatMap escape ++ '"' :: ':' :: s)) := by
  simp [quote]

theorem fields_last (first : BeginsValue s) (read : value fuel s = some (x, '\x7d' :: rest)) :
    fields (fuel + 1) (quote name ++ ':' :: s) = some (some [(name, x)], rest) := by
  have colon : skipBlanks (':' :: s) = ':' :: s := rfl
  have brace : skipBlanks ('\x7d' :: rest) = '\x7d' :: rest := rfl
  rw [fields_quoted, fields.eq_def]
  simp only [stringTail_quoted, colon, first.skip, read, brace]
  rfl

theorem fields_more {xs : List (String × Json)} (first : BeginsValue s)
    (read : value fuel s = some (x, ',' :: '"' :: behind))
    (more : fields fuel ('"' :: behind) = some (some xs, rest)) :
    fields (fuel + 1) (quote name ++ ':' :: s) = some (some ((name, x) :: xs), rest) := by
  have colon : skipBlanks (':' :: s) = ':' :: s := rfl
  have comma : skipBlanks (',' :: '"' :: behind) = ',' :: '"' :: behind := rfl
  have further : skipBlanks ('"' :: behind) = '"' :: behind := rfl
  rw [fields_quoted, fields.eq_def]
  simp only [stringTail_quoted, colon, first.skip, read, comma, further, more]
  rfl

end Steps

theorem writeItems_cons (x : Json) (xs : List Json) :
    writeItems (x :: xs) = ',' :: itemsText (x :: xs) := rfl

theorem writeFields_cons (field : String × Json) (fields : List (String × Json)) :
    writeFields (field :: fields) = ',' :: fieldsText (field :: fields) := by
  simp [writeFields, fieldsText]

/-- Neither a bracket nor a comma goes on a number. -/
theorem endsLiteral_writeItems (xs : List Json) (rest : List Char) :
    EndsLiteral (writeItems xs ++ rest) := by
  intro c hc
  cases xs <;> cases hc <;> decide

theorem endsLiteral_writeFields (fields : List (String × Json)) (rest : List Char) :
    EndsLiteral (writeFields fields ++ rest) := by
  intro c hc
  cases fields <;> cases hc <;> decide

mutual

/-- What is written for a value is read, and nothing of what stands behind it. -/
theorem value_write : ∀ {x : Json}, x.Prints → ∀ {fuel : Nat} {rest : List Char},
    x.write.length < fuel → EndsLiteral rest → value fuel (x.write ++ rest) = some (x.written, rest)
  | _, _, 0, _, short, _ => (Nat.not_lt_zero _ short).elim
  | .null, _, fuel + 1, rest, _, _ => rfl
  | .unreadable, _, fuel + 1, rest, _, _ => rfl
  | .bool true, _, fuel + 1, rest, _, _ => rfl
  | .bool false, _, fuel + 1, rest, _, _ => rfl
  | .integer n, h, fuel + 1, rest, _, ends => by
    obtain ⟨low, high⟩ : (Json.integer n).PrintsLeaf := h _ (List.mem_singleton.2 rfl)
    exact value_number (x := .integer n) (numeral_writeInteger low high) fuel ends
  | .float x, h, fuel + 1, rest, _, ends => by
    by_cases finite : x.isFinite = true
    · have reads : (Json.float x).PrintsLeaf := h _ (List.mem_singleton.2 rfl)
      rw [written, if_pos finite]
      exact value_number (numeral_write_float finite (reads finite)) fuel ends
    · rw [write, if_neg finite, written, if_neg finite]
      rfl
  | .string s, _, fuel + 1, rest, _, _ => by
    have text : (Json.string s).write ++ rest = '"' :: (s.toList.flatMap escape ++ '"' :: rest) := by
      simp [write, quote]
    rw [text, value_quote, stringTail_quoted]
    rfl
  | .array [], _, fuel + 1, rest, _, _ => rfl
  | .object [], _, fuel + 1, rest, _, _ => rfl
  | .array (x :: xs), h, fuel + 1, rest, short, _ => by
    rw [write_array] at short ⊢
    have first : BeginsValue (itemsText (x :: xs) ++ rest) :=
      ((beginsValue_write (List.forall_mem_append.1 h).1).append _).append _
    have read := items_write h (List.cons_ne_nil x xs) (Nat.lt_of_succ_lt_succ short) rest
    rw [List.cons_append, value_items first, read]
    rfl
  | .object ((name, x) :: xs), h, fuel + 1, rest, short, _ => by
    rw [write_object] at short ⊢
    have read := fields_write h (List.cons_ne_nil (name, x) xs) (Nat.lt_of_succ_lt_succ short) rest
    have opens : fieldsText ((name, x) :: xs) ++ rest = '"' :: (name.toList.flatMap escape ++
        '"' :: ':' :: (x.write ++ (writeFields xs ++ rest))) := by
      simp [fieldsText, quote]
    rw [opens] at read
    rw [List.cons_append, opens, value_fields, read]
    rfl

theorem items_write : ∀ {xs : List Json}, (∀ leaf ∈ itemLeaves xs, leaf.PrintsLeaf) → xs ≠ [] →
    ∀ {fuel : Nat}, (itemsText xs).length < fuel → ∀ rest : List Char,
      items fuel (itemsText xs ++ rest) = some (writtenItems xs, rest)
  | [], _, nonempty, _, _, _ => absurd rfl nonempty
  | x :: xs, h, _, 0, short, _ => (Nat.not_lt_zero _ short).elim
  | x :: xs, h, _, fuel + 1, short, rest => by
    obtain ⟨here, behind⟩ := List.forall_mem_append.1 h
    rw [itemsText, List.length_append] at short
    have longer : 0 < (writeItems xs).length := by cases xs <;> simp [writeItems]
    have shorter : x.write.length < fuel := by omega
    have read := value_write here shorter (endsLiteral_writeItems xs rest)
    rw [itemsText, List.append_assoc]
    cases xs with
    | nil => exact items_last read
    | cons y ys =>
      have first : BeginsValue (itemsText (y :: ys) ++ rest) :=
        ((beginsValue_write (List.forall_mem_append.1 behind).1).append _).append _
      rw [writeItems_cons, List.length_cons] at short
      have fits : (itemsText (y :: ys)).length < fuel := by omega
      exact items_more read first (items_write behind (by simp) fits rest)

theorem fields_write : ∀ {xs : List (String × Json)},
    (∀ leaf ∈ fieldLeaves xs, leaf.PrintsLeaf) → xs ≠ [] →
    ∀ {fuel : Nat}, (fieldsText xs).length < fuel → ∀ rest : List Char,
      fields fuel (fieldsText xs ++ rest) = some (some (writtenFields xs), rest)
  | [], _, nonempty, _, _, _ => absurd rfl nonempty
  | (name, x) :: xs, h, _, 0, short, _ => (Nat.not_lt_zero _ short).elim
  | (name, x) :: xs, h, _, fuel + 1, short, rest => by
    obtain ⟨here, behind⟩ := List.forall_mem_append.1 h
    have text : fieldsText ((name, x) :: xs) ++ rest =
        quote name ++ ':' :: (x.write ++ (writeFields xs ++ rest)) := by
      simp [fieldsText]
    have size : (fieldsText ((name, x) :: xs)).length =
        (quote name).length + (x.write.length + (writeFields xs).length + 1) := by
      simp [fieldsText]
    rw [size] at short
    have shorter : x.write.length < fuel := by omega
    have first := (beginsValue_write here).append (writeFields xs ++ rest)
    have read := value_write here shorter (endsLiteral_writeFields xs rest)
    rw [text]
    cases xs with
    | nil => exact fields_last first read
    | cons field fields =>
      rw [writeFields_cons, List.length_cons] at short
      have fits : (fieldsText (field :: fields)).length < fuel := by omega
      rw [writeFields_cons] at read first ⊢
      exact fields_more first read (fields_write behind (by simp) fits rest)

end

theorem parse?_text {x : Json} (h : x.Prints) : parse? x.text = some x.written := by
  have ends : EndsLiteral [] := nofun
  have read := value_write h (Nat.lt_succ_self _) ends
  rw [List.append_nil] at read
  have begins := (beginsValue_write h).skip
  unfold parse? text
  dsimp only
  rw [String.toList_ofList, begins, read]
  rfl

end Json
end DmlCompiler
