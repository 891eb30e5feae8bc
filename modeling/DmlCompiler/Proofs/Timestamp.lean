import DmlCompiler.Proofs.Digits
import DmlCompiler.Timestamp.Reader

/-! # Timestamps read back

The text of a timestamp is read as the timestamp, part by part. The loose reader would take more
digits than there are nowhere: behind each number stands a mark or nothing. -/
namespace DmlCompiler

open Text

theorem Date.of?_self (d : Date) : Date.of? d.year d.month d.day = some d := by
  rw [Date.of?, dif_pos d.valid]

theorem Date.month_lt (d : Date) : d.month < 10 ^ 2 := by
  by_contra large
  have none : daysInMonth d.year d.month = 0 := by
    unfold daysInMonth
    split <;> omega
  have valid := d.valid
  omega

theorem Date.day_lt (d : Date) : d.day < 10 ^ 2 := by
  have most : daysInMonth d.year d.month ≤ 31 := by
    unfold daysInMonth
    split <;> first | omega | (split <;> omega)
  have valid := d.valid
  omega

theorem TimeOfDay.of?_self (t : TimeOfDay) :
    TimeOfDay.of? t.hour t.minute t.second t.nanosecond = some t := by
  rw [TimeOfDay.of?, dif_pos t.valid]

namespace Timestamp

variable {rest : List Char}

/-- A local time that is no time ahead is the time itself. -/
theorem ofLocal?_zero (date : Date) (time : TimeOfDay) : ofLocal? date time 0 = some ⟨date, time⟩ := by
  obtain ⟨hour, minute, _, _⟩ := time.valid
  have sum : ((time.hour * 60 + time.minute : Int) - 0).toNat = time.hour * 60 + time.minute := by
    omega
  have hours : (time.hour * 60 + time.minute) / 60 = time.hour := by omega
  have minutes : (time.hour * 60 + time.minute) % 60 = time.minute := by omega
  unfold ofLocal?
  dsimp only
  rw [if_neg (by omega), if_neg (by omega), sum, hours, minutes, TimeOfDay.of?_self]
  rfl

section Parts

theorem isBlank_of_isDigit {c : Char} (h : isDigit c = true) : isBlank c = false := by
  simp only [isDigit, Bool.and_eq_true, decide_eq_true_eq, Char.le_def, UInt32.le_iff_toNat_le] at h
  have low : 48 ≤ c.toNat := h.1
  have high : c.toNat ≤ 57 := h.2
  simp only [isBlank, Bool.or_eq_false_iff, Bool.and_eq_false_iff, decide_eq_false_iff_not,
    beq_eq_false_iff_ne]
  omega

theorem trimStart_cons {c : Char} (h : isBlank c = false) : trimStart (c :: rest) = c :: rest := by
  simp [trimStart, h]

theorem padded_head (width n : Nat) : ∃ c tail, padded width n = c :: tail ∧ isDigit c = true := by
  cases text : padded width n with
  | nil => exact absurd text (padded_ne_nil width n)
  | cons c tail => exact ⟨c, tail, rfl, isDigit_of_padded (by rw [text]; simp)⟩

theorem trimStart_padded (width n : Nat) :
    trimStart (padded width n ++ rest) = padded width n ++ rest := by
  obtain ⟨c, tail, text, digit⟩ := padded_head width n
  rw [text]
  exact trimStart_cons (isBlank_of_isDigit digit)

theorem loosePart?_padded {n : Nat} (mark : Char) (visible : isBlank mark = false)
    (small : n < 10 ^ 2) (rest : List Char) :
    loosePart? mark (mark :: (padded 2 n ++ rest)) = some (n, rest) := by
  have behind : expect? mark (mark :: (padded 2 n ++ rest)) = some (padded 2 n ++ rest) :=
    if_pos rfl
  rw [loosePart?, trimStart_cons visible, behind]
  exact (congrArg _ (trimStart_padded 2 n)).trans (number?_padded (by decide) (by decide) small rest)

theorem looseYear?_writeYear (year : Int) (rest : List Char) :
    looseYear? (writeYear year ++ '-' :: rest) = some (year, '-' :: rest) := by
  have digits (n : Nat) : digits1 (padded 4 n ++ '-' :: rest) = some (padded 4 n, '-' :: rest) :=
    digits1_append (fun _ => isDigit_of_padded) (padded_ne_nil 4 n) (EndsNumber.cons rfl)
  unfold writeYear
  split
  · next plain =>
    have read : number? 1 4 (padded 4 year.toNat ++ '-' :: rest) = some (year.toNat, '-' :: rest) :=
      number?_padded (by decide) (by decide) (by omega) _
    obtain ⟨c, tail, text, digit⟩ := padded_head 4 year.toNat
    rw [text, List.cons_append] at read ⊢
    unfold looseYear?
    split
    · next eq => cases eq; cases digit
    · next eq => cases eq; cases digit
    · rw [read, Option.map_some]
      exact congrArg (fun year => some (year, '-' :: rest)) (Int.toNat_of_nonneg plain.1)
  · split
    · rw [List.cons_append]
      simp only [looseYear?, digits, Option.map_some, digitsValue_padded]
      congr 2
      omega
    · rw [List.cons_append]
      simp only [looseYear?, digits, Option.map_some, digitsValue_padded]
      congr 2
      omega

theorem trimStart_writeYear (year : Int) :
    trimStart (writeYear year ++ rest) = writeYear year ++ rest := by
  unfold writeYear
  split
  · exact trimStart_padded 4 _
  · split <;> exact trimStart_cons rfl

theorem fraction?_padded {places count : Nat} (some : 0 < places) (few : places ≤ 9)
    (small : count < 10 ^ places) (ends : EndsNumber rest) :
    fraction? ('.' :: (padded places count ++ rest)) = .some (count * 10 ^ (9 - places), rest) := by
  have read : digits1 (padded places count ++ rest) = .some (padded places count, rest) :=
    digits1_append (fun _ => isDigit_of_padded) (padded_ne_nil places count) ends
  have length := length_padded some small
  have whole : (padded places count).take 9 = padded places count :=
    List.take_of_length_le (by omega)
  simp only [fraction?, read, Option.bind_eq_bind, Option.bind_some, whole, digitsValue_padded,
    length]
  rfl

theorem fraction?_writeFraction {nanosecond : Nat} (small : nanosecond < 10 ^ 9) :
    fraction? (writeFraction nanosecond ++ ['Z']) = some (nanosecond, ['Z']) := by
  have ends : EndsNumber ['Z'] := EndsNumber.cons rfl
  unfold writeFraction
  split
  · next zero =>
    rw [zero]
    rfl
  split
  · next milli =>
    rw [List.cons_append, fraction?_padded (by decide) (by decide) (by omega) ends,
      Nat.div_mul_cancel (Nat.dvd_of_mod_eq_zero milli)]
  split
  · next micro =>
    rw [List.cons_append, fraction?_padded (by decide) (by decide) (by omega) ends,
      Nat.div_mul_cancel (Nat.dvd_of_mod_eq_zero micro)]
  · rw [List.cons_append, fraction?_padded (by decide) (by decide) small ends, Nat.sub_self,
      Nat.pow_zero, Nat.mul_one]

end Parts

theorem looseDate?_write (d : Date) (rest : List Char) :
    looseDate? (writeYear d.year ++ '-' :: (padded 2 d.month ++ '-' :: (padded 2 d.day ++ rest))) =
      some (d, rest) := by
  have months := loosePart?_padded '-' rfl d.month_lt
  have days := loosePart?_padded '-' rfl d.day_lt
  unfold looseDate?
  rw [trimStart_writeYear, looseYear?_writeYear]
  simp only [Option.bind_eq_bind, Option.bind_some, months, days, Date.of?_self]
  rfl

theorem looseTime?_write (t : TimeOfDay) :
    looseTime? (padded 2 t.hour ++ ':' :: (padded 2 t.minute ++ ':' :: (padded 2 t.second ++
      (writeFraction t.nanosecond ++ ['Z'])))) = some (t, ['Z']) := by
  obtain ⟨hour, minute, second, nanosecond⟩ := t.valid
  have hours := number?_padded (by decide : 1 ≤ 2) (by decide) (by omega : t.hour < 10 ^ 2)
  have minutes := loosePart?_padded ':' rfl (by omega : t.minute < 10 ^ 2)
  have seconds := loosePart?_padded ':' rfl (by omega : t.second < 10 ^ 2)
  have zone : trimStart ['Z'] = ['Z'] := trimStart_cons rfl
  unfold looseTime?
  rw [trimStart_padded, hours]
  simp only [Option.bind_eq_bind, Option.bind_some, minutes, seconds,
    fraction?_writeFraction nanosecond, TimeOfDay.of?_self, zone]
  rfl

/-- A timestamp is read from its text. -/
theorem ofText?_text (t : Timestamp) : ofText? t.text = some t := by
  have zone : looseOffset? ['Z'] = some (0, []) := rfl
  have text : t.text.toList = writeYear t.date.year ++ '-' :: (padded 2 t.date.month ++ '-' ::
      (padded 2 t.date.day ++ 'T' :: (padded 2 t.time.hour ++ ':' :: (padded 2 t.time.minute ++
        ':' :: (padded 2 t.time.second ++ (writeFraction t.time.nanosecond ++ ['Z'])))))) := by
    simp [Timestamp.text, write]
  rw [ofText?, text, looseDate?_write]
  simp only [Option.bind_eq_bind, Option.bind_some, separator?, looseTime?_write, zone]
  exact ofLocal?_zero t.date t.time

end Timestamp
end DmlCompiler
