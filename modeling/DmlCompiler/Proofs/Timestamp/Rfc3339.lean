import DmlCompiler.Proofs.Timestamp
import DmlCompiler.Proofs.Timestamp.Instants

/-! # The texts of RFC 3339

A text is read as a timestamp exactly if it is put together from the parts that RFC 3339 names, and
the timestamp is the instant that the parts tell, to the nanosecond. -/
namespace DmlCompiler

open Text

/-- How far a clock is ahead of UTC, as it is written: by a letter, or by hours and minutes. The
minus sign may be that of typography. -/
inductive Zone where
  | utc (letter : Char) (isLetter : letter = 'Z' ∨ letter = 'z')
  | ahead (hours minutes : Nat) (isOffset : hours < 24 ∧ minutes < 60)
  | behind (sign : Char) (isMinus : sign = '-' ∨ sign = '\u2212') (hours minutes : Nat)
      (isOffset : hours < 24 ∧ minutes < 60)

namespace Zone

def write : Zone → List Char
  | utc letter _ => [letter]
  | ahead hours minutes _ => '+' :: (padded 2 hours ++ ':' :: padded 2 minutes)
  | behind sign _ hours minutes _ => sign :: (padded 2 hours ++ ':' :: padded 2 minutes)

/-- The minutes ahead of UTC. -/
def offset : Zone → Int
  | utc _ _ => 0
  | ahead hours minutes _ => hours * 60 + minutes
  | behind _ _ hours minutes _ => -(hours * 60 + minutes)

theorem offset_lt (zone : Zone) : zone.offset.natAbs < 1440 := by
  cases zone <;> simp only [offset] <;> omega

end Zone

structure Rfc3339 where
  date : Date
  fourDigits : 0 ≤ date.year ∧ date.year ≤ 9999
  separator : Char
  isSeparator : separator = 'T' ∨ separator = 't' ∨ separator = ' '
  hour : Nat
  minute : Nat
  second : Nat
  isTime : hour < 24 ∧ minute < 60 ∧ second ≤ 60
  /-- The digits behind the point; without them there is no point. -/
  fraction : List Char
  areDigits : ∀ c ∈ fraction, isDigit c = true
  zone : Zone

namespace Rfc3339

def writeFraction : List Char → List Char
  | [] => []
  | digits => '.' :: digits

def write (p : Rfc3339) : List Char :=
  padded 4 p.date.year.toNat ++ '-' :: (padded 2 p.date.month ++ '-' :: (padded 2 p.date.day ++
    p.separator :: (padded 2 p.hour ++ ':' :: (padded 2 p.minute ++ ':' :: (padded 2 p.second ++
      (writeFraction p.fraction ++ p.zone.write))))))

def text (p : Rfc3339) : String := String.ofList p.write

/-- The nanoseconds that the digits behind the point tell; further digits are cut. -/
def nanosecond (p : Rfc3339) : Nat :=
  digitsValue p.fraction * 10 ^ 9 / 10 ^ p.fraction.length

def instant (p : Rfc3339) : Instant :=
  ⟨p.date.number * 1440 + p.hour * 60 + p.minute - p.zone.offset, p.second, p.nanosecond⟩

end Rfc3339

namespace Timestamp

variable {rest s : List Char}

theorem expect?_eq_some {c : Char} (h : expect? c s = some rest) : s = c :: rest := by
  unfold expect? at h
  split at h
  · split at h
    · next same => rw [same, Option.some.inj h]
    · cases h
  · cases h

theorem expect?_cons (c : Char) (rest : List Char) : expect? c (c :: rest) = some rest :=
  if_pos rfl

theorem separator?_eq_some (h : separator? s = some rest) :
    ∃ c, s = c :: rest ∧ (c = 'T' ∨ c = 't' ∨ c = ' ') := by
  unfold separator? at h
  split at h
  · cases h
    exact ⟨_, rfl, by simp⟩
  · cases h
    exact ⟨_, rfl, by simp⟩
  · cases h
    exact ⟨_, rfl, by simp⟩
  · cases h

theorem separator?_cons {c : Char} (h : c = 'T' ∨ c = 't' ∨ c = ' ') (rest : List Char) :
    separator? (c :: rest) = some rest := by
  rcases h with rfl | rfl | rfl <;> rfl

/-- Nine digits behind the point, or as many as there are, tell the nanoseconds. -/
theorem nanosecond_eq {digits : List Char} (all : ∀ c ∈ digits, isDigit c = true) :
    digitsValue (digits.take 9) * 10 ^ (9 - (digits.take 9).length) =
      digitsValue digits * 10 ^ 9 / 10 ^ digits.length := by
  by_cases few : digits.length ≤ 9
  · have exact : 10 ^ 9 = 10 ^ (9 - digits.length) * 10 ^ digits.length := by
      rw [← Nat.pow_add, Nat.sub_add_cancel few]
    rw [List.take_of_length_le few, exact, ← Nat.mul_assoc,
      Nat.mul_div_cancel _ (Nat.pow_pos (by decide))]
  · have length : (digits.take 9).length = 9 := by
      rw [List.length_take]
      omega
    have whole : digits.length = (digits.drop 9).length + 9 := by
      rw [List.length_drop]
      omega
    have cut : digitsValue (digits.drop 9) < 10 ^ (digits.drop 9).length :=
      digitsValue_lt fun c hc => all c (List.mem_of_mem_drop hc)
    have split := digitsValue_append (digits.take 9) (digits.drop 9)
    rw [List.take_append_drop] at split
    rw [length, Nat.sub_self, Nat.pow_zero, Nat.mul_one, whole, Nat.pow_add,
      Nat.mul_div_mul_right _ _ (Nat.pow_pos (by decide)), split, Nat.add_comm,
      Nat.add_mul_div_right _ _ (Nat.pow_pos (by decide)), Nat.div_eq_of_lt cut, Nat.zero_add]

theorem fraction?_eq_some {nanosecond : Nat} (h : fraction? s = some (nanosecond, rest)) :
    ∃ digits, s = Rfc3339.writeFraction digits ++ rest ∧ (∀ c ∈ digits, isDigit c = true) ∧
      nanosecond = digitsValue digits * 10 ^ 9 / 10 ^ digits.length := by
  unfold fraction? at h
  split at h
  · simp only [Option.bind_eq_bind, Option.bind_eq_some_iff, Prod.exists] at h
    obtain ⟨digits, behind, read, eq⟩ := h
    obtain ⟨rfl, rfl⟩ := Prod.mk.inj (Option.some.inj eq)
    obtain ⟨rfl, some, all⟩ := digits1_eq_some read
    refine ⟨digits, ?_, all, nanosecond_eq all⟩
    cases digits with
    | nil => exact absurd rfl some
    | cons c digits => rfl
  · obtain ⟨rfl, rfl⟩ := Prod.mk.inj (Option.some.inj h)
    exact ⟨[], rfl, List.forall_mem_nil _, rfl⟩

/-- Behind the digits, or where there are none, something else goes on. -/
theorem fraction?_write {digits : List Char} (all : ∀ c ∈ digits, isDigit c = true)
    (ends : EndsNumber rest) (noPoint : rest.head? ≠ some '.') :
    fraction? (Rfc3339.writeFraction digits ++ rest) =
      some (digitsValue digits * 10 ^ 9 / 10 ^ digits.length, rest) := by
  cases digits with
  | nil =>
    unfold fraction?
    split
    · next eq => exact absurd (congrArg List.head? eq) noPoint
    · rfl
  | cons c digits =>
    have read := digits1_append all (List.cons_ne_nil c digits) ends
    have point : Rfc3339.writeFraction (c :: digits) ++ rest = '.' :: (c :: digits ++ rest) := rfl
    rw [point, fraction?, read]
    simp only [Option.bind_eq_bind, Option.bind_some]
    rw [nanosecond_eq all]
    rfl

def IsSignOf (negative : Bool) (sign : Char) : Prop :=
  if negative then sign = '-' ∨ sign = '\u2212' else sign = '+'

theorem offset?_signed {negative : Bool} {sign : Char} (h : IsSignOf negative sign)
    (skip : List Char → Option (List Char)) (rest : List Char) :
    offset? skip (sign :: rest) = (do
      let (hours, rest) ← number? 2 2 rest
      let (minutes, rest) ← number? 2 2 (← skip rest)
      if minutes < 60 then
        let offset : Int := hours * 60 + minutes
        return (if negative then -offset else offset, rest)
      else none) := by
  cases negative with
  | false =>
    obtain rfl : sign = '+' := h
    rfl
  | true =>
    obtain rfl | rfl : sign = '-' ∨ sign = '\u2212' := h
    · rfl
    · rfl

theorem offset?_head {skip : List Char → Option (List Char)} {offset : Int × List Char}
    (h : offset? skip s = some offset) :
    (∃ letter, (letter = 'Z' ∨ letter = 'z') ∧ s = letter :: offset.2 ∧ offset.1 = 0) ∨
      ∃ negative sign behind, IsSignOf negative sign ∧ s = sign :: behind := by
  unfold offset? at h
  split at h
  · cases h
    exact .inl ⟨_, .inl rfl, rfl, rfl⟩
  · cases h
    exact .inl ⟨_, .inr rfl, rfl, rfl⟩
  · next sign behind _ _ =>
    right
    by_cases plus : sign = '+'
    · exact ⟨false, sign, behind, plus, rfl⟩
    by_cases minus : sign = '-' ∨ sign = '\u2212'
    · exact ⟨true, sign, behind, minus, rfl⟩
    · rw [if_neg plus, if_neg minus] at h
      cases h
  · cases h

theorem offset?_eq_some {offset : Int} (h : offset? (expect? ':') s = some (offset, rest))
    (small : offset.natAbs < 1440) :
    ∃ zone : Zone, s = zone.write ++ rest ∧ offset = zone.offset := by
  rcases offset?_head h with ⟨letter, isLetter, rfl, rfl⟩ | ⟨negative, sign, behind, signed, rfl⟩
  · exact ⟨.utc letter isLetter, rfl, rfl⟩
  rw [offset?_signed signed] at h
  simp only [Option.bind_eq_bind, Option.bind_eq_some_iff, Prod.exists] at h
  obtain ⟨hours, afterHours, readHours, afterColon, colon, minutes, afterMinutes, readMinutes,
    checked⟩ := h
  split at checked
  · next bounded =>
    obtain ⟨rfl, rfl⟩ := Prod.mk.inj (Option.some.inj checked)
    obtain ⟨rfl, _⟩ := number?_eq_some (by decide) readHours
    obtain rfl := expect?_eq_some colon
    obtain ⟨rfl, _⟩ := number?_eq_some (by decide) readMinutes
    cases negative with
    | false =>
      obtain rfl : sign = '+' := signed
      simp only [Bool.false_eq_true, if_false] at small ⊢
      exact ⟨.ahead hours minutes ⟨by omega, bounded⟩, by simp [Zone.write], rfl⟩
    | true =>
      simp only [if_true] at small ⊢
      exact ⟨.behind sign signed hours minutes ⟨by omega, bounded⟩, by simp [Zone.write], rfl⟩
  · cases checked

theorem offset?_write (zone : Zone) :
    offset? (expect? ':') zone.write = some (zone.offset, []) := by
  have clock {hours minutes : Nat} (isOffset : hours < 24 ∧ minutes < 60) :
      number? 2 2 (padded 2 hours ++ ':' :: padded 2 minutes) =
          some (hours, ':' :: padded 2 minutes) ∧
        number? 2 2 (padded 2 minutes) = some (minutes, []) := by
    refine ⟨number?_padded (by decide) (by decide) (by omega) _, ?_⟩
    have alone := number?_padded (by decide : 2 ≤ 2) (by decide) (by omega : minutes < 10 ^ 2) []
    rwa [List.append_nil] at alone
  cases zone with
  | utc letter isLetter => rcases isLetter with rfl | rfl <;> rfl
  | ahead hours minutes isOffset =>
    obtain ⟨first, second⟩ := clock isOffset
    have signed : IsSignOf false '+' := rfl
    simp only [Zone.write, offset?_signed signed, first, expect?, if_true, second, isOffset.2,
      Option.bind_eq_bind, Option.bind_some, Bool.false_eq_true, if_false]
    rfl
  | behind sign isMinus hours minutes isOffset =>
    obtain ⟨first, second⟩ := clock isOffset
    have signed : IsSignOf true sign := isMinus
    simp only [Zone.write, offset?_signed signed, first, expect?, if_true, second, isOffset.2,
      Option.bind_eq_bind, Option.bind_some]
    rfl

theorem zone_head (zone : Zone) : EndsNumber zone.write ∧ zone.write.head? ≠ some '.' := by
  cases zone with
  | utc letter isLetter =>
    rcases isLetter with rfl | rfl <;> exact ⟨EndsNumber.cons rfl, by simp [Zone.write]⟩
  | ahead hours minutes isOffset => exact ⟨EndsNumber.cons rfl, by simp [Zone.write]⟩
  | behind sign isMinus hours minutes isOffset =>
    rcases isMinus with rfl | rfl <;> exact ⟨EndsNumber.cons rfl, by simp [Zone.write]⟩

/-- What is read is put together from parts. -/
theorem exists_of_ofRfc3339? {s : String} {t : Timestamp} (h : ofRfc3339? s = some t) :
    ∃ p : Rfc3339, s = p.text := by
  unfold ofRfc3339? at h
  obtain ⟨⟨year, s₁⟩, readYear, h⟩ := Option.bind_eq_some_iff.1 h
  obtain ⟨s₂, dash, h⟩ := Option.bind_eq_some_iff.1 h
  obtain ⟨⟨month, s₃⟩, readMonth, h⟩ := Option.bind_eq_some_iff.1 h
  obtain ⟨s₄, dash', h⟩ := Option.bind_eq_some_iff.1 h
  obtain ⟨⟨day, s₅⟩, readDay, h⟩ := Option.bind_eq_some_iff.1 h
  obtain ⟨s₆, separated, h⟩ := Option.bind_eq_some_iff.1 h
  obtain ⟨⟨hour, s₇⟩, readHour, h⟩ := Option.bind_eq_some_iff.1 h
  obtain ⟨s₈, colon, h⟩ := Option.bind_eq_some_iff.1 h
  obtain ⟨⟨minute, s₉⟩, readMinute, h⟩ := Option.bind_eq_some_iff.1 h
  obtain ⟨s₁₀, colon', h⟩ := Option.bind_eq_some_iff.1 h
  obtain ⟨⟨second, s₁₁⟩, readSecond, h⟩ := Option.bind_eq_some_iff.1 h
  obtain ⟨⟨nanosecond, s₁₂⟩, readFraction, h⟩ := Option.bind_eq_some_iff.1 h
  obtain ⟨⟨offset, s₁₃⟩, readOffset, h⟩ := Option.bind_eq_some_iff.1 h
  dsimp only at h
  split at h
  · next whole =>
    obtain ⟨date, isDate, h⟩ := Option.bind_eq_some_iff.1 h
    obtain ⟨time, isTime, assembled⟩ := Option.bind_eq_some_iff.1 h
    obtain rfl : s₁₃ = [] := List.isEmpty_iff.1 whole
    have small : offset.natAbs < 1440 := by
      by_contra large
      rw [assemble?, if_neg large] at assembled
      cases assembled
    obtain ⟨zone, rfl, rfl⟩ := offset?_eq_some readOffset small
    obtain ⟨fraction, rfl, areDigits, rfl⟩ := fraction?_eq_some readFraction
    obtain ⟨rfl, _⟩ := number?_eq_some (by decide) readSecond
    obtain rfl := expect?_eq_some colon'
    obtain ⟨rfl, _⟩ := number?_eq_some (by decide) readMinute
    obtain rfl := expect?_eq_some colon
    obtain ⟨rfl, _⟩ := number?_eq_some (by decide) readHour
    obtain ⟨separator, rfl, isSeparator⟩ := separator?_eq_some separated
    obtain ⟨rfl, _⟩ := number?_eq_some (by decide) readDay
    obtain rfl := expect?_eq_some dash'
    obtain ⟨rfl, _⟩ := number?_eq_some (by decide) readMonth
    obtain rfl := expect?_eq_some dash
    obtain ⟨written, fourDigits⟩ := number?_eq_some (by decide) readYear
    unfold Date.of? at isDate
    split at isDate
    · next isOne =>
      obtain rfl := Option.some.inj isDate
      unfold TimeOfDay.of? at isTime
      split at isTime
      · next valid =>
        refine ⟨⟨⟨year, month, day, isOne⟩, ⟨Int.natCast_nonneg _, ?_⟩, separator, isSeparator,
          hour, minute, second, ⟨valid.1, valid.2.1, valid.2.2.1⟩, fraction, areDigits, zone⟩, ?_⟩
        · dsimp only
          omega
        · rw [← String.toList_inj, written]
          simp [Rfc3339.text, Rfc3339.write]
      · cases isTime
    · cases isDate
  · cases h

/-- Whatever parts there are, their text is read as the instant that they tell. -/
theorem ofRfc3339?_text (p : Rfc3339) :
    ∃ t, ofRfc3339? p.text = some t ∧ t.instant = p.instant := by
  obtain ⟨hour, minute, second⟩ := p.isTime
  have read {n : Nat} (small : n < 10 ^ 2) (rest : List Char) :
      number? 2 2 (padded 2 n ++ rest) = some (n, rest) :=
    number?_padded (by decide) (by decide) small rest
  have year (rest : List Char) : number? 4 4 (padded 4 p.date.year.toNat ++ rest) =
      some (p.date.year.toNat, rest) :=
    number?_padded (by decide) (by decide) (by have bounds := p.fourDigits; omega) rest
  obtain ⟨ends, noPoint⟩ := zone_head p.zone
  have nanosecond : p.nanosecond < 10 ^ 9 := by
    unfold Rfc3339.nanosecond
    rw [Nat.div_lt_iff_lt_mul (Nat.pow_pos (by decide)), Nat.mul_comm]
    exact Nat.mul_lt_mul_of_pos_left (digitsValue_lt p.areDigits) (by decide)
  let time : TimeOfDay :=
    ⟨p.hour, p.minute, p.second, p.nanosecond, hour, minute, second, nanosecond⟩
  have isTime : TimeOfDay.of? p.hour p.minute p.second p.nanosecond = some time := time.of?_self
  have isDate : Date.of? (p.date.year.toNat : Int) p.date.month p.date.day = some p.date := by
    rw [Int.toNat_of_nonneg p.fourDigits.1]
    exact p.date.of?_self
  obtain ⟨t, found, instant⟩ := ofLocal?_instant p.date time
    (by have bounds := p.fourDigits; omega) p.zone.offset_lt
  refine ⟨t, ?_, instant⟩
  unfold ofRfc3339?
  rw [Rfc3339.text, String.toList_ofList, Rfc3339.write]
  refine Option.bind_eq_some_iff.2 ⟨_, year _, ?_⟩
  refine Option.bind_eq_some_iff.2 ⟨_, expect?_cons _ _, ?_⟩
  refine Option.bind_eq_some_iff.2 ⟨_, read p.date.month_lt _, ?_⟩
  refine Option.bind_eq_some_iff.2 ⟨_, expect?_cons _ _, ?_⟩
  refine Option.bind_eq_some_iff.2 ⟨_, read p.date.day_lt _, ?_⟩
  refine Option.bind_eq_some_iff.2 ⟨_, separator?_cons p.isSeparator _, ?_⟩
  refine Option.bind_eq_some_iff.2 ⟨_, read (by omega) _, ?_⟩
  refine Option.bind_eq_some_iff.2 ⟨_, expect?_cons _ _, ?_⟩
  refine Option.bind_eq_some_iff.2 ⟨_, read (by omega) _, ?_⟩
  refine Option.bind_eq_some_iff.2 ⟨_, expect?_cons _ _, ?_⟩
  refine Option.bind_eq_some_iff.2 ⟨_, read (by omega) _, ?_⟩
  refine Option.bind_eq_some_iff.2 ⟨_, fraction?_write p.areDigits ends noPoint, ?_⟩
  refine Option.bind_eq_some_iff.2 ⟨_, offset?_write p.zone, ?_⟩
  refine Option.bind_eq_some_iff.2 ⟨_, isDate, ?_⟩
  refine Option.bind_eq_some_iff.2 ⟨_, isTime, ?_⟩
  exact (if_pos p.zone.offset_lt).trans found

/-- What is read is the instant of a text of RFC 3339, and no other text is read. -/
theorem ofRfc3339?_iff {s : String} :
    (∀ t, ofRfc3339? s = some t → ∃ p : Rfc3339, s = p.text ∧ t.instant = p.instant) ∧
      (ofRfc3339? s = none ↔ ¬ ∃ p : Rfc3339, s = p.text) := by
  constructor
  · intro t h
    obtain ⟨p, rfl⟩ := exists_of_ofRfc3339? h
    obtain ⟨t', read, instant⟩ := ofRfc3339?_text p
    cases h.symm.trans read
    exact ⟨p, rfl, instant⟩
  · constructor
    · rintro none ⟨p, rfl⟩
      obtain ⟨t, read, _⟩ := ofRfc3339?_text p
      cases none.symm.trans read
    · intro other
      cases read : ofRfc3339? s with
      | none => rfl
      | some t => exact absurd (exists_of_ofRfc3339? read) other

end Timestamp
end DmlCompiler
