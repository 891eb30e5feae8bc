import DmlCompiler.Clause
import Mathlib

/-! # Sentences

The grammar of statements as a language over clauses, next to the language of the clause table.
The table has one position for every filter, so that it forgets whether an update, a deletion or a
selection is being filtered; the two languages differ by what may follow there. -/
namespace DmlCompiler.Clause

open scoped Computability

def word (c : Clause) : Language Clause := {[c]}

def several (c : Clause) : Language Clause := word c * (word c)∗

def grouping : Language Clause := 1 + word .groupBy * (word .having)∗

def block : Language Clause :=
  word .select * word .from * (word .join)∗ * (word .where)∗ * grouping

def further : Language Clause := (word .union * block)∗ * (word .orderBy)∗

def changes : Language Clause := word .update * several .set + word .delete

/-- The statements of the grammar. -/
def sentences : Language Clause :=
  block * further + word .insert * several .values + changes * (word .where)∗ + word .truncate

/-- What the clause table allows: a filter of any statement may be followed as one of a selection. -/
def allowed : Language Clause := sentences + changes * several .where * (grouping * further)

/-- A filtered update or deletion that goes on as a selection. -/
def strayed : Language Clause :=
  changes * several .where * (word .groupBy + word .orderBy + word .union)

section Repetition

variable {L : Language Clause} {c n : Clause} {w : List Clause}

@[simp] theorem mem_word : w ∈ word c ↔ w = [c] := Iff.rfl

@[simp] theorem nil_mem_word_mul : [] ∈ word c * L ↔ False := by
  simp [Language.mem_mul]

@[simp] theorem cons_mem_word_mul : n :: w ∈ word c * L ↔ n = c ∧ w ∈ L := by
  simp [Language.mem_mul, and_comm, eq_comm]

theorem star_eq (c : Clause) : (word c)∗ = 1 + word c * (word c)∗ :=
  (Language.one_add_self_mul_kstar_eq_kstar _).symm

theorem star_mul (c : Clause) (L : Language Clause) :
    (word c)∗ * L = L + word c * ((word c)∗ * L) := by
  nth_rewrite 1 [star_eq]
  rw [add_mul, one_mul, mul_assoc]

@[simp] theorem cons_mem_star : n :: w ∈ (word c)∗ ↔ n = c ∧ w ∈ (word c)∗ := by
  nth_rewrite 1 [star_eq]
  simp only [Language.mem_add, Language.mem_one, List.cons_ne_nil, cons_mem_word_mul, false_or]

@[simp] theorem nil_mem_star_mul : [] ∈ (word c)∗ * L ↔ [] ∈ L := by
  rw [star_mul]
  simp only [Language.mem_add, nil_mem_word_mul, or_false]

@[simp] theorem cons_mem_star_mul :
    n :: w ∈ (word c)∗ * L ↔ n :: w ∈ L ∨ n = c ∧ w ∈ (word c)∗ * L := by
  nth_rewrite 1 [star_mul]
  simp only [Language.mem_add, cons_mem_word_mul]

end Repetition

section Positions

theorem further_eq : further = (word .orderBy)∗ + word .union * (block * further) := by
  unfold further
  nth_rewrite 1 [← Language.one_add_self_mul_kstar_eq_kstar]
  simp only [add_mul, one_mul, mul_assoc]

theorem grouping_mul (L : Language Clause) :
    grouping * L = L + word .groupBy * ((word .having)∗ * L) := by
  rw [grouping, add_mul, one_mul, mul_assoc]

/-- A statement may end behind its filters. -/
theorem one_add_grouping : 1 + grouping * further = grouping * further := by
  rw [grouping_mul, further_eq, star_eq .orderBy]
  simp only [← add_assoc, add_idem]

def filtered : Language Clause := (word .where)∗ * (grouping * further)

def joined : Language Clause := (word .join)∗ * filtered

def changed : Language Clause := 1 + word .where * filtered

def rest : Clause → Language Clause
  | .start => allowed
  | .union => block * further
  | .select => word .from * joined
  | .from | .join => joined
  | .where => filtered
  | .groupBy | .having => (word .having)∗ * further
  | .orderBy => (word .orderBy)∗
  | .insert => several .values
  | .values => (word .values)∗
  | .update => several .set * changed
  | .set => (word .set)∗ * changed
  | .delete => changed
  | .truncate => 1

theorem block_mul : block * further = word .select * (word .from * joined) := by
  simp only [block, joined, filtered, mul_assoc]

/-- With the stray continuations, a change goes on as the table allows. -/
theorem changes_mul : changes * (word .where)∗ + changes * several .where * (grouping * further) =
    changes * changed := by
  have filters : (word .where)∗ + (word .where)∗ * (grouping * further) = filtered := by
    rw [filtered, ← one_add_grouping, mul_add, mul_one, ← add_assoc, add_idem]
  nth_rewrite 1 [star_eq]
  rw [several, mul_assoc, ← mul_add, add_assoc, mul_assoc, ← mul_add, filters, changed]

theorem allowed_eq : allowed = word .select * (word .from * joined) + word .insert * several .values +
    (word .update * (several .set * changed) + word .delete * changed) + word .truncate := by
  rw [allowed, sentences, add_right_comm _ (word .truncate), add_assoc _ (changes * _), changes_mul,
    block_mul, changes, add_mul, mul_assoc]

/-- The sentence may end where the table says that it is complete. -/
theorem nil_mem_rest (c : Clause) : [] ∈ rest c ↔ c.isComplete := by
  have selection : [] ∈ further := by
    rw [further_eq]
    simp only [Language.mem_add, Language.nil_mem_kstar, true_or]
  have filters : [] ∈ filtered := by
    rw [filtered, nil_mem_star_mul, grouping_mul, Language.mem_add]
    exact .inl selection
  have change : [] ∈ changed := .inl rfl
  cases c
  all_goals
    simp only [rest, allowed_eq, block_mul, joined, several, Language.mem_add, nil_mem_word_mul,
      nil_mem_star_mul, Language.nil_mem_kstar, mul_assoc, mem_word, selection, filters, change,
      or_self, isComplete, Bool.false_eq_true, Language.mem_one, List.ne_cons_self]

theorem cons_mem_further (n : Clause) (w : List Clause) : n :: w ∈ further ↔
    n = .orderBy ∧ w ∈ rest .orderBy ∨ n = .union ∧ w ∈ rest .union := by
  rw [further_eq]
  simp only [Language.mem_add, cons_mem_star, cons_mem_word_mul, rest]

theorem cons_mem_grouping (n : Clause) (w : List Clause) : n :: w ∈ grouping * further ↔
    n :: w ∈ further ∨ n = .groupBy ∧ w ∈ rest .groupBy := by
  rw [grouping_mul, Language.mem_add, cons_mem_word_mul]
  rfl

/-- A sentence goes on with a clause that the table lets follow. -/
theorem cons_mem_rest (c n : Clause) (w : List Clause) :
    n :: w ∈ rest c ↔ n.mayFollow c ∧ w ∈ rest n := by
  have selection := cons_mem_further n w
  have filters : n :: w ∈ filtered ↔
      (n :: w ∈ further ∨ n = .groupBy ∧ w ∈ rest .groupBy) ∨ n = .where ∧ w ∈ filtered := by
    rw [filtered, cons_mem_star_mul, cons_mem_grouping]
  have change : n :: w ∈ changed ↔ n = .where ∧ w ∈ filtered := by
    rw [changed, Language.mem_add, cons_mem_word_mul, Language.mem_one]
    simp only [List.cons_ne_nil, false_or]
  cases c
  all_goals
    simp only [rest, allowed_eq, block_mul, joined, several, Language.mem_add, cons_mem_word_mul,
      cons_mem_star_mul, cons_mem_star, mul_assoc, mem_word, selection, filters, change,
      Language.mem_one, List.cons.injEq, List.cons_ne_nil]
    cases n <;> simp [mayFollow, predecessors]

/-- Where a sequence of clauses leads to, if the table lets each one follow the one before it. -/
def walk : Clause → List Clause → Option Clause
  | c, [] => some c
  | c, n :: w => if n.mayFollow c then walk n w else none

theorem walk_append (c : Clause) (w v : List Clause) :
    walk c (w ++ v) = (walk c w).bind (walk · v) := by
  induction w generalizing c with
  | nil => rfl
  | cons n w ih =>
    rw [List.cons_append, walk, walk]
    split
    · exact ih n
    · rfl

/-- What an ORDER BY or a union stands behind is a statement. -/
theorem isComplete_of_follows {next current : Clause} (closes : next = .orderBy ∨ next = .union)
    (follows : next.mayFollow current = true) : current.isComplete = true := by
  rcases closes with rfl | rfl <;> cases current <;> first | rfl | cases follows

theorem walk_orderBy {w : List Clause} {last : Clause} (walked : walk .orderBy w = some last) :
    last = .orderBy ∧ ∀ n ∈ w, n = .orderBy := by
  induction w with
  | nil => simpa [walk, eq_comm] using walked
  | cons n w ih =>
    rw [walk] at walked
    split at walked
    · next follows =>
      obtain rfl : n = .orderBy := by cases n <;> first | rfl | cases follows
      obtain ⟨same, later⟩ := ih walked
      exact ⟨same, List.forall_mem_cons.2 ⟨rfl, later⟩⟩
    · cases walked

theorem last_orderBy_iff {c last : Clause} {w : List Clause} (walked : walk c w = some last) :
    last = .orderBy ↔ c = .orderBy ∨ .orderBy ∈ w := by
  induction w generalizing c with
  | nil =>
    cases walked
    simp
  | cons n w ih =>
    by_cases ordered : c = .orderBy
    · subst ordered
      simp [(walk_orderBy walked).1]
    · rw [walk] at walked
      split at walked
      · rw [ih walked]
        simp [ordered, eq_comm]
      · cases walked

theorem append_mem_rest (c : Clause) (w v : List Clause) :
    w ++ v ∈ rest c ↔ ∃ last, walk c w = some last ∧ v ∈ rest last := by
  induction w generalizing c with
  | nil => simp [walk]
  | cons n w ih =>
    rw [List.cons_append, cons_mem_rest, ih, walk]
    split <;> simp_all

theorem mem_rest (c : Clause) (w : List Clause) :
    w ∈ rest c ↔ ∃ last, walk c w = some last ∧ last.isComplete := by
  have whole := append_mem_rest c w []
  simpa only [List.append_nil, nil_mem_rest] using whole

/-- From every clause a sentence can be finished. -/
theorem exists_mem_rest (c : Clause) : ∃ v, v ∈ rest c := by
  have finishing : ∃ v, ∃ last, walk c v = some last ∧ last.isComplete := by
    cases c
    case start => exact ⟨[.truncate], .truncate, rfl, rfl⟩
    case select => exact ⟨[.from], .from, rfl, rfl⟩
    case union => exact ⟨[.select, .from], .from, rfl, rfl⟩
    case insert => exact ⟨[.values], .values, rfl, rfl⟩
    case update => exact ⟨[.set], .set, rfl, rfl⟩
    all_goals exact ⟨[], _, rfl, rfl⟩
  obtain ⟨v, finished⟩ := finishing
  exact ⟨v, (mem_rest c v).2 finished⟩

end Positions

def Begins (L : Language Clause) (w : List Clause) : Prop := ∃ v, w ++ v ∈ L

theorem Begins.of_prefix {L : Language Clause} {w s : List Clause} (h : Begins L w) (le : s <+: w) :
    Begins L s := by
  obtain ⟨v, mem⟩ := h
  obtain ⟨t, rfl⟩ := le
  exact ⟨t ++ v, by rwa [← List.append_assoc]⟩

/-- The table allows a beginning if it allows every step of it. -/
theorem begins_allowed (w : List Clause) : Begins allowed w ↔ (walk .start w).isSome := by
  constructor
  · rintro ⟨v, mem⟩
    obtain ⟨last, walked, _⟩ := (append_mem_rest .start w v).1 mem
    rw [walked]
    rfl
  · intro walks
    obtain ⟨last, walked⟩ := Option.isSome_iff_exists.1 walks
    obtain ⟨v, mem⟩ := exists_mem_rest last
    exact ⟨v, (append_mem_rest .start w v).2 ⟨last, walked, mem⟩⟩

section Straying

def wordsOver (clauses : List Clause) : Language Clause := {w | ∀ c ∈ w, c ∈ clauses}

variable {A : List Clause} {L M : Language Clause}

theorem word_le_over {c : Clause} (h : c ∈ A) : word c ≤ wordsOver A := by
  rintro w rfl
  simpa [wordsOver] using h

theorem mul_le_over (h : L ≤ wordsOver A) (h' : M ≤ wordsOver A) : L * M ≤ wordsOver A := by
  rintro _ ⟨w, hw, v, hv, rfl⟩ c mem
  rcases List.mem_append.1 mem with mem | mem
  · exact h hw c mem
  · exact h' hv c mem

theorem kstar_le_over (h : L ≤ wordsOver A) : L∗ ≤ wordsOver A := by
  rintro w mem c hc
  obtain ⟨parts, rfl, all⟩ := Language.mem_kstar.1 mem
  obtain ⟨part, hpart, hc⟩ := List.mem_flatten.1 hc
  exact h (all part hpart) c hc

theorem several_le_over {c : Clause} (h : c ∈ A) : several c ≤ wordsOver A :=
  mul_le_over (word_le_over h) (kstar_le_over (word_le_over h))

/-- In a sentence that changes or removes rows, nothing but filters follows. -/
theorem changing_sentence {c : Clause} {w : List Clause} (h : c :: w ∈ sentences)
    (changing : c = .update ∨ c = .delete) : c :: w ∈ wordsOver [.update, .set, .delete, .where] := by
  have alphabet : changes * (word .where)∗ ≤ wordsOver [.update, .set, .delete, .where] := by
    refine mul_le_over (sup_le ?_ ?_) (kstar_le_over (word_le_over (by decide)))
    · exact mul_le_over (word_le_over (by decide)) (several_le_over (by decide))
    · exact word_le_over (by decide)
  simp only [sentences, block_mul, Language.mem_add, cons_mem_word_mul, mem_word,
    List.cons.injEq] at h
  rcases h with ((⟨rfl, _⟩ | ⟨rfl, _⟩) | mem) | ⟨rfl, _⟩
  · rcases changing with h | h <;> cases h
  · rcases changing with h | h <;> cases h
  · exact alphabet mem
  · rcases changing with h | h <;> cases h

/-- A stray sequence begins as a change and ends as only a selection goes on. -/
theorem strayed_ends {s : List Clause} (h : s ∈ strayed) : ∃ c t n, s = c :: (t ++ [n]) ∧
    (c = .update ∨ c = .delete) ∧ (n = .groupBy ∨ n = .orderBy ∨ n = .union) := by
  obtain ⟨_, ⟨x, hx, y, _, rfl⟩, z, hz, rfl⟩ := h
  obtain ⟨n, rfl, hn⟩ : ∃ n, z = [n] ∧ (n = .groupBy ∨ n = .orderBy ∨ n = .union) := by
    rcases hz with (rfl | rfl) | rfl
    · exact ⟨_, rfl, .inl rfl⟩
    · exact ⟨_, rfl, .inr (.inl rfl)⟩
    · exact ⟨_, rfl, .inr (.inr rfl)⟩
  rcases hx with ⟨_, rfl, t, _, rfl⟩ | rfl
  · exact ⟨.update, t ++ y, n, by simp, .inl rfl, hn⟩
  · exact ⟨.delete, y, n, by simp, .inr rfl, hn⟩

/-- No sentence begins with a stray sequence. -/
theorem not_begins_of_strayed {s : List Clause} (h : s ∈ strayed) : ¬ Begins sentences s := by
  rintro ⟨v, mem⟩
  obtain ⟨c, t, n, rfl, changing, selecting⟩ := strayed_ends h
  have used : n ∈ [.update, .set, .delete, .where] :=
    changing_sentence mem changing n (by simp)
  rcases selecting with rfl | rfl | rfl <;> simp at used

theorem changes_filtered {w : List Clause} (h : w ∈ changes * several .where) : w ∈ sentences := by
  obtain ⟨x, hx, y, hy, rfl⟩ := Language.mem_mul.1 h
  refine .inl (.inr ⟨x, hx, y, ?_, rfl⟩)
  rw [star_eq]
  exact .inr hy

/-- What the table allows beyond the sentences begins with a stray sequence. -/
theorem allowed_cases {w : List Clause} (h : w ∈ allowed) :
    w ∈ sentences ∨ ∃ a n b, w = a ++ n :: b ∧ a ∈ sentences ∧ a ++ [n] ∈ strayed := by
  rcases (Language.mem_add _ _ _).1 h with sentence | continued
  · exact .inl sentence
  obtain ⟨a, change, b, tail, rfl⟩ := Language.mem_mul.1 continued
  have kept := changes_filtered change
  cases b with
  | nil => exact .inl (by rwa [List.append_nil])
  | cons n b =>
    refine .inr ⟨a, n, b, rfl, kept, a, change, [n], ?_, rfl⟩
    rw [cons_mem_grouping, cons_mem_further] at tail
    rcases tail with (⟨rfl, _⟩ | ⟨rfl, _⟩) | ⟨rfl, _⟩
    · exact .inl (.inr rfl)
    · exact .inr rfl
    · exact .inl (.inl rfl)

/-- A stray sequence is a sentence up to its last clause, which the table allows. -/
theorem strayed_cases {s : List Clause} (h : s ∈ strayed) :
    ∃ a n, s = a ++ [n] ∧ a ∈ sentences ∧ Begins allowed s := by
  obtain ⟨a, change, z, last, rfl⟩ := Language.mem_mul.1 h
  have continues {n : Clause} {v : List Clause} (tail : n :: v ∈ grouping * further) :
      Begins allowed (a ++ [n]) := ⟨v, .inr ⟨a, change, n :: v, tail, by simp⟩⟩
  simp only [cons_mem_grouping, cons_mem_further] at continues
  have kept := changes_filtered change
  rcases last with (rfl | rfl) | rfl
  · obtain ⟨v, mem⟩ := exists_mem_rest .groupBy
    exact ⟨a, _, rfl, kept, continues (.inr ⟨rfl, mem⟩)⟩
  · obtain ⟨v, mem⟩ := exists_mem_rest .orderBy
    exact ⟨a, _, rfl, kept, continues (.inl (.inl ⟨rfl, mem⟩))⟩
  · obtain ⟨v, mem⟩ := exists_mem_rest .union
    exact ⟨a, _, rfl, kept, continues (.inl (.inr ⟨rfl, mem⟩))⟩

/-- The sentences are what the table allows without straying. -/
theorem mem_sentences_iff (w : List Clause) :
    w ∈ sentences ↔ w ∈ allowed ∧ ∀ s, s <+: w → s ∉ strayed := by
  constructor
  · intro sentence
    refine ⟨.inl sentence, fun s le stray => not_begins_of_strayed stray ?_⟩
    exact Begins.of_prefix ⟨[], by rwa [List.append_nil]⟩ le
  · rintro ⟨mem, straight⟩
    rcases allowed_cases mem with sentence | ⟨a, n, b, rfl, _, stray⟩
    · exact sentence
    · exact (straight _ ⟨b, by simp⟩ stray).elim

theorem begins_sentences_iff (w : List Clause) :
    Begins sentences w ↔ Begins allowed w ∧ ∀ s, s <+: w → s ∉ strayed := by
  constructor
  · intro begins
    refine ⟨begins.imp fun v mem => .inl mem, fun s le stray => ?_⟩
    exact not_begins_of_strayed stray (begins.of_prefix le)
  · rintro ⟨⟨v, mem⟩, straight⟩
    rcases allowed_cases mem with sentence | ⟨a, n, b, eq, kept, stray⟩
    · exact ⟨v, sentence⟩
    -- the sequence ends before it strays, where the change is a whole sentence
    have longer : a ++ [n] <+: w ++ v := ⟨b, by simp [eq]⟩
    have shorter : w <+: a ++ [n] := by
      rcases List.prefix_or_prefix_of_prefix (List.prefix_append w v) longer with le | le
      · exact le
      · exact (straight _ le stray).elim
    rcases List.prefix_concat_iff.1 shorter with rfl | le
    · exact (straight _ (List.prefix_refl _) stray).elim
    · exact Begins.of_prefix ⟨[], by rwa [List.append_nil]⟩ le

end Straying
end DmlCompiler.Clause
