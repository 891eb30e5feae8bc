import DmlCompiler.Proofs.Balance
import DmlCompiler.Proofs.Conditions.Grammar

/-! # Reading text back

Text composed of words, blanks and groups reads into the trees of its parts, and the trees of
units between connectives read into the disjunction of the conjunctions of the units. -/
namespace DmlCompiler.Sql

def Reads (text : List Char) (ts : List Tree) : Prop :=
  ∀ before outer, ∃ r, text.foldlM Reader.step ⟨[], before, outer⟩ = some r ∧
    r.level = before ++ ts ∧ r.outer = outer

def ReadsInside (text : List Char) (ts : List Tree) : Prop :=
  ∀ outer, ∃ r, text.foldlM Reader.step ⟨[], [], outer⟩ = some r ∧ r.level = ts ∧ r.outer = outer

structure IsWord (letters : List Char) : Prop where
  some : letters ≠ []
  free : ∀ c ∈ letters, c ≠ ' ' ∧ c ≠ '(' ∧ c ≠ ')'

instance (letters : List Char) : Decidable (IsWord letters) :=
  decidable_of_iff (letters ≠ [] ∧ letters.all (fun c => c ≠ ' ' ∧ c ≠ '(' ∧ c ≠ ')') = true) <| by
    simp only [List.all_eq_true, decide_eq_true_eq]
    exact ⟨fun h => ⟨h.1, h.2⟩, fun h => ⟨h.some, h.free⟩⟩

variable {text a b w : List Char} {ts us : List Tree}

theorem Reads.inside (h : Reads text ts) : ReadsInside text ts := h []

theorem Reads.trees? {s : String} (h : Reads s.toList ts) : trees? s = some ts := by
  obtain ⟨⟨letters, trees, outer⟩, read, level, rfl⟩ := h [] []
  unfold Sql.trees?
  rw [read]
  exact congrArg _ level

theorem foldlM_letters (free : ∀ c ∈ w, c ≠ ' ' ∧ c ≠ '(' ∧ c ≠ ')') :
    ∀ (letters : List Char) (trees : List Tree) (outer : List (List Tree)),
      w.foldlM Reader.step ⟨letters, trees, outer⟩ = some ⟨letters ++ w, trees, outer⟩ := by
  induction w with
  | nil => simp
  | cons c w ih =>
    intro letters trees outer
    obtain ⟨notBlank, notOpen, notClosed⟩ := free c List.mem_cons_self
    have later := ih fun c hc => free c (List.mem_cons_of_mem _ hc)
    rw [List.foldlM_cons, Reader.step, if_neg notBlank, if_neg notOpen, if_neg notClosed]
    simpa using later (letters ++ [c]) trees outer

theorem IsWord.reads (h : IsWord w) : Reads w [.word w] := by
  intro before outer
  refine ⟨_, foldlM_letters h.free [] before outer, ?_, rfl⟩
  simp [Reader.level, h.some]

theorem Reads.blank (ha : Reads a ts) (hb : Reads b us) : Reads (a ++ ' ' :: b) (ts ++ us) := by
  intro before outer
  obtain ⟨r, read, level, same⟩ := ha before outer
  obtain ⟨r', read', level', same'⟩ := hb (before ++ ts) outer
  have step : r.step ' ' = some ⟨[], before ++ ts, outer⟩ := by
    simp [Reader.step, level, same]
  refine ⟨r', ?_, by rw [level', List.append_assoc], same'⟩
  rw [List.foldlM_append, read, Option.bind_eq_bind, Option.bind_some, List.foldlM_cons, step]
  exact read'

theorem step_open (letters : List Char) (before : List Tree) (outer : List (List Tree)) :
    Reader.step ⟨letters, before, outer⟩ '(' =
      some ⟨[], [], (Reader.level ⟨letters, before, outer⟩) :: outer⟩ := rfl

theorem reads_call (free : ∀ c ∈ w, c ≠ ' ' ∧ c ≠ '(' ∧ c ≠ ')') (h : ReadsInside a ts) :
    Reads (w ++ '(' :: (a ++ [')'])) ((if w.isEmpty then [] else [.word w]) ++ [.group ts]) := by
  intro before outer
  have level : Reader.level ⟨[] ++ w, before, outer⟩ =
      before ++ if w.isEmpty then [] else [.word w] := by
    unfold Reader.level
    split <;> simp_all
  obtain ⟨r, read, inner, same⟩ := h ((before ++ if w.isEmpty then [] else [.word w]) :: outer)
  have close : r.step ')' = some
      ⟨[], before ++ (if w.isEmpty then [] else [.word w]) ++ [.group ts], outer⟩ := by
    simp [Reader.step, same, inner]
  refine ⟨⟨[], before ++ (if w.isEmpty then [] else [.word w]) ++ [.group ts], outer⟩, ?_,
    List.append_assoc _ _ _, rfl⟩
  rw [List.foldlM_append, foldlM_letters free, Option.bind_eq_bind, Option.bind_some,
    List.foldlM_cons, step_open, level, Option.bind_eq_bind, Option.bind_some,
    List.foldlM_append, read, Option.bind_eq_bind, Option.bind_some, List.foldlM_cons, close]
  rfl

theorem reads_group (h : ReadsInside a ts) : Reads ('(' :: (a ++ [')'])) [.group ts] :=
  reads_call (w := []) (by simp) h

theorem IsWord.reads_call (hw : IsWord w) (h : ReadsInside a ts) :
    Reads (w ++ '(' :: (a ++ [')'])) [.word w, .group ts] := by
  have read := Sql.reads_call hw.free h
  rwa [if_neg (by simp [hw.some])] at read

/-- The reader goes through text whose parentheses match, whatever stands before it. -/
theorem foldlM_step_of_nest {n m : Nat} (h : (text.map Symbol.char).foldlM nest n = some m) :
    ∀ (letters : List Char) (trees : List Tree) (opened : List (List Tree)), opened.length = n →
      ∃ letters' trees' opened', opened'.length = m ∧ ∀ outer,
        text.foldlM Reader.step ⟨letters, trees, opened ++ outer⟩ =
          some ⟨letters', trees', opened' ++ outer⟩ := by
  induction text generalizing n with
  | nil =>
    cases h
    exact fun letters trees opened length => ⟨letters, trees, opened, length, fun _ => rfl⟩
  | cons c text ih =>
    intro letters trees opened length
    rw [List.map_cons, List.foldlM_cons] at h
    obtain ⟨k, first, rest⟩ := Option.bind_eq_some_iff.1 h
    have go : ∀ letters₁ trees₁ opened₁, opened₁.length = k →
        (∀ outer, Reader.step ⟨letters, trees, opened ++ outer⟩ c =
          some ⟨letters₁, trees₁, opened₁ ++ outer⟩) →
        ∃ letters' trees' opened', opened'.length = m ∧ ∀ outer,
          (c :: text).foldlM Reader.step ⟨letters, trees, opened ++ outer⟩ =
            some ⟨letters', trees', opened' ++ outer⟩ := by
      intro letters₁ trees₁ opened₁ length₁ step
      obtain ⟨letters', trees', opened', length', later⟩ := ih rest letters₁ trees₁ opened₁ length₁
      refine ⟨letters', trees', opened', length', fun outer => ?_⟩
      rw [List.foldlM_cons, step outer]
      exact later outer
    by_cases blank : c = ' '
    · subst blank
      cases first
      exact go [] (Reader.level ⟨letters, trees, []⟩) opened length fun outer => rfl
    by_cases opens : c = '('
    · subst opens
      cases first
      exact go [] [] (Reader.level ⟨letters, trees, []⟩ :: opened) (congrArg (· + 1) length)
        fun outer => rfl
    by_cases closes : c = ')'
    · subst closes
      cases opened with
      | nil =>
        cases length
        cases first
      | cons before opened =>
        cases length
        cases first
        exact go [] (before ++ [.group (Reader.level ⟨letters, trees, []⟩)]) opened rfl
          fun outer => rfl
    · have same : k = n := by simpa [nest, opens, closes, eq_comm] using first
      refine go (letters ++ [c]) trees opened (length.trans same.symm) fun outer => ?_
      simp [Reader.step, blank, opens, closes]

theorem Balanced.readsInside {sql : Sql} (h : Balanced sql) (d : Dialect) :
    ∃ ts, ReadsInside (chars d sql) ts := by
  have balanced := h.text d 0
  rw [ofString, text_toList] at balanced
  obtain ⟨letters, trees, opened, length, read⟩ :=
    foldlM_step_of_nest balanced [] [] [] rfl
  cases List.length_eq_zero_iff.1 length
  exact ⟨Reader.level ⟨letters, trees, []⟩, fun outer => ⟨_, read outer, rfl, rfl⟩⟩

end DmlCompiler.Sql
