import DmlCompiler.Proofs.Conditions.Reading
import DmlCompiler.Proofs.Conditions.Sequences

/-! # Clauses are units

A column with its functions, a test of it and a comparison are units, each the clause of its own
text. Between the words of a range only the AND that is owed to BETWEEN stands. -/
namespace DmlCompiler.Sql

/-- A group or a word that has no part in the structure of a condition. -/
def Tree.IsPlain (t : Tree) : Prop := ∀ w ∈ ["AND", "OR", "BETWEEN"], t.isWord w = false

instance (t : Tree) : Decidable t.IsPlain :=
  inferInstanceAs (Decidable (∀ w ∈ ["AND", "OR", "BETWEEN"], t.isWord w = false))

variable {ts us : List Tree}

theorem tokens_eq (ts : List Tree) : tokens ts = ts.map fun t => (t, t.inner) := by
  induction ts with
  | nil => rfl
  | cons t ts ih => rw [tokens, ih, List.map_cons]

theorem tokens_append : tokens (ts ++ us) = tokens ts ++ tokens us := by
  simp only [tokens_eq, List.map_append]

theorem tokens_trees : (tokens ts).map (·.1) = ts := by
  simp [tokens_eq, Function.comp_def]

theorem Connective.isWord_of_isPlain {t : Tree} (h : t.IsPlain) (c : Connective) :
    t.isWord c.sql = false := by
  cases c
  · exact h "AND" (by decide)
  · exact h "OR" (by decide)

theorem parts_cons_plain {t : Tree} (h : t.IsPlain) (c : Connective) (owed : Bool)
    (rest : List Token) :
    parts c owed ((t, t.inner) :: rest) =
      (parts c owed rest).modifyHead ((t, t.inner) :: ·) := by
  have connective := Connective.isWord_of_isPlain h c
  have between := h "BETWEEN" (by decide)
  have and := h "AND" (by decide)
  simp [parts, Token.isWord, connective, between, and]

theorem uncut_of_plain (h : ∀ t ∈ ts, t.IsPlain) : Uncut (tokens ts) := by
  intro c rest
  induction ts with
  | nil => cases eq : parts c false rest <;> simp [tokens, eq]
  | cons t ts ih =>
    have later := ih fun t ht => h t (List.mem_cons_of_mem _ ht)
    rw [tokens, List.cons_append, parts_cons_plain (h t List.mem_cons_self), later]
    exact modifyHead_append [(t, t.inner)] (tokens ts) _

/-- The AND of a range is owed to its BETWEEN. -/
theorem uncut_range {low high : Tree} (hlow : low.IsPlain) (hhigh : high.IsPlain) :
    Uncut (tokens [.word "BETWEEN".toList, low, .word "AND".toList, high]) := by
  intro c rest
  have owes : ∀ more : List Token,
      parts c false ((.word "BETWEEN".toList, none) :: more) =
        (parts c true more).modifyHead ((.word "BETWEEN".toList, none) :: ·) := by
    intro more
    cases c <;> rfl
  have owed : ∀ more : List Token,
      parts c true ((.word "AND".toList, none) :: more) =
        (parts c false more).modifyHead ((.word "AND".toList, none) :: ·) := by
    intro more
    cases c <;> rfl
  have trees : tokens [.word "BETWEEN".toList, low, .word "AND".toList, high] ++ rest =
      (.word "BETWEEN".toList, none) :: (low, low.inner) :: (.word "AND".toList, none) ::
        (high, high.inner) :: rest := rfl
  rw [trees, owes, parts_cons_plain hlow, owed, parts_cons_plain hhigh]
  cases parts c false rest <;> simp [tokens, Tree.inner]

theorem isUnit_of_uncut {t : Tree} (uncut : Uncut (tokens (t :: ts)))
    (begins : t.isWord "NOT" = false) (several : ∀ content, t :: ts ≠ [.group content]) :
    IsUnit (tokens (t :: ts)) (.clause (t :: ts)) where
  uncut := uncut
  meaning := by
    have trees : (tokens (t :: ts)).map (·.1) = t :: ts := tokens_trees
    rw [tokens, negation]
    simp only [Token.isWord, begins, Bool.false_eq_true, if_false]
    unfold primary
    split
    · next eq => cases eq
    · next content inner eq =>
      rw [tokens, eq] at trees
      exact absurd trees.symm (several content)
    · rw [← tokens, trees]

theorem group_isPlain (content : List Tree) : (Tree.group content).IsPlain := by
  simp [Tree.IsPlain, Tree.isWord]

theorem isUnit_group {f : Formula} (h : disjunction (tokens ts) = some f) :
    IsUnit (tokens [.group ts]) f where
  uncut := uncut_of_plain (by simpa using group_isPlain ts)
  meaning := h

theorem isUnit_not {f : Formula} (h : disjunction (tokens ts) = some f) :
    IsUnit (tokens [.word "NOT".toList, .group ts]) (.not f) where
  uncut := uncut_of_plain <| by
    simp only [List.forall_mem_cons]
    exact ⟨by decide, group_isPlain ts, by simp⟩
  meaning := by
    have negated : negation (tokens [.word "NOT".toList, .group ts]) =
        (disjunction (tokens ts)).map .not := rfl
    rw [negated, h]
    rfl

inductive Scalar : List Tree → Prop where
  | plain {t : Tree} {ts : List Tree} (plain : ∀ u ∈ t :: ts, u.IsPlain)
      (begins : t.isWord "NOT" = false) (several : ∀ content, t :: ts ≠ [.group content]) :
      Scalar (t :: ts)
  | group {ts : List Tree} (h : Scalar ts) : Scalar [.group ts]

theorem stripped_group : stripped [.group ts] = stripped ts := by
  cases ts with
  | nil => rfl
  | cons t ts => cases ts <;> rfl

theorem stripped_of_several (h : ∀ content, ts ≠ [.group content]) : stripped ts = ts := by
  match ts with
  | [] => rfl
  | [.word _] => rfl
  | [.group content] => exact absurd rfl (h content)
  | _ :: _ :: _ => rfl

theorem Scalar.isUnit (h : Scalar ts) : IsUnit (tokens ts) (.clause (stripped ts)) := by
  induction h with
  | plain plain begins several =>
    rw [stripped_of_several several]
    exact isUnit_of_uncut (uncut_of_plain plain) begins several
  | group h ih =>
    rw [stripped_group]
    exact isUnit_group ih.disjunction

end DmlCompiler.Sql
