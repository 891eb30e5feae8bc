import DmlCompiler.Proofs.Conditions.Grammar

/-! # Units between connectives

Clauses, negations and groups are units: no connective in them separates anything around them. A
sequence of units with connectives between them reads into the disjunction of its runs, the
longest stretches that are joined by AND alone. -/
namespace DmlCompiler.Sql

def runs (current : List Formula) : List (Connective × Formula) → List (List Formula)
  | [] => [current]
  | (.and, f) :: rest => runs (current ++ [f]) rest
  | (.or, f) :: rest => current :: runs [f] rest

/-- What units mean in sequence, each behind its connective. Nothing precedes the first one, so
that its connective is not there. -/
def inSequence : List (Connective × Formula) → Option Formula
  | [] => none
  | (_, f) :: rest => some (.any ((runs [f] rest).map .all))

variable {ts us rest : List Token} {f : Formula}

/-- No connective in these trees separates, nor is an AND owed behind them. -/
def Uncut (ts : List Token) : Prop :=
  ∀ (c : Connective) (rest : List Token),
    parts c false (ts ++ rest) = (parts c false rest).modifyHead (ts ++ ·)

theorem modifyHead_append (a b : List Token) (l : List (List Token)) :
    (l.modifyHead (b ++ ·)).modifyHead (a ++ ·) = l.modifyHead ((a ++ b) ++ ·) := by
  cases l <;> simp

theorem Uncut.append (ht : Uncut ts) (hu : Uncut us) : Uncut (ts ++ us) := by
  intro c rest
  rw [List.append_assoc, ht c, hu c, modifyHead_append]

theorem parts_nil (separator : Connective) (owed : Bool) : parts separator owed [] = [[]] := rfl

theorem Uncut.parts (h : Uncut ts) (c : Connective) : parts c false ts = [ts] := by
  have alone := h c []
  rwa [List.append_nil, parts_nil, List.modifyHead_cons, List.append_nil] at alone

def connectiveTree (c : Connective) : Tree := .word c.sql.toList

theorem parts_connective (c : Connective) (rest : List Token) :
    parts c false ((connectiveTree c, none) :: rest) = [] :: parts c false rest := by
  simp [parts, connectiveTree, Token.isWord, Tree.isWord]

theorem or_ne_and : Connective.or ≠ .and := nofun

theorem parts_other_connective {c other : Connective} (different : c ≠ other)
    (rest : List Token) :
    parts c false ((connectiveTree other, none) :: rest) =
      (parts c false rest).modifyHead ((connectiveTree other, none) :: ·) := by
  cases c <;> cases other <;> first | rfl | exact absurd rfl different

structure IsUnit (ts : List Token) (f : Formula) : Prop where
  uncut : Uncut ts
  meaning : negation ts = some f

structure IsRun (ts : List Token) (fs : List Formula) : Prop where
  uncut : ∀ rest, parts .or false (ts ++ rest) = (parts .or false rest).modifyHead (ts ++ ·)
  meaning : ∃ pieces, pieces.mapM negation = some fs ∧ parts .and false ts = pieces ∧
    ∀ rest, parts .and false (ts ++ (connectiveTree .and, none) :: rest) =
      pieces ++ parts .and false rest

theorem IsUnit.run (h : IsUnit ts f) : IsRun ts [f] where
  uncut := h.uncut .or
  meaning := by
    refine ⟨[ts], by simp [h.meaning], h.uncut.parts .and, fun rest => ?_⟩
    have cut := h.uncut .and ((connectiveTree .and, none) :: rest)
    rw [parts_connective] at cut
    simpa using cut

theorem mapM_snoc {α β : Type} {g : α → Option β} {as : List α} {bs : List β} {a : α} {b : β}
    (has : as.mapM g = some bs) (ha : g a = some b) : (as ++ [a]).mapM g = some (bs ++ [b]) := by
  simp [has, ha]

theorem IsRun.snoc {fs : List Formula} (h : IsRun ts fs) (hu : IsUnit us f) :
    IsRun (ts ++ (connectiveTree .and, none) :: us) (fs ++ [f]) where
  uncut rest := by
    have other := parts_other_connective or_ne_and (us ++ rest)
    have unit := hu.uncut .or rest
    rw [List.append_assoc, List.cons_append, h.uncut, other, unit]
    cases parts .or false rest <;> simp
  meaning := by
    obtain ⟨pieces, meaning, alone, further⟩ := h.meaning
    refine ⟨pieces ++ [us], mapM_snoc meaning hu.meaning, ?_, fun rest => ?_⟩
    · rw [further, hu.uncut.parts .and]
    · have cut := hu.uncut .and ((connectiveTree .and, none) :: rest)
      rw [parts_connective] at cut
      rw [List.append_assoc, List.cons_append, further, cut]
      simp

theorem IsRun.conjunction {fs : List Formula} (h : IsRun ts fs) :
    conjunction ts = some (.all fs) := by
  obtain ⟨pieces, meaning, alone, _⟩ := h.meaning
  rw [Sql.conjunction, alone, meaning]
  rfl

/-- The trees are complete runs, which are conjunctions already, and a run that may go on. -/
def IsSequence (ts : List Token) (complete current : List Formula) : Prop :=
  ∃ pieces run, pieces.mapM conjunction = some complete ∧ IsRun run current ∧
    ∀ rest, parts .or false (ts ++ rest) = pieces ++ (parts .or false rest).modifyHead (run ++ ·)

theorem IsUnit.sequence (h : IsUnit ts f) : IsSequence ts [] [f] :=
  ⟨[], ts, rfl, h.run, h.uncut .or⟩

variable {complete current : List Formula}

theorem IsSequence.and (h : IsSequence ts complete current) (hu : IsUnit us f) :
    IsSequence (ts ++ (connectiveTree .and, none) :: us) complete (current ++ [f]) := by
  obtain ⟨pieces, run, meaning, isRun, cut⟩ := h
  refine ⟨pieces, _, meaning, isRun.snoc hu, fun rest => ?_⟩
  have further := (isRun.snoc hu).uncut rest
  have begun := isRun.uncut ((connectiveTree .and, none) :: (us ++ rest))
  rw [List.append_assoc, List.cons_append, cut, ← begun, ← further, List.append_assoc,
    List.cons_append]

theorem IsSequence.or (h : IsSequence ts complete current) (hu : IsUnit us f) :
    IsSequence (ts ++ (connectiveTree .or, none) :: us) (complete ++ [.all current]) [f] := by
  obtain ⟨pieces, run, meaning, isRun, cut⟩ := h
  refine ⟨pieces ++ [run], us, mapM_snoc meaning isRun.conjunction, hu.run, fun rest => ?_⟩
  have separated := parts_connective .or (us ++ rest)
  have unit := hu.uncut .or rest
  rw [List.append_assoc, List.cons_append, cut, separated, unit]
  simp

theorem IsSequence.disjunction (h : IsSequence ts complete current) :
    disjunction ts = some (.any (complete ++ [.all current])) := by
  obtain ⟨pieces, run, meaning, isRun, cut⟩ := h
  have alone := cut []
  rw [List.append_nil, parts_nil, List.modifyHead_cons, List.append_nil] at alone
  rw [Sql.disjunction, alone, mapM_snoc meaning isRun.conjunction]
  rfl

/-- Nothing but a unit means what the unit means. -/
theorem IsUnit.disjunction (h : IsUnit ts f) : disjunction ts = some f :=
  h.sequence.disjunction

end DmlCompiler.Sql
