import DmlCompiler.Proofs.Rendering.Fragments

/-! # What expressions write

With valid parts an expression writes an operand or nothing, whose places are those of the
parameters that it adds. -/
namespace DmlCompiler

open Build Sql

variable {inOrder : Prop} {registry : Registry} {d d' : Draft} {sql : Sql}

def NumbersCommands (inOrder : Prop) (registry : Registry) (compile : Query → Build Command) :
    Prop :=
  ∀ ⦃q : Query⦄ ⦃d : Draft⦄ ⦃c : Command⦄ ⦃d' : Draft⦄,
    (∀ p ∈ q.parts, p.IsValid (Numbered inOrder) registry) →
    d.Orderly inOrder registry → Gives (compile q) d.child c d' →
    Numbered inOrder c ∧ d'.cache.IsValid

variable {compile : Query → Build Command}

theorem SubQuery.inline_adds (hc : NumbersCommands inOrder registry compile) {q : SubQuery}
    (valid : ∀ p ∈ q.parts, p.IsValid (Numbered inOrder) registry) (hd : d.Orderly inOrder registry)
    (given : Gives (q.inline compile) d sql d') :
    d.Adds inOrder registry d' sql.places ∧ Sound sql := by
  obtain ⟨c, d₁, finished, inlined⟩ := gives_bind.1 given
  cases q with
  | command c =>
    obtain ⟨rfl, rfl⟩ := gives_pure.1 finished
    obtain ⟨dialect, numbered⟩ := valid (.command c) (by simp [parts])
    exact Command.inline_adds numbered hd inlined
  | deferred query =>
    obtain ⟨child, compiled, rfl⟩ := gives_inChild.1 finished
    obtain ⟨⟨dialect, numbered⟩, cache⟩ := hc (by simpa [parts] using valid) hd compiled
    have hd' : Draft.Orderly inOrder registry { d with cache := child.cache } :=
      ⟨hd.registry, hd.dialect, hd.names, cache⟩
    obtain ⟨added, good⟩ := Command.inline_adds numbered hd' inlined
    exact ⟨⟨added.orderly, added.fills⟩, good⟩

theorem ColumnRef.IsValid.sound {c : ColumnRef} (h : c.IsValid) : Sound (ofString c.sql) := by
  have table := isName_of_check h.table
  have column := isName_of_check h.column
  rw [ColumnRef.sql, ofString_append, ofString_append]
  intro n
  have dot : Lexes (n, .word) (ofString ".") (n, .gap) := rfl
  exact ⟨.word, .word, (table.lexes.append dot).append column.lexes⟩

namespace Operator

theorem separates_sql (operator : Operator) :
    Separates (ofString s!" {operator.sql}" ++ ofString " ") := by
  intro n e closed
  cases closed <;> cases operator <;> rfl

theorem continues_sql {operator : Operator} (h : operator.isNullCheck) :
    Continues (ofString s!" {operator.sql}") := by
  intro n e closed
  refine ⟨.word, .word, ?_⟩
  cases closed <;> cases operator <;> first | rfl | cases h

end Operator

namespace Expression

variable {x : Expression}

theorem base_adds (valid : ∀ p ∈ x.parts, p.IsValid (Numbered inOrder) registry)
    (hd : d.Orderly inOrder registry) (given : Gives x.base d sql d') :
    d.Adds inOrder registry d' sql.places ∧ Sound sql := by
  unfold base at given
  split at given
  · obtain ⟨rfl, rfl⟩ := gives_pure.1 given
    exact ⟨by simpa using hd.adds, fun n => ⟨.done, .done, rfl⟩⟩
  · split at given
    · next column eq =>
      obtain ⟨rfl, rfl⟩ := gives_pure.1 given
      have names : column.IsValid := valid _ (column_mem_parts eq)
      exact ⟨by simpa using hd.adds, names.sound⟩
    · exact (gives_throw.1 given).elim

theorem functions_adds : ∀ {fs : List Function} {inner : Sql} {d₀ d : Draft},
    d₀.Adds inOrder registry d inner.places → Sound inner →
    Gives (fs.foldlM (fun inner f => f.apply inner) inner) d sql d' →
    d₀.Adds inOrder registry d' sql.places ∧ Sound sql
  | [], inner, d₀, d, added, good, given => by
    obtain ⟨rfl, rfl⟩ := gives_pure.1 given
    exact ⟨added, good⟩
  | f :: fs, inner, d₀, d, added, good, given => by
    rw [List.foldlM_cons] at given
    obtain ⟨outer, d₁, applied, given⟩ := gives_bind.1 given
    obtain ⟨addedOuter, goodOuter⟩ := Function.apply_adds added good applied
    exact functions_adds addedOuter goodOuter given

theorem reference_adds (valid : ∀ p ∈ x.parts, p.IsValid (Numbered inOrder) registry)
    (hd : d.Orderly inOrder registry) (given : Gives x.reference d sql d') :
    d.Adds inOrder registry d' sql.places ∧ Sound sql := by
  obtain ⟨inner, d₁, based, applied⟩ := gives_bind.1 given
  obtain ⟨added, good⟩ := base_adds valid hd based
  exact functions_adds added good applied

theorem operand_adds (hc : NumbersCommands inOrder registry compile) {alone : Bool} {o : Operand}
    (valid : ∀ p ∈ o.parts, p.IsValid (Numbered inOrder) registry) (hd : d.Orderly inOrder registry)
    (given : Gives (x.operand compile alone o) d sql d') :
    d.Adds inOrder registry d' sql.places ∧ Sound sql := by
  cases o with
  | value v => exact bindValue_adds hd given
  | subQuery q =>
    obtain ⟨inner, d₁, inlined, given⟩ := gives_bind.1 given
    obtain ⟨rfl, rfl⟩ := gives_pure.1 given
    obtain ⟨added, good⟩ := q.inline_adds hc (by simpa [Operand.parts] using valid) hd inlined
    cases alone with
    | true => exact ⟨added, good⟩
    | false => exact ⟨by simpa using added, good.parenthesize⟩

theorem separates_comma : Separates (ofString ", ") := .of (fun _ => rfl) fun _ => rfl

theorem separates_and : Separates (ofString " AND ") := .of (fun _ => rfl) fun _ => rfl

theorem rightSide_adds (hc : NumbersCommands inOrder registry compile) {operator : Operator}
    (valid : ∀ p ∈ x.parts, p.IsValid (Numbered inOrder) registry) (hd : d.Orderly inOrder registry)
    (given : Gives (x.rightSide compile operator) d sql d') :
    d.Adds inOrder registry d' sql.places ∧ Sound sql := by
  unfold rightSide at given
  split at given
  · next other eq =>
    have inside := argument_parts eq
    rw [Argument.parts] at inside
    exact reference_adds (fun p hp => valid p (inside p hp)) hd given
  · next low high eq =>
    split at given
    · obtain ⟨first, d₁, bound, given⟩ := gives_bind.1 given
      obtain ⟨second, d₂, bound', given⟩ := gives_bind.1 given
      obtain ⟨rfl, rfl⟩ := gives_pure.1 given
      obtain ⟨added, good⟩ := bindValue_adds hd bound
      obtain ⟨added', good'⟩ := bindValue_adds added.orderly bound'
      exact ⟨by simpa using added.trans added', good.between separates_and good'⟩
    · exact (gives_throw.1 given).elim
  · next operands eq =>
    have inside := argument_parts eq
    rw [Argument.parts, operandParts_eq] at inside
    split at given
    · obtain ⟨items, d₁, rendered, given⟩ := gives_bind.1 given
      obtain ⟨rfl, rfl⟩ := gives_pure.1 given
      obtain ⟨added, good⟩ := mapM_adds hd (fun o ho d sql d' hd given =>
        operand_adds hc (fun p hp => valid p (inside p (List.mem_flatMap.2 ⟨o, ho, hp⟩))) hd given)
        rendered
      exact ⟨by simpa using added, sound_list separates_comma good⟩
    · exact (gives_throw.1 given).elim
  · split at given
    · exact (gives_throw.1 given).elim
    · exact bindValue_adds hd given
  · exact (gives_throw.1 given).elim

theorem condition_adds (hc : NumbersCommands inOrder registry compile)
    (valid : ∀ p ∈ x.parts, p.IsValid (Numbered inOrder) registry) (hd : d.Orderly inOrder registry)
    (given : Gives (x.condition compile) d sql d') :
    d.Adds inOrder registry d' sql.places ∧ SoundIfSome sql ∧
      (x.isEmpty = false → sql ≠ []) := by
  unfold condition at given
  split at given
  · next empty =>
    obtain ⟨rfl, rfl⟩ := gives_pure.1 given
    exact ⟨hd.adds, fun some => absurd rfl some, fun some => by rw [empty] at some; cases some⟩
  · obtain ⟨left, d₁, referred, given⟩ := gives_bind.1 given
    obtain ⟨added, good⟩ := reference_adds valid hd referred
    split at given
    · obtain ⟨rfl, rfl⟩ := gives_pure.1 given
      exact ⟨added, fun _ => good, fun _ => good.ne_nil⟩
    · next operator eq =>
      dsimp only at given
      split at given
      · next null =>
        obtain ⟨rfl, rfl⟩ := gives_pure.1 given
        have sound := good.continue (Operator.continues_sql null)
        exact ⟨by simpa using added, fun _ => sound, fun _ => sound.ne_nil⟩
      · obtain ⟨right, d₂, rendered, given⟩ := gives_bind.1 given
        obtain ⟨rfl, rfl⟩ := gives_pure.1 given
        obtain ⟨added', good'⟩ := rightSide_adds hc valid added.orderly rendered
        have sound := good.between (Operator.separates_sql operator) good'
        rw [← List.append_assoc] at sound
        exact ⟨by simpa using added.trans added', fun _ => sound, fun _ => sound.ne_nil⟩

theorem grouped_sound (good : SoundIfSome sql) : SoundIfSome (x.grouped sql) := by
  intro some
  unfold grouped at some ⊢
  split
  · next keep =>
    rw [if_pos keep] at some
    exact good some
  · next group =>
    simp only [Bool.or_eq_true, List.isEmpty_iff, not_or] at group
    exact (good group.2).parenthesize

@[simp] theorem grouped_places : (x.grouped sql).places = sql.places := by
  unfold grouped
  split <;> simp

theorem separates_connective (connective : Option Connective) :
    Separates (ofString s!" {(connective.getD .and).sql} ") := by
  intro n e closed
  cases closed <;> rcases connective with _ | _ | _ <;> rfl

theorem joined_sound {before : Sql} (goodBefore : SoundIfSome before) (good : SoundIfSome sql) :
    SoundIfSome (x.joined before sql) := by
  intro some
  unfold joined at some ⊢
  split
  · next empty =>
    rw [if_pos empty] at some
    exact goodBefore some
  · next more =>
    have good := good (by simpa using more)
    split
    · exact good
    · next further =>
      have goodBefore := goodBefore (by simpa using further)
      exact goodBefore.between (separates_connective x.connective) good

@[simp] theorem joined_places {before : Sql} :
    (x.joined before sql).places = before.places ++ sql.places := by
  unfold joined
  split
  · next empty => simp [List.isEmpty_iff.1 empty]
  · split
    · next empty => simp [List.isEmpty_iff.1 empty]
    · simp

mutual

theorem predicate_adds (hc : NumbersCommands inOrder registry compile) :
    ∀ {x : Expression} {d d' : Draft} {sql : Sql},
      (∀ p ∈ x.parts, p.IsValid (Numbered inOrder) registry) →
      d.Orderly inOrder registry → Gives (x.predicate compile) d sql d' →
      d.Adds inOrder registry d' sql.places ∧ SoundIfSome sql
  | ⟨a, b, c, o, e, f, g, h, negated, i, children⟩, d, d', sql, valid, hd, given => by
    rw [predicate_eq] at given
    obtain ⟨own, d₁, rendered, given⟩ := gives_bind.1 given
    obtain ⟨all, d₂, appended, given⟩ := gives_bind.1 given
    obtain ⟨rfl, rfl⟩ := gives_pure.1 given
    obtain ⟨added, good, _⟩ := condition_adds hc valid hd rendered
    obtain ⟨addedAll, goodAll⟩ := appendChildren_adds hc
      (fun y hy p hp => valid p (children_parts hy p hp)) added good appended
    split
    · next negate =>
      refine ⟨by simpa using addedAll, fun _ => ?_⟩
      have opens : Opens 0 (ofString "NOT ") := fun _ => rfl
      simp only [Bool.and_eq_true, Bool.not_eq_true', List.isEmpty_eq_false_iff] at negate
      exact opens.sound (goodAll negate.2).parenthesize
    · exact ⟨addedAll, goodAll⟩

theorem appendChildren_adds (hc : NumbersCommands inOrder registry compile) :
    ∀ {children : List Expression} {before sql : Sql} {d₀ d d' : Draft},
      (∀ x ∈ children, ∀ p ∈ x.parts, p.IsValid (Numbered inOrder) registry) →
      d₀.Adds inOrder registry d before.places → SoundIfSome before →
      Gives (appendChildren compile before children) d sql d' →
      d₀.Adds inOrder registry d' sql.places ∧ SoundIfSome sql
  | [], before, sql, d₀, d, d', valid, added, good, given => by
    rw [appendChildren] at given
    obtain ⟨rfl, rfl⟩ := gives_pure.1 given
    exact ⟨added, good⟩
  | child :: rest, before, sql, d₀, d, d', valid, added, good, given => by
    rw [appendChildren] at given
    obtain ⟨own, d₁, rendered, given⟩ := gives_bind.1 given
    obtain ⟨addedOwn, goodOwn⟩ :=
      predicate_adds hc (valid child List.mem_cons_self) added.orderly rendered
    refine appendChildren_adds hc (fun x hx => valid x (List.mem_cons_of_mem child hx)) ?_
      (joined_sound good (grouped_sound goodOwn)) given
    simpa using added.trans addedOwn

end

theorem checkPermission_gives {kind : StatementKind} {u : Unit}
    (given : Gives (x.checkPermission kind) d u d') : d' = d :=
  (x.checkPermission_keeps (r := Eq) kind given).symm

theorem projection_adds (hc : NumbersCommands inOrder registry compile) (some : x.isEmpty = false)
    (valid : ∀ p ∈ x.parts, p.IsValid (Numbered inOrder) registry) (hd : d.Orderly inOrder registry)
    (given : Gives (x.projection compile) d sql d') :
    d.Adds inOrder registry d' sql.places ∧ Sound sql := by
  obtain ⟨u, d₁, permitted, allowed⟩ := gives_bind.1 given
  obtain rfl := checkPermission_gives permitted
  obtain ⟨own, d₂, rendered, given⟩ := gives_bind.1 allowed
  obtain ⟨added, good, nonempty⟩ := condition_adds hc valid hd rendered
  have good := good (nonempty some)
  split at given
  · obtain ⟨rfl, rfl⟩ := gives_pure.1 given
    exact ⟨added, good⟩
  · next label eq =>
    split at given
    · next shape =>
      obtain ⟨rfl, rfl⟩ := gives_pure.1 given
      have name := isName_of_checkShape shape
      have as : Separates (ofString " AS ") := .of (fun _ => rfl) fun _ => rfl
      refine ⟨by simpa using added, good.continue ?_⟩
      rw [ofString_append]
      exact as.sound name.sound
    · exact (gives_throw.1 given).elim

end Expression

end DmlCompiler
