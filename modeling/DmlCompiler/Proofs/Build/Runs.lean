import DmlCompiler.Query.Compilation

/-! # Running operations

An operation gives a result and leaves a draft, and it leaves one also where it fails. `Gives`
speaks of an operation that succeeds; its rules take a composed operation apart. -/
namespace DmlCompiler.Build

variable {α β : Type}

theorem run_bind (x : Build α) (f : α → Build β) (d : Draft) :
    (x >>= f).run d = match x.run d with
      | (.ok a, d') => (f a).run d'
      | (.error e, d') => (.error e, d') := by
  show (ExceptT.bindCont f (x.run d).1 : StateM Draft _) (x.run d).2 = _
  rcases x.run d with ⟨_ | _, _⟩ <;> rfl

/-- Run on the first draft, the operation succeeds with the result and leaves the second one. -/
def Gives (x : Build α) (d : Draft) (a : α) (d' : Draft) : Prop := x.run d = (.ok a, d')

@[simp] theorem gives_pure {a b : α} {d d' : Draft} :
    Gives (pure a) d b d' ↔ b = a ∧ d' = d := by
  show ((Except.ok a, d) : Except QueryError α × Draft) = (.ok b, d') ↔ _
  simp only [Prod.mk.injEq, Except.ok.injEq, eq_comm]

@[simp] theorem gives_throw {e : QueryError} {a : α} {d d' : Draft} :
    Gives (throw e) d a d' ↔ False := by
  show ((Except.error e, d) : Except QueryError α × Draft) = (.ok a, d') ↔ _
  simp

@[simp] theorem gives_get {s d d' : Draft} : Gives get d s d' ↔ s = d ∧ d' = d := gives_pure

@[simp] theorem gives_set {s d d' : Draft} {u : PUnit} : Gives (set s) d u d' ↔ d' = s := by
  show ((Except.ok ⟨⟩, s) : Except QueryError PUnit × Draft) = (.ok u, d') ↔ _
  simp only [Prod.mk.injEq, true_and, eq_comm]

@[simp] theorem gives_modify {f : Draft → Draft} {d d' : Draft} {u : PUnit} :
    Gives (modify f) d u d' ↔ d' = f d := by
  show ((Except.ok ⟨⟩, f d) : Except QueryError PUnit × Draft) = (.ok u, d') ↔ _
  simp only [Prod.mk.injEq, true_and, eq_comm]

@[simp] theorem gives_bind {x : Build α} {f : α → Build β} {d d' : Draft} {b : β} :
    Gives (x >>= f) d b d' ↔ ∃ a d₁, Gives x d a d₁ ∧ Gives (f a) d₁ b d' := by
  simp only [Gives, run_bind]
  rcases x.run d with ⟨e | a, d₁⟩
  · constructor
    · intro h
      cases h
    · rintro ⟨_, _, h, _⟩
      cases h
  · constructor
    · intro h
      exact ⟨a, d₁, rfl, h⟩
    · rintro ⟨_, _, h, h'⟩
      cases h
      exact h'

theorem run_get_bind (f : Draft → Build β) (d : Draft) :
    (get >>= f : Build β).run d = (f d).run d := rfl

theorem gives_get_bind {f : Draft → Build β} {d d' : Draft} {b : β} :
    Gives (get >>= f) d b d' ↔ Gives (f d) d b d' := Iff.rfl

theorem run_guarded_failed {x : Build α} {d : Draft} {e : QueryError} (h : d.failure = some e) :
    (guarded x).run d = (.error e, d) := by
  unfold guarded
  rw [ExceptT.run_mk]
  rw [h]

theorem run_guarded {x : Build α} {d : Draft} (h : d.failure = none) :
    (guarded x).run d = match x.run d with
      | (.ok a, d') => (.ok a, d')
      | (.error e, d') => (.error e, { d' with failure := some e }) := by
  unfold guarded
  rw [ExceptT.run_mk]
  generalize d.failure = failure at h
  subst h
  rfl

@[simp] theorem gives_guarded {x : Build α} {d d' : Draft} {a : α} :
    Gives (guarded x) d a d' ↔ d.failure = none ∧ Gives x d a d' := by
  unfold Gives
  cases hd : d.failure with
  | some e =>
    rw [run_guarded_failed hd]
    constructor
    · intro h
      cases h
    · rintro ⟨h, _⟩
      cases h
  | none =>
    rw [run_guarded hd]
    rcases x.run d with ⟨_ | b, d₁⟩
    · constructor
      · intro h
        cases h
      · rintro ⟨_, h⟩
        cases h
    · constructor
      · intro h
        exact ⟨rfl, h⟩
      · rintro ⟨_, h⟩
        exact h

theorem run_inChild (x : Build α) (d : Draft) :
    (inChild x).run d = ((x.run d.child).1, { d with cache := (x.run d.child).2.cache }) := rfl

@[simp] theorem gives_inChild {x : Build α} {d d' : Draft} {a : α} :
    Gives (inChild x) d a d' ↔
      ∃ d₁, Gives x d.child a d₁ ∧ d' = { d with cache := d₁.cache } := by
  unfold Gives
  rw [run_inChild]
  rcases x.run d.child with ⟨b, d₁⟩
  constructor
  · intro h
    cases h
    exact ⟨d₁, rfl, rfl⟩
  · rintro ⟨_, h, rfl⟩
    cases h
    rfl

theorem expect_gives {next : Clause} {d d' : Draft} {u : Unit}
    (given : Gives (expect next) d u d') : next.mayFollow d.clause = true ∧ d' = d := by
  rw [expect, gives_get_bind] at given
  split at given
  · next follows => exact ⟨follows, (gives_pure.1 given).2⟩
  · exact (gives_throw.1 given).elim

theorem gives_expect {next : Clause} {d : Draft}
    (follows : next.mayFollow d.clause = true) : Gives (expect next) d () d := by
  rw [expect, gives_get_bind, if_pos follows]
  rfl

end DmlCompiler.Build
