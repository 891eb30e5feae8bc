import DmlCompiler.Proofs.Build.Couples
import DmlCompiler.Proofs.Build.Programs
import DmlCompiler.Proofs.Coupling.Lists

/-! # Operations that leave an invariant standing

An invariant of dialect, registry, options, kept select lists and parameters holds behind every
program, also where it fails, if parameters and select lists can be added to a draft without
breaking it, and if it carries over to the drafts that sub-queries are written on. -/
namespace DmlCompiler

open Build

/-- The invariant holds wherever a program can lead. -/
structure Draft.Lasting (registry : Registry) (holds : Draft → Prop) : Prop where
  registry : ∀ {d}, holds d → d.registry = registry
  congr : ∀ {d d'}, holds d → d.SameHeld d' → holds d'
  addParameter : ∀ value type size {d}, holds d → holds ((addParameter value type size).run d).2
  fetched : ∀ {d} e, holds d → holds { d with cache := d.options.listsAfter d.cache e }
  child : ∀ {d}, holds d → holds d.child
  returned : ∀ {d child}, holds d → holds child → holds { d with cache := child.cache }

namespace Build

variable {α β : Type} {registry : Registry} {holds : Draft → Prop}

/-- The invariant holds behind the operation too, whether it succeeds or fails. -/
def Stays (holds : Draft → Prop) (x : Build α) : Prop := ∀ ⦃d⦄, holds d → holds (x.run d).2

theorem Stays.bind {x : Build α} {f : α → Build β} (hx : Stays holds x)
    (hf : ∀ a, Stays holds (f a)) : Stays holds (x >>= f) := by
  intro d hd
  have first := hx hd
  rw [run_bind]
  rcases ran : x.run d with ⟨e | a, d₁⟩
  · rw [ran] at first
    exact first
  · rw [ran] at first
    exact hf a first

/-- The failure that is kept is no part of the invariant. -/
theorem Stays.guarded (lasting : Draft.Lasting registry holds) {x : Build α}
    (hx : Stays holds x) : Stays holds (guarded x) := by
  intro d hd
  cases failure : d.failure with
  | some e =>
    rw [run_guarded_failed failure]
    exact hd
  | none =>
    have inside := hx hd
    rw [run_guarded failure]
    rcases ran : x.run d with ⟨e | a, d₁⟩
    · rw [ran] at inside
      exact lasting.congr inside ⟨rfl, rfl, rfl, rfl, rfl⟩
    · rw [ran] at inside
      exact inside

/-- Of a child nothing comes back but its kept lists. -/
theorem Stays.inChild (lasting : Draft.Lasting registry holds) {x : Build α}
    (hx : Stays holds x) : Stays holds (inChild x) := by
  intro d hd
  rw [run_inChild]
  exact lasting.returned hd (hx (lasting.child hd))

variable {compile : Query → Build Command} {lists : Entity → Prop} {inlines : SubQuery → Prop}

theorem Program.stays (lasting : Draft.Lasting registry holds)
    (inner : ∀ q, inlines q → Stays holds (q.inline compile)) {x : Build α}
    (program : Program registry compile lists inlines x) : Stays holds x := by
  induction program with
  | pure a => exact fun d hd => hd
  | throw e => exact fun d hd => hd
  | bind _ _ first next => exact first.bind next
  | look _ _ next => exact fun d hd => next d (lasting.registry hd) hd
  | change apart surroundings parameters =>
    intro d hd
    obtain ⟨options, cache⟩ := surroundings_of_apart apart d
    exact lasting.congr hd
      ⟨(surroundings d).dialect, (surroundings d).registry, options, cache, parameters d⟩
  | addParameter value type size => exact fun d hd => lasting.addParameter value type size hd
  | @defaultList e _ =>
    intro d hd
    rw [defaultList_run e d]
    exact lasting.fetched e hd
  | inline asked => exact inner _ asked
  | guarded _ inside => exact inside.guarded lasting

end Build
end DmlCompiler
