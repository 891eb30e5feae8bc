import DmlCompiler.Proofs.Build.Runs
import Mathlib.Order.Defs.Unbundled

/-! # What operations keep

An operation keeps a relation if the draft that it leaves, when it succeeds, is related to the one
it began with. There is a rule for each way of composing operations. -/
namespace DmlCompiler.Build

variable {α β ι : Type} {r : Draft → Draft → Prop}

def Keeps (r : Draft → Draft → Prop) (x : Build α) : Prop := ∀ ⦃d a d'⦄, Gives x d a d' → r d d'

theorem Keeps.mono {r' : Draft → Draft → Prop} {x : Build α} (h : ∀ d d', r d d' → r' d d')
    (hx : Keeps r x) : Keeps r' x := fun d _ d' given => h d d' (hx given)

theorem keeps_throw (e : QueryError) : Keeps r (throw e : Build α) := by
  intro d a d' given
  exact (gives_throw.1 given).elim

theorem keeps_throw_bind (e : QueryError) (f : α → Build β) : Keeps r (throw e >>= f) :=
  fun _ _ _ given => by simp at given

theorem keeps_modify {f : Draft → Draft} (h : ∀ d, r d (f d)) : Keeps r (modify f) := by
  intro d a d' given
  rw [gives_modify.1 given]
  exact h d

theorem keeps_inChild {x : Build α} (h : ∀ d cache, r d { d with cache := cache }) :
    Keeps r (inChild x) := by
  intro d a d' given
  obtain ⟨child, _, rfl⟩ := gives_inChild.1 given
  exact h d child.cache

theorem Keeps.guarded {x : Build α} (hx : Keeps r x) : Keeps r (guarded x) :=
  fun _ _ _ given => hx (gives_guarded.1 given).2

theorem Keeps.ite {c : Prop} [Decidable c] {x y : Build α} (hx : Keeps r x) (hy : Keeps r y) :
    Keeps r (if c then x else y) := by
  split
  · exact hx
  · exact hy

section Reflexive

variable [Std.Refl r]

theorem keeps_pure (a : α) : Keeps r (pure a) := by
  intro d b d' given
  rw [(gives_pure.1 given).2]
  exact refl d

theorem keeps_get : Keeps r get := by
  intro d s d' given
  rw [(gives_get.1 given).2]
  exact refl d

theorem keeps_orFail (found : Option α) (e : QueryError) : Keeps r (orFail found e) := by
  cases found with
  | none => exact keeps_throw e
  | some a => exact keeps_pure a

theorem keeps_expect (next : Clause) : Keeps r (expect next) := by
  intro d u d' given
  obtain ⟨_, _, got, given⟩ := gives_bind.1 given
  obtain ⟨rfl, rfl⟩ := gives_get.1 got
  exact Keeps.ite (keeps_pure ()) (keeps_throw _) given

end Reflexive

theorem Keeps.bind [IsTrans Draft r] {x : Build α} {f : α → Build β} (hx : Keeps r x)
    (hf : ∀ a, Keeps r (f a)) : Keeps r (x >>= f) := by
  intro d b d' given
  obtain ⟨a, d₁, first, second⟩ := gives_bind.1 given
  exact IsTrans.trans _ _ _ (hx first) (hf a second)

section Preorder

variable [IsPreorder Draft r]

theorem keeps_mapM {f : ι → Build α} (hf : ∀ i, Keeps r (f i)) :
    ∀ is : List ι, Keeps r (is.mapM f)
  | [] => keeps_pure []
  | i :: is => by
    rw [List.mapM_cons]
    exact (hf i).bind fun a => (keeps_mapM hf is).bind fun as => keeps_pure (a :: as)

theorem keeps_forM {f : ι → Build Unit} (hf : ∀ i, Keeps r (f i)) :
    ∀ is : List ι, Keeps r (is.forM f)
  | [] => keeps_pure ()
  | i :: is => (hf i).bind fun _ => keeps_forM hf is

theorem keeps_foldlM {f : α → ι → Build α} (hf : ∀ a i, Keeps r (f a i)) :
    ∀ (is : List ι) (a : α), Keeps r (is.foldlM f a)
  | [], a => keeps_pure a
  | i :: is, a => by
    rw [List.foldlM_cons]
    exact (hf a i).bind fun b => keeps_foldlM hf is b

end Preorder
end DmlCompiler.Build
