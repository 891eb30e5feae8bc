import DmlCompiler.Proofs.Build.Runs

/-! # Operations that mirror one another

Two operations mirror one another along a map of drafts if the second, run on the image of a
draft, gives the image of what the first gives on the draft, also where they fail. There is a rule
for each way of composing operations. -/
namespace DmlCompiler.Build

variable {α β γ δ : Type} {h : Draft → Draft} {k : α → β} {l : γ → δ}

def Mirrors (h : Draft → Draft) (k : α → β) (x : Build α) (y : Build β) : Prop :=
  ∀ d, y.run (h d) = ((x.run d).1.map k, h (x.run d).2)

theorem mirrors_pure (a : α) : Mirrors h k (pure a) (pure (k a)) := fun _ => rfl

theorem mirrors_throw (e : QueryError) : Mirrors h k (throw e) (throw e) := fun _ => rfl

theorem mirrors_throw_bind (e : QueryError) (f : α → Build γ) (g : β → Build δ) :
    Mirrors h l (throw e >>= f) (throw e >>= g) := fun _ => rfl

theorem mirrors_get : Mirrors h h get get := fun _ => rfl

theorem mirrors_set {d d' : Draft} (hd : d' = h d) : Mirrors h id (set d) (set d') := by
  subst hd
  exact fun _ => rfl

theorem mirrors_modify {f g : Draft → Draft} (hfg : ∀ d, g (h d) = h (f d)) :
    Mirrors h id (modify f) (modify g) := by
  intro d
  show ((Except.ok ⟨⟩, g (h d)) : Except QueryError PUnit × Draft) = (.ok ⟨⟩, h (f d))
  rw [hfg d]

theorem Mirrors.bind {x : Build α} {y : Build β} {f : α → Build γ} {g : β → Build δ}
    (hx : Mirrors h k x y) (hf : ∀ a, Mirrors h l (f a) (g (k a))) :
    Mirrors h l (x >>= f) (y >>= g) := by
  intro d
  simp only [run_bind, hx d]
  rcases x.run d with ⟨_ | a, d₁⟩
  · rfl
  · exact hf a d₁

theorem Mirrors.ite {c : Prop} [Decidable c] {x x' : Build α} {y y' : Build β}
    (hx : Mirrors h k x y) (hx' : Mirrors h k x' y') :
    Mirrors h k (if c then x else x') (if c then y else y') := by
  split
  · exact hx
  · exact hx'

/-- The mapped list is run through as the list itself. -/
theorem mirrors_mapM {ι κ : Type} {m : ι → κ} {f : ι → Build α} {g : κ → Build β} :
    ∀ {is : List ι}, (∀ i ∈ is, Mirrors h k (f i) (g (m i))) →
      Mirrors h (List.map k) (is.mapM f) ((is.map m).mapM g)
  | [], _ => mirrors_pure []
  | i :: is, hf => by
    rw [List.map_cons, List.mapM_cons, List.mapM_cons]
    refine (hf i List.mem_cons_self).bind fun a => ?_
    refine (mirrors_mapM fun j hj => hf j (List.mem_cons_of_mem _ hj)).bind fun as => ?_
    exact mirrors_pure (a :: as)

theorem mirrors_mapM_same {ι κ : Type} {m : ι → κ} {f : ι → Build α} {g : κ → Build α}
    {is : List ι} (hf : ∀ i ∈ is, Mirrors h id (f i) (g (m i))) :
    Mirrors h id (is.mapM f) ((is.map m).mapM g) := by
  have same := mirrors_mapM hf
  rwa [List.map_id_fun] at same

theorem mirrors_forM {ι κ : Type} {m : ι → κ} {f : ι → Build Unit} {g : κ → Build Unit} :
    ∀ {is : List ι}, (∀ i ∈ is, Mirrors h id (f i) (g (m i))) →
      Mirrors h id (is.forM f) ((is.map m).forM g)
  | [], _ => mirrors_pure ()
  | i :: _, hf =>
    (hf i List.mem_cons_self).bind fun _ =>
      mirrors_forM fun j hj => hf j (List.mem_cons_of_mem _ hj)

theorem mirrors_foldlM {ι κ : Type} {m : ι → κ} {f : α → ι → Build α} {g : α → κ → Build α}
    (hf : ∀ a i, Mirrors h id (f a i) (g a (m i))) :
    ∀ (is : List ι) (a : α), Mirrors h id (is.foldlM f a) ((is.map m).foldlM g a)
  | [], a => mirrors_pure a
  | i :: rest, a => by
    rw [List.map_cons, List.foldlM_cons, List.foldlM_cons]
    exact (hf a i).bind fun b => mirrors_foldlM hf rest b

theorem Mirrors.guarded {x : Build α} {y : Build β} (hx : Mirrors h k x y)
    (same : ∀ d, (h d).failure = d.failure)
    (kept : ∀ d e, h { d with failure := e } = { h d with failure := e }) :
    Mirrors h k (guarded x) (guarded y) := by
  intro d
  cases hd : d.failure with
  | some e => rw [run_guarded_failed hd, run_guarded_failed ((same d).trans hd)]; rfl
  | none =>
    rw [run_guarded hd, run_guarded ((same d).trans hd), hx d]
    rcases x.run d with ⟨e | a, d₁⟩
    · exact congrArg (Prod.mk _) (kept d₁ e).symm
    · rfl

end DmlCompiler.Build
