import DmlCompiler.Proofs.Build.Keeps
import Mathlib.Data.List.Forall2

/-! # What operations yield

An operation yields what is stated of its result if the result is so wherever the operation
succeeds, and an invariant of drafts is kept. There is a rule for each way of composing
operations. -/
namespace DmlCompiler

namespace Build

variable {α β ι : Type} {inv : Draft → Prop} {post : α → Prop} {post' : β → Prop}

def Yields (inv : Draft → Prop) (post : α → Prop) (x : Build α) : Prop :=
  ∀ ⦃d a d'⦄, inv d → Gives x d a d' → inv d' ∧ post a

abbrev Preserves (inv : Draft → Prop) (x : Build α) : Prop := Yields inv (fun _ => True) x

theorem Yields.mono {x : Build α} {weaker : α → Prop} (hx : Yields inv post x)
    (h : ∀ a, post a → weaker a) : Yields inv weaker x := by
  intro d a d' hd given
  obtain ⟨hd', ha⟩ := hx hd given
  exact ⟨hd', h a ha⟩

/-- A relation that carries the invariant over, and that the operation keeps. -/
theorem Keeps.preserves {r : Draft → Draft → Prop} {x : Build α} (hx : Keeps r x)
    (carried : ∀ d d', r d d' → inv d → inv d') : Preserves inv x :=
  fun d _ d' hd given => ⟨carried d d' (hx given) hd, trivial⟩

theorem yields_pure {a : α} (h : post a) : Yields inv post (pure a) := by
  intro d b d' hd given
  obtain ⟨rfl, rfl⟩ := gives_pure.1 given
  exact ⟨hd, h⟩

theorem yields_throw (e : QueryError) : Yields inv post (throw e : Build α) :=
  fun _ _ _ _ given => (gives_throw.1 given).elim

theorem yields_throw_bind (e : QueryError) (f : α → Build β) :
    Yields inv post' (throw e >>= f) :=
  fun _ _ _ _ given => by simp at given

theorem yields_get : Yields inv inv get := by
  intro d s d' hd given
  obtain ⟨rfl, rfl⟩ := gives_get.1 given
  exact ⟨hd, hd⟩

theorem yields_set {s : Draft} (h : inv s) : Preserves inv (set s : Build PUnit) := by
  intro d u d' _ given
  obtain rfl := gives_set.1 given
  exact ⟨h, trivial⟩

theorem yields_modify {f : Draft → Draft} (h : ∀ d, inv d → inv (f d)) :
    Preserves inv (modify f : Build PUnit) := by
  intro d u d' hd given
  obtain rfl := gives_modify.1 given
  exact ⟨h d hd, trivial⟩

theorem Yields.bind {x : Build α} {f : α → Build β} (hx : Yields inv post x)
    (hf : ∀ a, post a → Yields inv post' (f a)) : Yields inv post' (x >>= f) := by
  intro d b d' hd given
  obtain ⟨a, d₁, first, second⟩ := gives_bind.1 given
  obtain ⟨hd₁, ha⟩ := hx hd first
  exact hf a ha hd₁ second

theorem Yields.then {x : Build α} {f : α → Build β} (hx : Preserves inv x)
    (hf : ∀ a, Yields inv post' (f a)) : Yields inv post' (x >>= f) :=
  hx.bind fun a _ => hf a

theorem Yields.guarded {x : Build α} (hx : Yields inv post x) : Yields inv post (guarded x) :=
  fun _ _ _ hd given => hx hd (gives_guarded.1 given).2

theorem Yields.ite {c : Prop} [Decidable c] {x y : Build α} (hx : c → Yields inv post x)
    (hy : ¬ c → Yields inv post y) : Yields inv post (if c then x else y) := by
  split
  · next h => exact hx h
  · next h => exact hy h

theorem yields_orFail (found : Option α) (e : QueryError) :
    Yields inv (fun a => found = some a) (orFail found e) := by
  cases found with
  | none => exact yields_throw e
  | some a => exact yields_pure rfl

theorem preserves_expect (next : Clause) : Preserves inv (expect next) := by
  refine yields_get.bind fun d _ => .ite (fun _ => yields_pure trivial) fun _ => yields_throw _

theorem yields_mapM {f : ι → Build α} : ∀ {is : List ι}, (∀ i ∈ is, Yields inv post (f i)) →
    Yields inv (fun as => ∀ a ∈ as, post a) (is.mapM f)
  | [], _ => yields_pure (by simp)
  | i :: is, hf => by
    rw [List.mapM_cons]
    refine (hf i List.mem_cons_self).bind fun a ha => ?_
    refine (yields_mapM fun j hj => hf j (List.mem_cons_of_mem i hj)).bind fun as has => ?_
    exact yields_pure (List.forall_mem_cons.2 ⟨ha, has⟩)

theorem yields_mapM_forall₂ {f : ι → Build α} {related : ι → α → Prop} : ∀ {is : List ι},
    (∀ i ∈ is, Yields inv (related i) (f i)) →
    Yields inv (fun as => List.Forall₂ related is as) (is.mapM f)
  | [], _ => yields_pure .nil
  | i :: is, hf => by
    rw [List.mapM_cons]
    refine (hf i List.mem_cons_self).bind fun a first => ?_
    refine (yields_mapM_forall₂ fun j hj => hf j (List.mem_cons_of_mem i hj)).bind fun as rest => ?_
    exact yields_pure (.cons first rest)

theorem yields_forM {f : ι → Build Unit} {p : ι → Prop} : ∀ {is : List ι},
    (∀ i ∈ is, Yields inv (fun _ => p i) (f i)) →
    Yields inv (fun _ => ∀ i ∈ is, p i) (is.forM f)
  | [], _ => yields_pure (List.forall_mem_nil _)
  | i :: is, hf => by
    refine (hf i List.mem_cons_self).bind fun _ first => ?_
    refine (yields_forM fun j hj => hf j (List.mem_cons_of_mem i hj)).mono fun _ rest => ?_
    exact List.forall_mem_cons.2 ⟨first, rest⟩

theorem preserves_forM {f : ι → Build Unit} {is : List ι} (hf : ∀ i ∈ is, Preserves inv (f i)) :
    Preserves inv (is.forM f) :=
  (yields_forM hf).mono fun _ _ => trivial

theorem yields_foldlM {f : α → ι → Build α} (hf : ∀ a i, post a → Yields inv post (f a i)) :
    ∀ (is : List ι) {a : α}, post a → Yields inv post (is.foldlM f a)
  | [], _, ha => yields_pure ha
  | i :: is, a, ha => by
    rw [List.foldlM_cons]
    exact (hf a i ha).bind fun b hb => yields_foldlM hf is hb

theorem checkPermission_preserves (e : Entity) (kind : StatementKind) :
    Preserves inv (checkPermission e kind) :=
  .ite (fun _ => yields_pure trivial) fun _ => yields_throw _

theorem checkTarget_preserves (e : Entity) (kind : StatementKind) :
    Preserves inv (checkTarget e kind) :=
  .ite (fun _ => yields_throw_bind _ _) fun _ => checkPermission_preserves e kind

theorem checkColumn_preserves (x : Expression) : Preserves inv (checkColumn x) :=
  (yields_get.bind fun _ _ => .ite (fun _ => yields_throw _) fun _ => yields_pure trivial)

end Build

theorem Expression.checkPermission_preserves {inv : Draft → Prop} (x : Expression)
    (kind : StatementKind) : Build.Preserves inv (x.checkPermission kind) := by
  unfold checkPermission
  split
  · exact .ite (fun _ => Build.yields_pure trivial) fun _ => Build.yields_throw _
  · exact Build.yields_pure trivial

end DmlCompiler
