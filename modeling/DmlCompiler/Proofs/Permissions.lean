import DmlCompiler.Proofs.Build.Yields
import DmlCompiler.Proofs.Parts

/-! # What permissions a call needs

A call that names columns to select, insert or set succeeds only if each of them permits it, and so
does a call that names an entity. -/
namespace DmlCompiler

namespace Build

variable {α β ι : Type} {p : Prop}

def Requires (x : Build α) (p : Prop) : Prop := ∀ ⦃d a d'⦄, Gives x d a d' → p

theorem Requires.first {x : Build α} {f : α → Build β} (hx : Requires x p) :
    Requires (x >>= f) p := by
  intro d b d' given
  obtain ⟨a, d₁, first, _⟩ := gives_bind.1 given
  exact hx first

theorem Requires.rest {x : Build α} {f : α → Build β} (hf : ∀ a, Requires (f a) p) :
    Requires (x >>= f) p := by
  intro d b d' given
  obtain ⟨a, d₁, _, second⟩ := gives_bind.1 given
  exact hf a second

theorem Requires.mono {x : Build α} {weaker : Prop} (hx : Requires x p) (h : p → weaker) :
    Requires x weaker := fun _ _ _ given => h (hx given)

theorem requires_mapM {f : ι → Build α} {p : ι → Prop} : ∀ {is : List ι},
    (∀ i ∈ is, Requires (f i) (p i)) → Requires (is.mapM f) (∀ i ∈ is, p i)
  | [], _ => fun _ _ _ _ => List.forall_mem_nil _
  | i :: is, hf => by
    intro d as d' given
    rw [List.mapM_cons] at given
    obtain ⟨a, d₁, first, given⟩ := gives_bind.1 given
    obtain ⟨rest, d₂, later, _⟩ := gives_bind.1 given
    exact List.forall_mem_cons.2 ⟨hf i List.mem_cons_self first,
      requires_mapM (fun j hj => hf j (List.mem_cons_of_mem i hj)) later⟩

end Build

open Build

namespace Expression

def Permits (x : Expression) (kind : StatementKind) : Prop :=
  ∀ c ∈ x.column, c.permissions.allows kind = true

variable {x : Expression} {kind : StatementKind}

theorem permits_of_isEmpty (h : x.isEmpty = true) : x.Permits kind := by
  intro c hc
  have carried : x.column = some c := hc
  simp [isEmpty, carried] at h

theorem checkPermission_requires (x : Expression) (kind : StatementKind) :
    Requires (x.checkPermission kind) (x.Permits kind) := by
  intro d u d' given c hc
  have carried : x.column = some c := hc
  rw [checkPermission, carried] at given
  dsimp only at given
  split at given
  · next allowed => exact allowed
  · exact (gives_throw.1 given).elim

end Expression

structure Entity.Takes (e : Entity) (kind : StatementKind) : Prop where
  isTable : e.kind ≠ .queryResult
  permits : e.permissions.allows kind = true

namespace Build

theorem checkPermission_requires (e : Entity) (kind : StatementKind) :
    Requires (checkPermission e kind) (e.permissions.allows kind = true) := by
  intro d u d' given
  unfold checkPermission at given
  split at given
  · next allowed => exact allowed
  · exact (gives_throw.1 given).elim

theorem checkTarget_requires (e : Entity) (kind : StatementKind) :
    Requires (checkTarget e kind) (e.Takes kind) := by
  intro d u d' given
  unfold checkTarget at given
  split at given
  · simp at given
  · next isTable =>
    exact ⟨by simpa [Entity.isQueryResult] using isTable, checkPermission_requires e kind given⟩

/-- A property passes for one of the target's by the name of its entity. -/
theorem checkColumn_yields (e : Entity) (x : Expression) :
    Yields (fun d => d.target = some e) (fun _ => x.entity = e.name) (checkColumn x) := by
  refine yields_get.bind fun d target => .ite (fun _ => yields_throw _) fun passes => ?_
  refine yields_pure ?_
  rw [target] at passes
  simpa using (not_or.1 passes).2

end Build

/-- The expressions whose columns the call checks, and for what. -/
def Call.guards : Call → List (Expression × StatementKind)
  | .select xs | .selectDistinct xs | .selectPropertiesLimit xs _ => xs.map (·, .select)
  | .insert _ xs => xs.map (·, .insert)
  | .set x _ => [(x, .update)]
  | _ => []

theorem Call.guards_expressions {c : Call} {g : Expression × StatementKind} (h : g ∈ c.guards) :
    g.1 ∈ c.expressions := by
  cases c with
  | select xs | selectDistinct xs | selectPropertiesLimit xs _ | insert _ xs =>
    obtain ⟨x, hx, rfl⟩ := List.mem_map.1 h
    exact hx
  | set x operation =>
    cases List.mem_singleton.1 h
    exact List.mem_cons_self
  | _ => cases h

variable {compile : Query → Build Command}

namespace Build

theorem selectBlock_requires (xs : List Expression) (distinct : Bool) (limit : Option UInt64) :
    Requires (selectBlock compile xs distinct limit) (∀ x ∈ xs, x.Permits .select) := by
  have each : ∀ x ∈ xs.filter (!·.isEmpty), Requires (select1 compile x) (x.Permits .select) :=
    fun x _ => (x.checkPermission_requires .select).first.first
  have listed : Requires ((xs.filter (!·.isEmpty)).mapM (select1 compile))
      (∀ x ∈ xs, x.Permits .select) := by
    refine (requires_mapM each).mono fun all x hx => ?_
    cases empty : x.isEmpty with
    | true => exact Expression.permits_of_isEmpty empty
    | false => exact all x (List.mem_filter.2 ⟨hx, by simp [empty]⟩)
  exact .rest fun _ => .rest fun _ => .rest fun _ => .rest fun _ => listed.first

theorem fromEntity_requires (e : Entity) :
    Requires (fromEntity e) (e.permissions.allows .select = true) :=
  .rest fun _ => (checkPermission_requires e .select).first

theorem joinEntity_requires (kind : JoinKind) (e : Entity) (on : Option Expression) :
    Requires (joinEntity compile kind e on) (e.permissions.allows .select = true) :=
  .rest fun _ => (checkPermission_requires e .select).first

theorem beginWith_requires (clause : Clause) (kind : StatementKind) (keyword : String)
    (e : Entity) : Requires (beginWith clause kind keyword e) (e.Takes kind) :=
  .rest fun _ => (checkTarget_requires e kind).first

/-- Without a list of its own an insert checks the columns of the entity. -/
theorem insertInto_requires (e : Entity) (xs : List Expression) :
    Requires (insertInto e xs)
      (e.Takes .insert ∧ ∀ x ∈ insertList e xs, x.entity = e.name ∧ x.Permits .insert) := by
  intro d u d' given
  obtain ⟨_, d₁, expected, afterExpect⟩ := gives_bind.1 given
  obtain ⟨_, d₂, checked, afterCheck⟩ := gives_bind.1 afterExpect
  refine ⟨checkTarget_requires e .insert checked, fun x hx => ?_⟩
  obtain ⟨_, d₃, targeted, afterTarget⟩ := gives_bind.1 afterCheck
  obtain ⟨_, d₄, permitted, _⟩ := gives_bind.1 afterTarget
  have target : d₃.target = some e := by rw [gives_modify.1 targeted]
  have each : ∀ x ∈ insertList e xs, Yields (fun d => d.target = some e)
      (fun _ => x.entity = e.name ∧ x.Permits .insert)
      (do checkColumn x; x.checkPermission .insert) := by
    intro x _
    have kept : Preserves (fun d => d.target = some e) (x.checkPermission .insert) :=
      x.checkPermission_preserves .insert
    refine (checkColumn_yields e x).bind fun _ named d u d' hd given => ?_
    exact ⟨(kept hd given).1, named, x.checkPermission_requires .insert given⟩
  exact (yields_forM each target permitted).2 x hx

/-- The columns that an insert names are those that it checks. -/
theorem mem_insertList {e : Entity} {xs : List Expression} {x : Expression} (h : x ∈ xs) :
    x ∈ insertList e xs := by
  rw [insertList]
  split
  · next none =>
    rw [List.isEmpty_iff.1 none] at h
    cases h
  · exact h

end Build

/-- A call succeeds only if the columns that it checks permit it. -/
theorem Call.make_requires (c : Call) :
    Requires (c.make compile) (∀ g ∈ c.guards, g.1.Permits g.2) := by
  cases c with
  | select xs | selectDistinct xs | selectPropertiesLimit xs _ =>
    refine (selectBlock_requires xs _ _).mono fun all g hg => ?_
    obtain ⟨x, hx, rfl⟩ := List.mem_map.1 hg
    exact all x hx
  | insert e xs =>
    refine (insertInto_requires e xs).mono fun checked g hg => ?_
    obtain ⟨x, hx, rfl⟩ := List.mem_map.1 hg
    exact (checked.2 x (mem_insertList hx)).2
  | set x operation =>
    have checked : Requires (setColumn x operation) (x.Permits .update) :=
      .rest fun _ => .rest fun _ => (x.checkPermission_requires .update).first
    refine checked.mono fun permitted g hg => ?_
    cases List.mem_singleton.1 hg
    exact permitted
  | _ => exact fun _ _ _ _ => List.forall_mem_nil _

end DmlCompiler
