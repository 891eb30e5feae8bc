import DmlCompiler.Proofs.Frame

/-! # Operations as programs

Whatever a call does is put together from a few steps. Besides changes that have nothing to do with
options and kept select lists these are a new parameter, the select list of an entity and the text
of a sub-query. What holds of the steps and is inherited by what they are put together to holds of
every call. -/
namespace DmlCompiler

def Draft.amid (d : Draft) (options : Options) (cache : SelectCache) : Draft :=
  { d with options := options, cache := cache }

namespace Build

/-- An operation on drafts with the registry. It asks for the lists of these entities and for the
text of these sub-queries, and for no others. -/
inductive Program (registry : Registry) (compile : Query → Build Command)
    (lists : Entity → Prop) (inlines : SubQuery → Prop) : {α : Type} → Build α → Prop where
  | pure {α : Type} (a : α) : Program registry compile lists inlines (pure a)
  | throw {α : Type} (e : QueryError) :
      Program registry compile lists inlines (throw e : Build α)
  | bind {α β : Type} {x : Build α} {f : α → Build β}
      (first : Program registry compile lists inlines x)
      (next : ∀ a, Program registry compile lists inlines (f a)) :
      Program registry compile lists inlines (x >>= f)
  /-- What is read of the draft has nothing to do with options and kept lists. -/
  | look {α : Type} {f : Draft → Build α} (same : ∀ d options cache, f (d.amid options cache) = f d)
      (next : ∀ d, d.registry = registry → Program registry compile lists inlines (f d)) :
      Program registry compile lists inlines (get >>= f)
  | change {f : Draft → Draft}
      (apart : ∀ d options cache, f (d.amid options cache) = (f d).amid options cache)
      (surroundings : ∀ d, (f d).IsFor d.dialect d.registry)
      (parameters : ∀ d, (f d).parameters = d.parameters) :
      Program registry compile lists inlines (modify f)
  | addParameter (value : SqlValue) (type : Option ColumnType) (size : Option UInt32) :
      Program registry compile lists inlines (addParameter value type size)
  | defaultList {e : Entity} (asked : lists e) :
      Program registry compile lists inlines (defaultList e)
  | inline {q : SubQuery} (asked : inlines q) :
      Program registry compile lists inlines (q.inline compile)
  | guarded {α : Type} {x : Build α} (inner : Program registry compile lists inlines x) :
      Program registry compile lists inlines (guarded x)

/-- A change that has nothing to do with options and kept lists leaves them as they are. -/
theorem surroundings_of_apart {f : Draft → Draft}
    (apart : ∀ d options cache, f (d.amid options cache) = (f d).amid options cache) (d : Draft) :
    (f d).options = d.options ∧ (f d).cache = d.cache := by
  have same : f d = (f d).amid d.options d.cache := apart d d.options d.cache
  rw [same]
  exact ⟨rfl, rfl⟩

namespace Program

variable {α β ι : Type} {registry : Registry} {compile : Query → Build Command}
variable {lists : Entity → Prop} {inlines : SubQuery → Prop}

theorem throw_bind (e : QueryError) (f : α → Build β) :
    Program registry compile lists inlines (MonadExcept.throw e >>= f) :=
  Program.throw (α := β) e

theorem ite {c : Prop} [Decidable c] {x y : Build α}
    (holds : c → Program registry compile lists inlines x)
    (fails : ¬ c → Program registry compile lists inlines y) :
    Program registry compile lists inlines (if c then x else y) := by
  split
  · next h => exact holds h
  · next h => exact fails h

theorem mapM {f : ι → Build α} : ∀ {is : List ι},
    (∀ i ∈ is, Program registry compile lists inlines (f i)) →
    Program registry compile lists inlines (is.mapM f)
  | [], _ => .pure []
  | i :: is, each => by
    rw [List.mapM_cons]
    refine .bind (each i List.mem_cons_self) fun a => ?_
    refine .bind (mapM fun j hj => each j (List.mem_cons_of_mem i hj)) fun as => ?_
    exact .pure (a :: as)

theorem forM {f : ι → Build Unit} : ∀ {is : List ι},
    (∀ i ∈ is, Program registry compile lists inlines (f i)) →
    Program registry compile lists inlines (is.forM f)
  | [], _ => .pure ()
  | i :: _, each =>
    .bind (each i List.mem_cons_self) fun _ => forM fun j hj => each j (List.mem_cons_of_mem i hj)

theorem foldlM {f : α → ι → Build α}
    (each : ∀ a i, Program registry compile lists inlines (f a i)) :
    ∀ (is : List ι) (a : α), Program registry compile lists inlines (is.foldlM f a)
  | [], a => .pure a
  | i :: is, a => by
    rw [List.foldlM_cons]
    exact .bind (each a i) fun b => foldlM each is b

theorem orFail (found : Option α) (e : QueryError) :
    Program registry compile lists inlines (orFail found e) := by
  cases found with
  | none => exact .throw e
  | some a => exact .pure a

theorem expect (next : Clause) : Program registry compile lists inlines (expect next) :=
  .look (fun _ _ _ => rfl) fun _ _ => .ite (fun _ => .pure ()) fun _ => .throw _

theorem write (sql : Sql) : Program registry compile lists inlines (write sql) :=
  .change (fun _ _ _ => rfl) (fun _ => ⟨rfl, rfl⟩) fun _ => rfl

theorem bindValue (column : Option ColumnRef) (value : SqlValue) :
    Program registry compile lists inlines (bindValue column value) :=
  .bind (.addParameter value _ _) fun _ => .pure _

end Program
end Build
end DmlCompiler
