import DmlCompiler.Call
import DmlCompiler.Proofs.Build.Runs

/-! # Select lists

The list that is written for an entity, and the lists that are kept afterwards. -/
namespace DmlCompiler

open Build

namespace SelectCache

variable {cache : SelectCache} {a b : Entity}

theorem find?_congr (same : (a.name, a.table) = (b.name, b.table)) :
    cache.find? a = cache.find? b := by
  rw [find?, same, find?]

theorem fetch_fst : (cache.fetch a).1 = (cache.find? a).getD a.selectList := by
  unfold fetch
  split
  · next list found => rw [found, Option.getD_some]
  · next fresh => rw [fresh, Option.getD_none]

theorem find?_fetch (cache : SelectCache) (a : Entity) :
    (cache.fetch a).2.find? a = some (cache.fetch a).1 := by
  unfold fetch
  split
  · next list found => exact found
  · simp [find?]

theorem find?_fetch_other (other : (b.name, b.table) ≠ (a.name, a.table)) :
    (cache.fetch a).2.find? b = cache.find? b := by
  unfold fetch
  split
  · rfl
  · rw [find?, List.lookup_cons, beq_false_of_ne other]
    rfl

theorem fetch_fetch_same (same : (a.name, a.table) = (b.name, b.table)) :
    ((cache.fetch a).2.fetch b).1 = (cache.fetch a).1 := by
  rw [fetch_fst, ← find?_congr same, find?_fetch, Option.getD_some]

end SelectCache

namespace Options

def listOf (o : Options) (kept : SelectCache) (entity : Entity) : String :=
  if o.cachesSelectLists then (kept.fetch entity).1 else entity.selectList

def listsAfter (o : Options) (kept : SelectCache) (entity : Entity) : SelectCache :=
  if o.cachesSelectLists then (kept.fetch entity).2 else kept

end Options

theorem Build.defaultList_run (entity : Entity) (d : Draft) :
    Gives (defaultList entity) d (d.options.listOf d.cache entity)
      { d with cache := d.options.listsAfter d.cache entity } := by
  unfold defaultList Options.listOf Options.listsAfter Gives
  rw [run_get_bind]
  cases d.options.cachesSelectLists <;> rfl

end DmlCompiler
