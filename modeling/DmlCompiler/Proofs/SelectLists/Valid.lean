import DmlCompiler.Proofs.SelectLists.Histories
import DmlCompiler.Proofs.Validity

/-! # Kept lists of valid entities

A run over entities with valid names may write a list that was kept for another entity, which has
the same name and table. If the names in these lists are valid too, whatever else was kept, the run
does what it does on lists that are all made of valid names. -/
namespace DmlCompiler

open Build

/-- An entity that shares name and table with a valid one has the select list of a valid one, if
both can be selected from. -/
def ListedAsValid (known : Entity → Prop) : Prop :=
  ∀ a b : Entity, a.Lists known → b.Lists known → b.IsValid → a.name = b.name → a.table = b.table →
    ∃ e : Entity, e.IsValid ∧ a.selectList = e.selectList

variable {known : Entity → Prop} {registry : Registry}

theorem listedAsValid_of_isValid (valid : ∀ e, known e → e.IsValid) : ListedAsValid known :=
  fun a _ asked _ _ _ _ => ⟨a, valid a asked.1, rfl⟩

namespace SelectCache

def ValidFor (known : Entity → Prop) (cache : SelectCache) : Prop :=
  ∀ b : Entity, b.Lists known → b.IsValid →
    ∀ list ∈ cache.find? b, ∃ e : Entity, e.IsValid ∧ list = e.selectList

variable {cache : SelectCache}

theorem ValidFor.fetch {a : Entity} (listed : ListedAsValid known) (h : cache.ValidFor known)
    (asked : a.Lists known) : (cache.fetch a).2.ValidFor known := by
  intro b hb valid list found
  by_cases key : (b.name, b.table) = (a.name, a.table)
  · rw [find?_congr key, find?_fetch] at found
    cases found
    rw [fetch_fst]
    cases kept : cache.find? a with
    | some list =>
      rw [← find?_congr key] at kept
      exact h b hb valid list kept
    | none =>
      obtain ⟨name, table⟩ := Prod.mk.inj key.symm
      exact listed a b asked hb valid name table
  · rw [find?_fetch_other key] at found
    exact h b hb valid list found

/-- The lists that are kept for valid entities can be kept without the others. -/
theorem ValidFor.exists_isValid (h : cache.ValidFor known) : ∃ kept : SelectCache, kept.IsValid ∧
    ∀ b : Entity, b.Lists known → b.IsValid → kept.find? b = cache.find? b := by
  classical
  let good (entry : (String × String) × String) : Prop :=
    ∃ e : Entity, e.IsValid ∧ entry.2 = e.selectList
  refine ⟨cache.filter good, fun entry mem => by simpa [good] using (List.mem_filter.1 mem).2, ?_⟩
  intro b hb valid
  have only := h b hb valid
  clear h
  unfold find? at only ⊢
  induction cache with
  | nil => rfl
  | cons entry cache ih =>
    obtain ⟨key, list⟩ := entry
    rw [List.lookup_cons] at only
    by_cases own : (b.name, b.table) = key
    · subst own
      have kept : good ((b.name, b.table), list) := only list (by simp)
      rw [List.filter_cons_of_pos (by simpa using kept), List.lookup_cons_self,
        List.lookup_cons_self]
    · have other := beq_false_of_ne own
      rw [other] at only
      rw [List.lookup_cons, other, ← ih only, List.filter_cons]
      split
      · rw [List.lookup_cons, other]
      · rfl

end SelectCache

theorem SelectCache.IsAsked.validFor (listed : ListedAsValid known) {cache : SelectCache}
    (h : cache.IsAsked known) : cache.ValidFor known := by
  induction h with
  | none => exact fun _ _ _ _ found => by cases found
  | fetch _ asked ih => exact ih.fetch listed asked

/-- Lists with valid names in the place of others, where the same ones are asked for. -/
def Exchange.cleaning {lists : Entity → Prop} (valid : ∀ e, lists e → e.IsValid) (o : Options) :
    Exchange lists o o :=
  .ofFetch o (fun k k' => k'.IsValid ∧ ∀ e, lists e → k'.find? e = k.find? e)
    (by
      rintro k k' e asked ⟨-, same⟩
      rw [SelectCache.fetch_fst, SelectCache.fetch_fst, same e asked])
    (by
      rintro k k' a asked ⟨clean, same⟩
      refine ⟨(clean.fetch (valid a asked)).2, fun b hb => ?_⟩
      by_cases key : (b.name, b.table) = (a.name, a.table)
      · rw [SelectCache.find?_congr key, SelectCache.find?_fetch, SelectCache.find?_congr key,
          SelectCache.find?_fetch, SelectCache.fetch_fst, SelectCache.fetch_fst, same a asked]
      · rw [SelectCache.find?_fetch_other key, SelectCache.find?_fetch_other key, same b hb])

theorem Part.Resolves.isValid {holds : Command → Prop} {p : Part}
    (resolves : p.Resolves known registry) (valid : p.IsValid holds registry) :
    p.Resolves (fun e => known e ∧ e.IsValid) registry := by
  cases p with
  | entity name => exact fun e found => ⟨resolves e found, valid e found⟩
  | column c => trivial
  | command c => trivial

theorem Call.Concerns.isValid {holds : Command → Prop} {c : Call}
    (concerns : c.Concerns known registry) (valid : c.IsValid holds registry) :
    c.Concerns (fun e => known e ∧ e.IsValid) registry where
  entity e he := ⟨concerns.entity e he, valid.entity e he⟩
  expressions x hx p hp :=
    (concerns.expressions x hx p hp).isValid (valid.expressions x hx p hp)

/-- Calls over valid names can be made where only lists of valid entities are kept, with the same
outcome. -/
theorem Build.makeAll_cleaned {holds : Command → Prop} {calls : List Call} {d : Draft}
    (lists : d.cache.ValidFor known) (present : ∀ call ∈ calls, call.Concerns known d.registry)
    (valid : ∀ call ∈ calls, call.IsValid holds d.registry) :
    ∃ kept : SelectCache, kept.IsValid ∧ ∃ kept', (makeAll calls).run (d.amid d.options kept) =
      (((makeAll calls).run d).1, ((makeAll calls).run d).2.amid d.options kept') := by
  obtain ⟨kept, clean, same⟩ := lists.exists_isValid
  have concern : ∀ call ∈ calls, call.Concerns (fun e => known e ∧ e.IsValid) d.registry :=
    fun call hcall => (present call hcall).isValid (valid call hcall)
  have asks (e : Entity) (asked : e.Lists fun e => known e ∧ e.IsValid) : e.IsValid := asked.1.2
  have beside : (Exchange.cleaning asks d.options).Beside d.registry d (d.amid d.options kept) :=
    ⟨rfl, rfl, kept, rfl, clean, fun e asked => same e ⟨asked.1.1, asked.2⟩ asked.1.2⟩
  obtain ⟨result, d', _, run, run', beside'⟩ := makeAll_exchanges concern beside
  obtain ⟨kept', rfl, -⟩ := beside'.exchanged
  exact ⟨kept, clean, kept', by rw [run', run]⟩

end DmlCompiler
