import DmlCompiler.Proofs.Parts

/-! # Valid names

What is asked of the parts of a call: its tables and columns are identifiers, those of the
entities that recorded calls name are, too, and the finished commands in it are good ones. -/
namespace DmlCompiler

structure ColumnRef.IsValid (c : ColumnRef) : Prop where
  table : Identifier.check c.table = .ok ()
  column : Identifier.check c.column = .ok ()

structure Entity.IsValid (e : Entity) : Prop where
  table : Identifier.check e.table = .ok ()
  columns : ∀ c ∈ e.columns, Identifier.check c.column = .ok ()

def Entity.identifiers (e : Entity) : List String := e.table :: e.columns.map (·.column)

theorem Entity.isValid_iff {e : Entity} :
    e.IsValid ↔ ∀ name ∈ e.identifiers, Identifier.check name = .ok () := by
  simp only [identifiers, List.forall_mem_cons, List.forall_mem_map]
  exact ⟨fun h => ⟨h.table, h.columns⟩, fun h => ⟨h.1, h.2⟩⟩

instance (name : String) : Decidable (Identifier.check name = .ok ()) :=
  match Identifier.check name with
  | .ok () => .isTrue rfl
  | .error _ => .isFalse nofun

instance {e : Entity} : Decidable e.IsValid := decidable_of_iff _ Entity.isValid_iff.symm

theorem Entity.IsValid.ref {e : Entity} (h : e.IsValid) {c : Column} (hc : c ∈ e.columns) :
    (e.ref c).IsValid :=
  ⟨h.table, h.columns c hc⟩

namespace SelectCache

/-- Every list was kept for an entity with valid names. -/
def IsValid (cache : SelectCache) : Prop :=
  ∀ entry ∈ cache, ∃ e : Entity, e.IsValid ∧ entry.2 = e.selectList

variable {cache : SelectCache} {e : Entity}

theorem mem_of_find? {list : String} (h : cache.find? e = some list) :
    ((e.name, e.table), list) ∈ cache := by
  obtain ⟨front, back, eq, _⟩ := List.lookup_eq_some_iff.1 h
  simp [eq]

theorem IsValid.fetch (hc : cache.IsValid) (he : e.IsValid) :
    (∃ e' : Entity, e'.IsValid ∧ (cache.fetch e).1 = e'.selectList) ∧
      (cache.fetch e).2.IsValid := by
  unfold SelectCache.fetch
  split
  · next list eq => exact ⟨hc _ (mem_of_find? eq), hc⟩
  · refine ⟨⟨e, he, rfl⟩, ?_⟩
    intro entry mem
    rcases List.mem_cons.1 mem with rfl | mem
    · exact ⟨e, he, rfl⟩
    · exact hc entry mem

end SelectCache

/-- The names in a part are identifiers, and what is asked of a finished command holds of it. -/
def Part.IsValid (holds : Command → Prop) (registry : Registry) : Part → Prop
  | .column c => c.IsValid
  | .command c => holds c
  | .entity name => ∀ e ∈ registry.entity? name, e.IsValid

structure Call.IsValid (holds : Command → Prop) (registry : Registry) (c : Call) : Prop where
  expressions : ∀ x ∈ c.expressions, ∀ p ∈ x.parts, p.IsValid holds registry
  entity : ∀ e ∈ c.entity?, e.IsValid

theorem Call.IsValid.of_commands {holds holds' : Command → Prop} {registry : Registry} {c : Call}
    (named : c.IsValid holds registry)
    (commands : ∀ x ∈ c.expressions, ∀ inner, .command inner ∈ x.parts → holds' inner) :
    c.IsValid holds' registry := by
  refine ⟨fun x hx p hp => ?_, named.entity⟩
  have good := named.expressions x hx p hp
  cases p with
  | column c => exact good
  | command inner => exact commands x hx inner hp
  | entity name => exact good

/-- A call that is read from a valid record is valid. -/
theorem RecordedCall.call_isValid {holds : Command → Prop} {registry : Registry} {d : Dialect}
    {record : RecordedCall} {call : Call} (valid : ∀ p ∈ record.parts, p.IsValid holds registry)
    (h : record.call? d registry = .ok call) : call.IsValid holds registry := by
  obtain ⟨expressions, entity⟩ := covers_of_call? h
  refine ⟨?_, ?_⟩
  · exact fun x hx p hp => valid p (expression_parts (expressions x hx) p hp)
  · intro e he
    obtain ⟨name, mem, found⟩ := entity e he
    exact valid _ mem e found

end DmlCompiler
