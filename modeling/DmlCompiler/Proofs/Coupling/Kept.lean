import DmlCompiler.Proofs.Build.Finishing
import DmlCompiler.Proofs.Coupling.Calls
import DmlCompiler.Proofs.Coupling.Commands
import DmlCompiler.Proofs.Coupling.Lists
import DmlCompiler.Proofs.Renaming
import DmlCompiler.Proofs.Rendering.Queries
import DmlCompiler.Proofs.Template

/-! # Other kept lists side by side

The same query is compiled with other kept select lists. Texts may differ by the lists in them, but
the parameters are the same: no value depends on what is kept. -/
namespace DmlCompiler

open Build Sql

theorem Entity.selectList_ne_empty (e : Entity) : e.selectList ≠ "" := by
  unfold selectList
  split
  · decide
  · next listed =>
    cases columns : e.selectable with
    | nil => simp [columns] at listed
    | cons c cs =>
      intro empty
      have chars := congrArg String.toList empty
      have named : (e.ref c).sql.toList ≠ [] := by simp [ColumnRef.sql]
      cases cs <;> simp_all

namespace SelectCache

/-- Both caches keep an empty list for the same entities. -/
def EmptyAlike (kept kept' : SelectCache) : Prop :=
  ∀ e, kept.find? e = some "" ↔ kept'.find? e = some ""

variable {o : Options} {kept kept' : SelectCache}

/-- A list is written empty only if it was kept so. -/
theorem listOf_eq_empty {e : Entity} :
    o.listOf kept e = "" ↔ o.cachesSelectLists = true ∧ kept.find? e = some "" := by
  unfold Options.listOf
  cases keeps : o.cachesSelectLists with
  | false => simp [e.selectList_ne_empty]
  | true =>
    unfold fetch
    cases found : kept.find? e with
    | none => simp [e.selectList_ne_empty]
    | some list => simp

/-- No empty list is kept anew. -/
theorem emptyAlike_after (e : Entity) : EmptyAlike kept (o.listsAfter kept e) := by
  intro e'
  unfold Options.listsAfter fetch
  split
  · split
    · rfl
    · next fresh =>
      unfold find? at fresh ⊢
      rw [List.lookup_cons]
      split
      · next same =>
        rw [eq_of_beq same, fresh]
        simp [e.selectList_ne_empty]
      · rfl
  · rfl

theorem EmptyAlike.trans {kept'' : SelectCache} (h : EmptyAlike kept kept')
    (h' : EmptyAlike kept' kept'') : EmptyAlike kept kept'' := fun e => (h e).trans (h' e)

theorem EmptyAlike.symm (h : EmptyAlike kept kept') : EmptyAlike kept' kept :=
  fun e => (h e).symm

end SelectCache

structure Draft.SameButLists (d e : Draft) : Prop where
  dialect : e.dialect = d.dialect
  registry : e.registry = d.registry
  options : e.options = d.options
  parameters : e.parameters = d.parameters
  lists : d.cache.EmptyAlike e.cache

def Coupling.kept : Coupling where
  fragment a b := a = [] ↔ b = []
  number m n := n = m
  held := Draft.SameButLists
  excuses _ := False
  text _ := Iff.rfl
  place _ := by simp
  append h h' := by rw [List.append_eq_nil_iff, List.append_eq_nil_iff, h, h']
  isEmpty h := by rw [Bool.eq_iff_iff, List.isEmpty_iff, List.isEmpty_iff, h]
  around f _ _ _ := iff_of_false (f.around_ne_nil _ _ _) (f.around_ne_nil _ _ _)
  congr held same same' := by
    constructor
    · rw [same.dialect, same'.dialect, held.dialect]
    · rw [same.registry, same'.registry, held.registry]
    · rw [same.options, same'.options, held.options]
    · rw [same.parameters, same'.parameters, held.parameters]
    · rw [same.cache, same'.cache]
      exact held.lists

namespace Coupling

variable {d e : Draft}

theorem kept_adds : kept.Adds := by
  intro value type size
  refine couples_get.bind fun d e beside => ?_
  obtain ⟨⟨_, _, _, _, _, rfl⟩, held, fragment⟩ := beside
  obtain rfl : _ = d.dialect := held.dialect
  obtain rfl : _ = d.options := held.options
  obtain rfl : _ = d.parameters := held.parameters
  refine .ite Iff.rfl (fun _ => couples_throw_bind _ _ _) fun _ => ?_
  refine Couples.then (couples_set ⟨⟨_, _, _, _, _, rfl⟩, ?_, fragment⟩) (couples_pure rfl)
  exact ⟨rfl, held.registry, rfl, rfl, held.lists⟩

theorem kept_lists (entity : Entity) : kept.Lists entity := by
  intro d e beside
  have first := defaultList_run entity d
  have second := defaultList_run entity e
  obtain ⟨⟨_, options, cache, _, _, rfl⟩, held, fragment⟩ := beside
  obtain rfl : options = d.options := held.options
  refine .inl ⟨_, _, _, _, first, second, ?_, ⟨_, _, _, _, _, rfl⟩, ?_, fragment⟩
  · show ofString _ = [] ↔ ofString _ = []
    rw [ofString_eq_nil, ofString_eq_nil, SelectCache.listOf_eq_empty, SelectCache.listOf_eq_empty]
    exact and_congr_right fun _ => held.lists entity
  · refine ⟨held.dialect, held.registry, rfl, held.parameters, ?_⟩
    have before := (d.cache.emptyAlike_after (o := d.options) entity).symm
    exact (before.trans held.lists).trans (SelectCache.emptyAlike_after entity)

structure KeptAlike (c c' : Command) : Prop where
  kind : c'.kind = c.kind
  parameters : c'.parameters = c.parameters
  text : c.sql = "" ↔ c'.sql = ""

theorem kept_child (h : kept.Beside d e) : kept.Beside d.child e.child := by
  obtain ⟨⟨_, _, _, _, _, rfl⟩, held, _⟩ := h
  refine ⟨⟨_, _, _, [], [], rfl⟩, ?_, Iff.rfl⟩
  exact ⟨held.dialect, held.registry, held.options, rfl, held.lists⟩

theorem kept_returns {d' e' : Draft} (h : kept.Beside d e) (h' : kept.Beside d' e') :
    kept.Beside { d with cache := d'.cache } { e with cache := e'.cache } := by
  obtain ⟨⟨_, _, _, _, _, rfl⟩, held, fragment⟩ := h
  refine ⟨⟨_, _, _, _, _, rfl⟩, ?_, fragment⟩
  exact ⟨held.dialect, held.registry, held.options, held.parameters, h'.held.lists⟩

theorem kept_finished {c c' : Command} (h : kept.Beside d e) (left : d.finished = .ok c)
    (right : e.finished = .ok c') : KeptAlike c c' := by
  obtain ⟨_, rfl⟩ := Draft.finished_eq left
  obtain ⟨_, rfl⟩ := Draft.finished_eq right
  obtain ⟨⟨dialect, _, _, _, _, rfl⟩, held, fragment⟩ := h
  obtain rfl : dialect = d.dialect := held.dialect
  refine ⟨rfl, held.parameters, ?_⟩
  rw [text_eq_empty, text_eq_empty]
  exact kept.append (kept.append fragment (kept.text d.limitText)) (kept.text d.pageText)

/-- A command that is inlined binds its parameters, whatever text it has. -/
theorem kept_inlines_alike {c c' : Command} (h : KeptAlike c c') :
    Couples kept kept.fragment c.inline c'.inline := by
  refine Command.inline_couples kept_adds h.kind (by rw [h.parameters]) fun {d e} beside => ?_
  show ofFinished _ _ = [] ↔ ofFinished _ _ = []
  rw [ofFinished_eq_nil, ofFinished_eq_nil]
  exact h.text

theorem kept_inlines {q : SubQuery}
    (compiled : ∀ p, q = .deferred p → Couples kept KeptAlike p.compile p.compile) :
    kept.Inlines Query.compile Query.compile q := by
  cases q with
  | command c => exact kept_inlines_alike ⟨rfl, rfl, Iff.rfl⟩
  | deferred p =>
    have finished : Couples kept KeptAlike (inChild p.compile) (inChild p.compile) :=
      (compiled p rfl).inChild kept_child kept_returns (fun _ _ _ same _ => same)
        fun _ excuse => excuse
    exact finished.bind fun c c' same => kept_inlines_alike same

theorem kept_serves {c : Call}
    (inner : ∀ q ∈ c.subQueries, kept.Inlines Query.compile Query.compile q) :
    kept.Serves Query.compile Query.compile c where
  adds := kept_adds
  inner := inner
  lists e _ := kept_lists e
  limit := limitRows_couples (fun (held : Draft.SameButLists _ _) => held.dialect) _

/-- Every query binds the same with other kept lists. -/
theorem kept_compile (q : Query) : Couples kept KeptAlike q.compile q.compile := by
  induction q using Query.induct with
  | step q ih =>
    refine (Query.compile_couples fun record hr => ⟨fun held => ?_, fun _ eq => ?_⟩).of_gives ?_
    · rw [held.dialect]
    · refine kept_serves fun s hs => kept_inlines fun p same => ih p ?_
      subst same
      exact List.mem_flatMap.2 ⟨record, hr, RecordedCall.call_subQueries eq _ hs⟩
    · intro d e c c' d' e' _ given given' beside
      exact kept_finished beside (Query.compile_gives given) (Query.compile_gives given')

end Coupling
end DmlCompiler
