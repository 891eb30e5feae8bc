import DmlCompiler.Proofs.Coupling.Calls
import DmlCompiler.Proofs.Coupling.Commands
import DmlCompiler.Proofs.Coupling.Lists
import DmlCompiler.Proofs.Rendering.Queries
import DmlCompiler.Proofs.Template

/-! # Two dialects side by side

The same query is compiled for two dialects. The drafts hold the same parameters under other names,
and their texts come from one template, as long as finished statements that are inlined are read
alike on both sides. -/
namespace DmlCompiler

open Build Sql

structure Pairing where
  left : Dialect
  right : Dialect
  registry : Registry
  /-- Both texts are to come from one template. -/
  isTemplated : Prop
  /-- The kept select lists are those of entities with valid names. -/
  isNamed : Prop

variable {p : Pairing}

/-- Both texts are empty or neither is, and they come from one template. -/
structure Pairing.Fragment (p : Pairing) (a b : Sql) : Prop where
  empty : a = [] ↔ b = []
  template : p.isTemplated → ∃ t : Template, t.render p.left = a ∧ t.render p.right = b

structure Pairing.Held (p : Pairing) (d e : Draft) : Prop where
  left : d.dialect = p.left
  right : e.dialect = p.right
  registry : d.registry = p.registry
  options : e.options = d.options
  cache : e.cache = d.cache
  contents : e.parameters.map Parameter.content = d.parameters.map Parameter.content
  lists : p.isNamed → d.cache.IsValid

theorem Pairing.Held.length {d e : Draft} (h : p.Held d e) :
    e.parameters.length = d.parameters.length := by
  have same := congrArg List.length h.contents
  rwa [List.length_map, List.length_map] at same

theorem Pairing.Fragment.same (sql : Sql) : p.Fragment sql sql :=
  ⟨Iff.rfl, fun _ => ⟨.text sql, rfl, rfl⟩⟩

theorem Pairing.Fragment.append {a b a' b' : Sql} (h : p.Fragment a b) (h' : p.Fragment a' b') :
    p.Fragment (a ++ a') (b ++ b') := by
  constructor
  · rw [List.append_eq_nil_iff, List.append_eq_nil_iff, h.empty, h'.empty]
  · intro templated
    obtain ⟨t, rfl, rfl⟩ := h.template templated
    obtain ⟨t', rfl, rfl⟩ := h'.template templated
    exact ⟨.append t t', rfl, rfl⟩

theorem Pairing.Fragment.around {a b ps qs : Sql} (f : Function) (h : p.Fragment a b)
    (params : p.Fragment ps qs) : p.Fragment (f.around p.left a ps) (f.around p.right b qs) := by
  constructor
  · constructor
    · intro empty
      exact absurd empty (f.around_ne_nil p.left a ps)
    · intro empty
      exact absurd empty (f.around_ne_nil p.right b qs)
  · intro templated
    obtain ⟨t, rfl, rfl⟩ := h.template templated
    obtain ⟨t', rfl, rfl⟩ := params.template templated
    exact ⟨.call f t t', rfl, rfl⟩

theorem Pairing.Fragment.statement {a b : Sql} (h : p.Fragment a b) (page : Option Page)
    (isOrdered : Bool) :
    p.Fragment (a ++ ofString (p.left.pageTail page isOrdered))
      (b ++ ofString (p.right.pageTail page isOrdered)) := by
  constructor
  · rw [List.append_eq_nil_iff, List.append_eq_nil_iff, h.empty, ofString_eq_nil, ofString_eq_nil,
      p.left.pageTail_eq_empty p.right]
  · intro templated
    obtain ⟨t, rfl, rfl⟩ := h.template templated
    exact ⟨.statement t page isOrdered, rfl, rfl⟩

def Coupling.dialects (p : Pairing) : Coupling where
  fragment := p.Fragment
  number m n := n = m
  held := p.Held
  excuses _ := False
  text s := .same (ofString s)
  place := by
    rintro _ _ rfl
    exact .same _
  append := Pairing.Fragment.append
  isEmpty := by
    intro a b h
    rw [Bool.eq_iff_iff, List.isEmpty_iff, List.isEmpty_iff]
    exact h.empty
  around := by
    intro d e a b ps qs f held h params
    rw [held.left, held.right]
    exact h.around f params
  congr := by
    intro d e d' e' held same same'
    constructor
    · exact same.dialect.trans held.left
    · exact same'.dialect.trans held.right
    · exact same.registry.trans held.registry
    · rw [same.options, same'.options, held.options]
    · rw [same.cache, same'.cache, held.cache]
    · rw [same.parameters, same'.parameters, held.contents]
    · rw [same.cache]
      exact held.lists

namespace Coupling

theorem dialects_adds : (dialects p).Adds := by
  intro value type size
  refine couples_get.bind fun d e beside => ?_
  obtain ⟨⟨_, _, _, parameters, _, rfl⟩, held, fragment⟩ := beside
  have length : parameters.length = d.parameters.length := held.length
  obtain rfl : _ = d.options := held.options
  simp only [Draft.over, length]
  refine .ite Iff.rfl (fun _ => couples_throw_bind _ _ _) fun _ => ?_
  refine Couples.then (couples_set ⟨⟨_, _, _, _, _, rfl⟩, ?_, fragment⟩) (couples_pure rfl)
  constructor
  · exact held.left
  · exact held.right
  · exact held.registry
  · rfl
  · exact held.cache
  · have contents : parameters.map Parameter.content = d.parameters.map Parameter.content :=
      held.contents
    simp [contents, Parameter.content]
  · exact held.lists

theorem dialects_inlines_command (compile : Query → Build Command) (c : Command) :
    (dialects p).Inlines compile compile (.command c) := by
  refine Command.inline_couples dialects_adds rfl rfl fun {d e} beside => ?_
  rw [beside.held.length]
  exact .same _

theorem dialects_lists {entity : Entity} (valid : p.isNamed → entity.IsValid) :
    (dialects p).Lists entity := by
  intro d e beside
  have first := defaultList_run entity d
  have second := defaultList_run entity e
  obtain ⟨⟨_, options, kept, _, _, rfl⟩, held, fragment⟩ := beside
  obtain rfl : options = d.options := held.options
  obtain rfl : kept = d.cache := held.cache
  refine .inl ⟨_, _, _, _, first, second, .same _, ⟨_, _, _, _, _, rfl⟩, ?_, fragment⟩
  refine ⟨held.left, held.right, held.registry, rfl, rfl, held.contents, fun named => ?_⟩
  show (d.options.listsAfter d.cache entity).IsValid
  unfold Options.listsAfter
  split
  · exact ((held.lists named).fetch (valid named)).2
  · exact held.lists named

theorem dialects_whole {d e : Draft} (h : (dialects p).Beside d e) :
    p.Fragment (d.sql ++ ofString d.limitText ++ ofString d.pageText)
      (e.sql ++ ofString e.limitText ++ ofString e.pageText) := by
  rw [d.pageText_eq, e.pageText_eq, h.held.left, h.held.right]
  obtain ⟨⟨_, _, _, _, _, rfl⟩, _, fragment⟩ := h
  exact (fragment.append (.same (ofString d.limitText))).statement d.page (d.clause = .orderBy)

end Coupling

structure Pairing.Finished (p : Pairing) (c c' : Command) : Prop where
  kind : c'.kind = c.kind
  page : c'.page = c.page
  contents : c'.parameters.map Parameter.content = c.parameters.map Parameter.content
  text : ∃ a b, p.Fragment a b ∧ c.sql = a.text p.left ∧ c'.sql = b.text p.right

theorem Coupling.dialects_finished {d e : Draft} {c c' : Command}
    (h : (dialects p).Beside d e) (left : d.finished = .ok c) (right : e.finished = .ok c') :
    p.Finished c c' := by
  have whole := dialects_whole h
  obtain ⟨_, rfl⟩ := Draft.finished_eq left
  obtain ⟨_, rfl⟩ := Draft.finished_eq right
  have leftDialect := h.held.left
  have rightDialect := h.held.right
  have contents := h.held.contents
  obtain ⟨⟨_, _, _, _, _, rfl⟩, _, _⟩ := h
  refine ⟨rfl, rfl, contents, _, _, whole, ?_, ?_⟩
  · rw [← leftDialect]
  · rw [← rightDialect]

section Inlining

variable {d e : Draft} {c c' : Command} {q : Query}

structure Pairing.Inlinable (p : Pairing) (c c' : Command) : Prop where
  kind : c'.kind = c.kind
  contents : c'.parameters.map Parameter.content = c.parameters.map Parameter.content
  text : ∀ m, p.Fragment (ofFinished (numbering m c.parameters) c.sql)
    (ofFinished (numbering m c'.parameters) c'.sql)

/-- The commands of written drafts are renamed as their template is relabelled. -/
theorem Coupling.dialects_inlinable (h : (dialects p).Beside d e) (left : d.finished = .ok c)
    (right : e.finished = .ok c')
    (written : p.isTemplated → d.Written False p.registry ∧ e.Written False p.registry) :
    p.Inlinable c c' := by
  have finished := dialects_finished h left right
  refine ⟨finished.kind, finished.contents, fun m => ?_⟩
  have whole := dialects_whole h
  constructor
  · obtain ⟨_, rfl⟩ := Draft.finished_eq left
    obtain ⟨_, rfl⟩ := Draft.finished_eq right
    rw [ofFinished_eq_nil, ofFinished_eq_nil, text_eq_empty, text_eq_empty]
    exact whole.empty
  · intro templated
    obtain ⟨t, rendered, rendered'⟩ := whole.template templated
    obtain ⟨writtenLeft, writtenRight⟩ := written templated
    obtain ⟨good, fills⟩ := writtenLeft.finished_text left
    obtain ⟨good', fills'⟩ := writtenRight.finished_text right
    obtain ⟨_, rfl⟩ := Draft.finished_eq left
    obtain ⟨_, rfl⟩ := Draft.finished_eq right
    refine ⟨t.relabel (m + ·), ?_, ?_⟩
    · rw [t.render_relabel, rendered]
      exact (Command.ofFinished_numbered writtenLeft.orderly.names good fills m).symm
    · rw [t.render_relabel, rendered']
      exact (Command.ofFinished_numbered writtenRight.orderly.names good' fills' m).symm

theorem Draft.child_written {d : Draft} (lists : d.cache.IsValid) :
    d.child.Written False d.registry :=
  Draft.new_written False.elim lists

theorem Coupling.dialects_child (h : (dialects p).Beside d e) :
    (dialects p).Beside d.child e.child := by
  obtain ⟨⟨_, _, _, _, _, rfl⟩, held, _⟩ := h
  refine ⟨⟨_, _, _, [], [], rfl⟩, ?_, .same []⟩
  exact ⟨held.left, held.right, held.registry, held.options, held.cache, rfl, held.lists⟩

theorem Coupling.dialects_returns {d' e' : Draft} (h : (dialects p).Beside d e)
    (h' : (dialects p).Beside d' e') :
    (dialects p).Beside { d with cache := d'.cache } { e with cache := e'.cache } := by
  obtain ⟨⟨_, _, _, _, _, rfl⟩, held, fragment⟩ := h
  refine ⟨⟨_, _, _, _, _, rfl⟩, ?_, fragment⟩
  exact ⟨held.left, held.right, held.registry, held.options, h'.held.cache, held.contents,
    h'.held.lists⟩

/-- A recorded sub-query with valid names is inlined alike if its query is compiled alike. -/
theorem Coupling.dialects_inlines_deferred
    (compiled : Couples (dialects p) (fun _ _ => True) q.compile q.compile)
    (named : p.isTemplated → p.isNamed)
    (valid : p.isTemplated → ∀ part ∈ q.parts, part.IsValid (Numbered False) p.registry) :
    (dialects p).Inlines Query.compile Query.compile (.deferred q) := by
  have finished : Couples (dialects p) p.Inlinable (inChild q.compile) (inChild q.compile) := by
    refine compiled.inChild dialects_child dialects_returns ?_ fun _ excuse => excuse
    intro d e c c' d' e' beside given given' _ beside'
    apply dialects_inlinable beside' (Query.compile_gives given) (Query.compile_gives given')
    intro templated
    have lists : d.cache.IsValid := beside.held.lists (named templated)
    have lists' : e.cache.IsValid := beside.held.cache ▸ lists
    have registry : d.registry = p.registry := beside.held.registry
    have registry' : e.registry = p.registry := by
      obtain ⟨⟨_, _, _, _, _, rfl⟩, _, _⟩ := beside
      exact registry
    constructor
    · apply Query.compile_written (valid templated) _ given
      rw [← registry]
      exact Draft.child_written lists
    · apply Query.compile_written (valid templated) _ given'
      rw [← registry']
      exact Draft.child_written lists'
  refine finished.bind fun c c' inlinable => ?_
  refine Command.inline_couples dialects_adds inlinable.kind inlinable.contents ?_
  intro d e beside
  rw [beside.held.length]
  exact inlinable.text d.parameters.length

end Inlining

section Queries

def Method.limitsRows : Method → Bool
  | .selectLimit | .selectPropertiesLimit => true
  | _ => false

/-- No row limit is recorded, nor in the sub-queries. -/
inductive Query.Unlimited : Query → Prop where
  | intro {q : Query} (methods : ∀ record ∈ q.calls, record.method.limitsRows = false)
      (inner : ∀ r, .deferred r ∈ q.subQueries → r.Unlimited) : q.Unlimited

variable {record : RecordedCall}

theorem RecordedCall.call?_of_unlimited (unlimited : record.method.limitsRows = false)
    (dialect dialect' : Dialect) (registry : Registry) :
    record.call? dialect registry = record.call? dialect' registry := by
  have available (d : Dialect) : record.method.isAvailable d = true := by
    unfold Method.isAvailable
    split
    · next method => rw [method] at unlimited; cases unlimited
    · next method => rw [method] at unlimited; cases unlimited
    · rfl
  rw [call?, call?, available, available]
  rfl

theorem RecordedCall.limit?_of_unlimited {entities : List Entity} {call : Call}
    (unlimited : record.method.limitsRows = false) (h : record.assemble entities = .ok call) :
    call.limit? = none := by
  unfold assemble at h
  split at h
  case h_3 method | h_4 method =>
    rw [method] at unlimited
    cases unlimited
  case h_6 =>
    obtain ⟨kind, _, h⟩ := exists_of_bind h
    obtain ⟨e, _, h⟩ := exists_of_bind h
    obtain ⟨on, _, eq⟩ := exists_of_bind h
    cases eq
    rfl
  case h_11 =>
    obtain ⟨e, _, h⟩ := exists_of_bind h
    obtain ⟨xs, _, eq⟩ := exists_of_bind h
    cases eq
    rfl
  case h_18 | h_19 =>
    cases h
    rfl
  all_goals
    obtain ⟨a, _, eq⟩ := exists_of_bind h
    cases eq
    rfl

theorem RecordedCall.limit?_of_call? {dialect : Dialect} {registry : Registry} {call : Call}
    (unlimited : record.method.limitsRows = false) (h : record.call? dialect registry = .ok call) :
    call.limit? = none := by
  unfold call? at h
  split at h
  · obtain ⟨entities, _, assembled⟩ := exists_of_bind h
    exact limit?_of_unlimited unlimited assembled
  · cases h

/-- A query without row limits is compiled for both dialects with the same outcome. -/
theorem Coupling.dialects_compile {q : Query} (unlimited : q.Unlimited)
    (named : (∃ r, .deferred r ∈ q.subQueries) → p.isTemplated → p.isNamed)
    (entities : p.isNamed → ∀ name, .entity name ∈ q.parts →
      ∀ e ∈ p.registry.entity? name, e.IsValid)
    (valid : p.isTemplated → ∀ r, .deferred r ∈ q.subQueries →
      ∀ part ∈ r.parts, part.IsValid (Numbered False) p.registry) :
    Couples (dialects p) (fun _ _ => True) q.compile q.compile := by
  induction unlimited with
  | @intro q methods inner ih =>
    have inlines : ∀ s ∈ q.subQueries, (dialects p).Inlines Query.compile Query.compile s := by
      intro s hs
      cases s with
      | command c => exact dialects_inlines_command Query.compile c
      | deferred r =>
        have nested : p.isTemplated → p.isNamed := named ⟨r, hs⟩
        apply dialects_inlines_deferred _ nested fun templated => valid templated r hs
        apply ih r hs
        · exact fun _ => nested
        · intro isNamed name hname
          exact entities isNamed name (Query.subQuery_parts hs _ hname)
        · intro templated r' hr' part hpart
          exact valid templated r hs part (Query.subQuery_parts hr' part hpart)
    refine Query.compile_couples fun record hr => ⟨fun held => ?_, fun held eq => ?_⟩
    · exact RecordedCall.call?_of_unlimited (methods record hr) _ _ _
    · refine ⟨dialects_adds, ?_, ?_, ?_⟩
      · intro s hs
        exact inlines s (List.mem_flatMap.2 ⟨record, hr, RecordedCall.call_subQueries eq s hs⟩)
      · intro e he
        apply dialects_lists
        intro isNamed
        obtain ⟨name, mem, found⟩ := (RecordedCall.covers_of_call? eq).2 e he
        rw [held.registry] at found
        exact entities isNamed name (Query.record_parts hr _ mem) e found
      · rw [RecordedCall.limit?_of_call? (methods record hr) eq]
        exact couples_pure trivial

end Queries
end DmlCompiler
