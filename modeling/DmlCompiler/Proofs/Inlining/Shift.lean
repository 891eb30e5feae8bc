import DmlCompiler.Proofs.Coupling.Calls
import DmlCompiler.Proofs.Coupling.Commands
import DmlCompiler.Proofs.Coupling.Lists
import DmlCompiler.Proofs.Rendering.Queries
import DmlCompiler.Proofs.Template

/-! # Shifted runs

Calls made on a draft that holds parameters already write what they write on an empty draft, with
every number shifted. The two runs are coupled: their texts differ by the labels of the places, and
sub-queries, which are renamed into both texts, give the same commands on both sides. -/
namespace DmlCompiler

open Build Sql

namespace Sql

variable {α β : Type} (f : α → β) {renames : List (List Char × α)}

theorem nameAt?_map (text : List Char) :
    nameAt? (renames.map fun r => (r.1, f r.2)) text =
      (nameAt? renames text).map fun r => (r.1, f r.2) := by
  have general : ∀ best : Option (List Char × α),
      (renames.map fun r => (r.1, f r.2)).foldl (better text) (best.map fun r => (r.1, f r.2)) =
        (renames.foldl (better text) best).map fun r => (r.1, f r.2) := by
    induction renames with
    | nil => exact fun _ => rfl
    | cons r renames ih =>
      intro best
      have once : better text (best.map fun r => (r.1, f r.2)) (r.1, f r.2) =
          (better text best r).map fun r => (r.1, f r.2) := by
        have held : (best.map fun r => (r.1, f r.2)).all
            (fun held => held.1.length ≤ r.1.length) =
              best.all (fun held => held.1.length ≤ r.1.length) := by
          cases best <;> rfl
        simp only [better, held]
        split <;> rfl
      rw [List.map_cons, List.foldl_cons, List.foldl_cons, once]
      exact ih (better text best r)
  exact general none

theorem scan_map (skip : Nat) (text : List Char) :
    scan (renames.map fun r => (r.1, f r.2)) skip text =
      (scan renames skip text).map (Sum.map id f) := by
  induction text generalizing skip with
  | nil => rfl
  | cons c text ih =>
    cases skip with
    | succ skip => exact ih skip
    | zero =>
      rw [scan, scan, nameAt?_map]
      cases nameAt? renames (c :: text) with
      | none => exact congrArg (Sum.inl c :: ·) (ih 0)
      | some rename => exact congrArg (Sum.inr (f rename.2) :: ·) (ih _)

/-- Other numbers for the names are other labels in the text. -/
theorem ofFinished_map (f : Nat → Nat) (renames : List (String × Nat)) (text : String) :
    ofFinished (renames.map fun r => (r.1, f r.2)) text =
      (ofFinished renames text).map (Symbol.relabel f) := by
  have names : (renames.map fun r => (r.1, f r.2)).map (fun r => (r.1.toList, r.2)) =
      (renames.map fun r => (r.1.toList, r.2)).map fun r => (r.1, f r.2) := by
    simp
  have replaced : scan ((renames.map fun r => (r.1, f r.2)).map fun r => (r.1.toList, r.2)) 0
      text.toList =
        (scan (renames.map fun r => (r.1.toList, r.2)) 0 text.toList).map (Sum.map id f) := by
    rw [names]
    exact scan_map f 0 text.toList
  refine (congrArg _ replaced).trans ?_
  rw [ofFinished, List.map_map, List.map_map]
  refine List.map_congr_left fun s _ => ?_
  cases s <;> rfl

end Sql

/-- What stands around two runs: both keep select lists or none does, and the second one has no
limit on parameters. -/
structure Surroundings where
  dialect : Dialect
  registry : Registry
  options : Options
  options' : Options
  keeping : options'.cachesSelectLists = options.cachesSelectLists
  unlimited : options'.maxParameters = 0

structure Draft.Shifted (s : Surroundings) (before : List Parameter) (d e : Draft) : Prop where
  left : d.dialect = s.dialect
  right : e.dialect = s.dialect
  registry : d.registry = s.registry
  options : d.options = s.options
  options' : e.options = s.options'
  cache : e.cache = d.cache
  numbered : d.parameters = renumbered s.dialect 0 d.parameters
  parameters : e.parameters = before ++ renumbered s.dialect before.length d.parameters

def Coupling.shift (s : Surroundings) (before : List Parameter) : Coupling where
  fragment a b := b = a.map (Symbol.relabel (before.length + ·))
  number m n := n = before.length + m
  held := Draft.Shifted s before
  excuses u := ∃ limit, u = .unsupported (.parameterLimit limit)
  text s := (relabel_ofString _ s).symm
  place := by
    rintro m _ rfl
    rfl
  append := by
    rintro a _ a' _ rfl rfl
    exact List.map_append.symm
  isEmpty := by
    rintro a _ rfl
    exact List.isEmpty_map.symm
  around := by
    rintro d e a _ ps _ f held rfl rfl
    rw [held.left, held.right, f.around_relabel]
  congr held same same' := by
    constructor
    · exact same.dialect.trans held.left
    · exact same'.dialect.trans held.right
    · exact same.registry.trans held.registry
    · exact same.options.trans held.options
    · exact same'.options.trans held.options'
    · rw [same.cache, same'.cache, held.cache]
    · rw [same.parameters]
      exact held.numbered
    · rw [same.parameters, same'.parameters, held.parameters]

section Shift

variable {s : Surroundings} {before : List Parameter}

theorem Coupling.shift_new (kept : SelectCache) :
    (shift s before).Beside (.new s.dialect s.registry s.options kept)
      ((Draft.new s.dialect s.registry s.options' kept).holding before) := by
  refine ⟨⟨s.dialect, s.options', kept, before, [], rfl⟩, ?_, rfl⟩
  constructor
  · rfl
  · rfl
  · rfl
  · rfl
  · rfl
  · rfl
  · rfl
  · exact (List.append_nil before).symm

theorem Coupling.shift_adds : (shift s before).Adds := by
  intro value type size d e beside
  rcases addParameter_run d value type size with ⟨_, limit, failed⟩ | given
  · exact .inr ⟨_, d, failed, .inl ⟨limit, rfl⟩⟩
  obtain ⟨⟨dialect', options', kept', parameters, sql, rfl⟩, held, fragment⟩ := beside
  obtain rfl : dialect' = s.dialect := held.right
  obtain rfl : options' = s.options' := held.options'
  obtain rfl : parameters = before ++ renumbered s.dialect before.length d.parameters :=
    held.parameters
  rcases addParameter_run (d.over s.dialect s.options' kept' _ sql) value type size with
    ⟨limited, _⟩ | given'
  · exact (limited s.unlimited).elim
  have length : (before ++ renumbered s.dialect before.length d.parameters).length =
      before.length + d.parameters.length := by
    rw [List.length_append, length_renumbered]
  refine .inl ⟨_, _, _, _, given, given', ?_, ⟨_, _, kept', _, sql, rfl⟩, ?_, fragment⟩
  · show _ + 1 = before.length + (d.parameters.length + 1)
    rw [← Nat.add_assoc, ← length]
    rfl
  constructor
  · exact held.left
  · exact held.right
  · exact held.registry
  · exact held.options
  · exact held.options'
  · exact held.cache
  · show d.parameters ++ [_] = renumbered s.dialect 0 (d.parameters ++ [_])
    rw [renumbered_append, ← held.numbered, renumbered, renumbered, held.left, Nat.zero_add]
  · show _ ++ [_] = before ++ renumbered s.dialect before.length (d.parameters ++ [_])
    rw [renumbered_append, renumbered, renumbered, ← List.append_assoc]
    simp only [Draft.over, length]

theorem Coupling.shift_inlines_command (compile : Query → Build Command) (c : Command) :
    (shift s before).Inlines compile compile (.command c) := by
  refine Command.inline_couples shift_adds rfl rfl fun {d e} beside => ?_
  have length : e.parameters.length = before.length + d.parameters.length := by
    rw [beside.held.parameters, List.length_append, length_renumbered]
  have shifted : List.range' (e.parameters.length + 1) c.parameters.length =
      (List.range' (d.parameters.length + 1) c.parameters.length).map (before.length + ·) := by
    rw [List.map_add_range', length, Nat.add_assoc]
  show ofFinished _ c.sql = (ofFinished _ c.sql).map _
  rw [← ofFinished_map, numbering, shifted, List.zip_map_right]
  rfl

theorem Coupling.shift_child {d e : Draft} (h : (shift s before).Beside d e) :
    (shift s []).Beside d.child e.child := by
  obtain ⟨⟨dialect', options', kept', parameters, sql, rfl⟩, held, _⟩ := h
  refine ⟨⟨dialect', options', kept', [], [], rfl⟩, ?_, rfl⟩
  exact ⟨held.left, held.right, held.registry, held.options, held.options', held.cache, rfl, rfl⟩

theorem Coupling.shift_returns {d e d' e' : Draft} (h : (shift s before).Beside d e)
    (h' : (shift s []).Beside d' e') :
    (shift s before).Beside { d with cache := d'.cache } { e with cache := e'.cache } := by
  obtain ⟨⟨dialect', options', kept', parameters, sql, rfl⟩, held, fragment⟩ := h
  refine ⟨⟨dialect', options', e'.cache, parameters, sql, rfl⟩, ?_, fragment⟩
  exact ⟨held.left, held.right, held.registry, held.options, held.options', h'.held.cache,
    held.numbered, held.parameters⟩

/-- Without parameters before them, shifted drafts are the same. -/
theorem Coupling.shift_finished {d e : Draft} {c c' : Command} (h : (shift s []).Beside d e)
    (left : d.finished = .ok c) (right : e.finished = .ok c') : c = c' := by
  obtain ⟨⟨dialect', options', kept', parameters, sql, rfl⟩, held, fragment⟩ := h
  have same : dialect' = d.dialect := held.right.trans held.left.symm
  have text : sql = d.sql := by
    have labelled : sql = d.sql.map (Symbol.relabel (0 + ·)) := fragment
    rw [labelled]
    refine (List.map_congr_left fun s _ => ?_).trans (List.map_id _)
    cases s <;> simp [Symbol.relabel]
  have unchanged : parameters = d.parameters := by
    have shifted : parameters = [] ++ renumbered s.dialect 0 d.parameters := held.parameters
    rw [shifted, List.nil_append, ← held.numbered]
  subst same text unchanged
  rw [← Except.ok.injEq, ← left, ← right]
  rfl

/-- A sub-query is inlined alike if it is a command, or if its query is compiled alike on empty
drafts. -/
theorem Coupling.shift_inlines {q : SubQuery} (compiled : ∀ p, q = .deferred p →
      Couples (shift s []) (fun c c' => c = c') p.compile p.compile) :
    (shift s before).Inlines Query.compile Query.compile q := by
  cases q with
  | command c => exact shift_inlines_command Query.compile c
  | deferred p =>
    have finished : Couples (shift s before) (fun c c' => c = c') (inChild p.compile)
        (inChild p.compile) :=
      (compiled p rfl).inChild shift_child shift_returns (fun _ _ _ same _ => same)
        fun _ excuse => excuse
    refine finished.bind fun c _ same => ?_
    subst same
    exact shift_inlines_command Query.compile c

/-- The same select list is written on both sides, and kept or not. -/
theorem Coupling.shift_lists (entity : Entity) : (shift s before).Lists entity := by
  intro d e beside
  have first := defaultList_run entity d
  have second := defaultList_run entity e
  obtain ⟨⟨dialect', options', kept', parameters, sql, rfl⟩, held, fragment⟩ := beside
  obtain rfl : options' = s.options' := held.options'
  obtain rfl : kept' = d.cache := held.cache
  have keeping : s.options'.cachesSelectLists = d.options.cachesSelectLists := by
    rw [s.keeping, held.options]
  refine .inl ⟨_, _, _, _, first, second, ?_, ⟨dialect', _, _, parameters, sql, rfl⟩, ?_, fragment⟩
  · rw [Options.listOf, ← keeping]
    exact (shift s before).text _
  · refine ⟨held.left, held.right, held.registry, held.options, rfl, ?_, held.numbered,
      held.parameters⟩
    show s.options'.listsAfter d.cache entity = d.options.listsAfter d.cache entity
    rw [Options.listsAfter, keeping, ← Options.listsAfter]

theorem Coupling.shift_serves {c : Call}
    (inner : ∀ q ∈ c.subQueries, (shift s before).Inlines Query.compile Query.compile q) :
    (shift s before).Serves Query.compile Query.compile c where
  adds := shift_adds
  inner := inner
  lists e _ := shift_lists e
  limit := limitRows_couples (fun (held : Draft.Shifted s before _ _) =>
    held.right.trans held.left.symm) _

/-- Every query is compiled to the same command on both sides. -/
theorem Coupling.shift_compile (q : Query) :
    Couples (shift s []) (fun c c' => c = c') q.compile q.compile := by
  induction q using Query.induct with
  | step q ih =>
    refine (Query.compile_couples fun record hr => ⟨fun held => ?_, fun held eq => ?_⟩).of_gives ?_
    · rw [held.left, held.right]
    · refine shift_serves fun s hs => shift_inlines fun p same => ih p ?_
      subst same
      exact List.mem_flatMap.2 ⟨record, hr, RecordedCall.call_subQueries eq _ hs⟩
    · intro d e c c' d' e' _ given given' beside
      exact shift_finished beside (Query.compile_gives given) (Query.compile_gives given')

/-- A shifted run succeeds where the run does, and shifts what the run leaves. -/
theorem Coupling.shift_makeAll (calls : List Call) :
    InStep (shift s before) (makeAll calls) (makeAll calls) :=
  makeAll_couples fun _ _ => shift_serves fun _ _ => shift_inlines fun p _ => shift_compile p

end Shift
end DmlCompiler
