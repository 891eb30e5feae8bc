import DmlCompiler.Proofs.Kinds.Calls
import DmlCompiler.Proofs.Replay

/-! # The kinds of statements

The text of a command begins with the keyword of its first clause, and its kind is the one that was
set last: that of the first clause, or that of a selection behind a union. -/
namespace DmlCompiler

open Sql Build

def StatementKind.Begins (kind : StatementKind) (text : String) : Prop :=
  ∃ keyword ∈ kind.keyword?, keyword.toList <+: text.toList

/-- The kind of the command is the one that its text begins as. -/
def Command.TellsKind (c : Command) : Prop :=
  ∀ kind : StatementKind, c.kind = kind ↔ kind.Begins c.sql

/-- No text begins with the keywords of two kinds. -/
theorem StatementKind.Begins.unique {kind kind' : StatementKind} {text : String}
    (h : kind.Begins text) (h' : kind'.Begins text) : kind = kind' := by
  obtain ⟨keyword, known, begins⟩ := h
  obtain ⟨keyword', known', begins'⟩ := h'
  have comparable := List.prefix_or_prefix_of_prefix begins begins'
  simp only [← List.isPrefixOf_iff_prefix] at comparable
  cases kind <;> cases known <;> cases kind' <;> cases known' <;>
    first | rfl | exact absurd comparable (by decide)

namespace Clause

def kindAfter (kind : StatementKind) (w : List Clause) : StatementKind :=
  w.foldl (fun kind c => c.opens?.getD kind) kind

theorem kindAfter_append (kind : StatementKind) (w v : List Clause) :
    kindAfter kind (w ++ v) = kindAfter (kindAfter kind w) v := List.foldl_append

theorem opens?_of_follows_start {n : Clause} (h : n.mayFollow .start = true) :
    ∃ kind keyword, n.opens? = some kind ∧ kind.keyword? = some keyword := by
  cases n <;> first | exact ⟨_, _, rfl, rfl⟩ | cases h

theorem opens?_of_follows_union {n : Clause} (h : n.mayFollow .union = true) :
    n.opens? = some .select := by
  cases n <;> first | rfl | cases h

/-- Behind any other clause no statement begins. -/
theorem opens?_of_follows {c n : Clause} (h : n.mayFollow c = true) (started : c ≠ .start)
    (single : c ≠ .union) : n.opens? = none := by
  cases n <;> first | rfl | (cases c <;> contradiction)

/-- The kind changes at a union, to that of a selection. -/
theorem kindAfter_of_walk {c last : Clause} {w : List Clause} (walked : c.walk w = some last)
    (complete : last.isComplete) (started : c ≠ .start) (kind : StatementKind) :
    kindAfter kind w = if c = .union ∨ .union ∈ w then .select else kind := by
  induction w generalizing c kind with
  | nil =>
    have same : c = last := Option.some.inj walked
    have single : c ≠ .union := by
      rintro rfl
      rw [← same] at complete
      cases complete
    simp [kindAfter, single]
  | cons n w ih =>
    rw [walk] at walked
    split at walked
    · next follows =>
      have later := ih walked (by rintro rfl; cases c <;> cases follows) (n.opens?.getD kind)
      have first : kindAfter kind (n :: w) = kindAfter (n.opens?.getD kind) w := rfl
      rw [first, later]
      by_cases union : c = .union
      · subst union
        simp [opens?_of_follows_union follows]
      · simp [opens?_of_follows follows started union, union, eq_comm]
    · cases walked

end Clause

def Method.clause : Method → Clause
  | .select | .selectDistinct | .selectLimit | .selectPropertiesLimit => .select
  | .from => .from
  | .join => .join
  | .filter => .where
  | .groupBy => .groupBy
  | .having => .having
  | .orderBy => .orderBy
  | .insert => .insert
  | .values | .valuesRecord => .values
  | .update => .update
  | .set => .set
  | .delete => .delete
  | .truncate => .truncate
  | .union | .unionAll => .union

def Query.clauses (q : Query) : List Clause := q.calls.map (·.method.clause)

theorem RecordedCall.clause_of_assemble {c : RecordedCall} {entities : List Entity} {call : Call}
    (h : c.assemble entities = .ok call) : call.clause? = some c.method.clause := by
  unfold assemble at h
  split at h
  case h_4 | h_11 =>
    rename_i method
    obtain ⟨_, _, h⟩ := exists_of_bind h
    obtain ⟨_, _, eq⟩ := exists_of_bind h
    cases eq
    rw [method]
    rfl
  case h_6 =>
    rename_i method
    obtain ⟨_, _, h⟩ := exists_of_bind h
    obtain ⟨_, _, h⟩ := exists_of_bind h
    obtain ⟨_, _, eq⟩ := exists_of_bind h
    cases eq
    rw [method]
    rfl
  case h_18 | h_19 =>
    rename_i method
    cases h
    rw [method]
    rfl
  all_goals
    rename_i method
    obtain ⟨_, _, eq⟩ := exists_of_bind h
    cases eq
    rw [method]
    rfl

theorem RecordedCall.clause_of_call? {c : RecordedCall} {dialect : Dialect} {registry : Registry}
    {call : Call} (h : c.call? dialect registry = .ok call) :
    call.clause? = some c.method.clause := by
  unfold call? at h
  split at h
  · obtain ⟨_, _, assembled⟩ := exists_of_bind h
    exact clause_of_assemble assembled
  · cases h

/-- The calls that a query stands for write its clauses. -/
theorem Query.clauses_of_calls? {q : Query} {dialect : Dialect} {registry : Registry}
    {calls : List Call} (read : q.calls? dialect registry = .ok calls) :
    DmlCompiler.clauses calls = q.clauses := by
  have recorded : ∀ (records : List RecordedCall) (read : List Call),
      records.mapM (·.call? dialect registry) = .ok read →
      DmlCompiler.clauses read = records.map (·.method.clause) := by
    intro records
    induction records with
    | nil =>
      rintro _ ⟨⟩
      rfl
    | cons record records ih =>
      intro read eq
      rw [List.mapM_cons] at eq
      obtain ⟨c, first, eq⟩ := RecordedCall.exists_of_bind eq
      obtain ⟨rest, later, eq⟩ := RecordedCall.exists_of_bind eq
      cases eq
      rw [List.map_cons, ← ih rest later]
      exact List.filterMap_cons_some (RecordedCall.clause_of_call? first)
  obtain ⟨inner, eq, rfl⟩ := calls?_eq_ok.1 read
  have silent : DmlCompiler.clauses (q.page.map Call.paginate).toList = [] := by
    cases q.page <;> rfl
  rw [clauses_append, silent, recorded q.calls inner eq]
  rfl

def Clause.BeginText : List Clause → Sql → Prop
  | [], sql => sql = []
  | first :: _, sql =>
    ∃ kind ∈ first.opens?, ∃ keyword ∈ kind.keyword?, ofString keyword <+: sql

namespace Draft

/-- The draft stands where the clauses lead to, is of the kind that they set last, and its text
begins as the first one does. -/
structure Tells (w : List Clause) (d : Draft) : Prop where
  walked : Clause.start.walk w = some d.clause
  kind : d.kind = Clause.kindAfter .unknown w
  text : Clause.BeginText w d.sql

variable {w : List Clause} {d d' : Draft} {u : Unit}

theorem new_tells (dialect : Dialect) (registry : Registry) (options : Options)
    (cache : SelectCache) : (new dialect registry options cache).Tells [] :=
  ⟨rfl, rfl, rfl⟩

/-- A call tells of its clause what it told of those before. -/
theorem Tells.call {c : Call} (hd : d.Tells w) (given : d.call c = (.ok (), d')) :
    d'.Tells (w ++ clauses [c]) := by
  obtain ⟨_, moves⟩ := call_walks given
  obtain ⟨_, made⟩ := gives_guarded.1 given
  have walked : Clause.start.walk (w ++ clauses [c]) = some d'.clause := by
    rw [Clause.walk_append, hd.walked]
    exact moves
  cases h : c.clause? with
  | none =>
    obtain ⟨page, rfl⟩ := c.eq_paginate h
    obtain rfl := gives_modify.1 made
    have same : w ++ clauses [.paginate page] = w := List.append_nil w
    rw [same] at walked ⊢
    exact ⟨walked, hd.kind, hd.text⟩
  | some n =>
    have wrote : clauses [c] = [n] := by simp [clauses, h]
    have opened : c.opens? = n.opens? := by simp [Call.opens?, h]
    have follows : n.mayFollow d.clause = true := c.make_follows h made
    rw [wrote] at walked ⊢
    refine ⟨walked, ?_, ?_⟩
    · rw [Clause.kindAfter_append, ← hd.kind]
      cases opens : n.opens? with
      | none =>
        rw [(c.make_extends (opened.trans opens) made).kind]
        simp [Clause.kindAfter, opens]
      | some kind =>
        rw [(c.make_turns (opened.trans opens) made).kind]
        simp [Clause.kindAfter, opens]
    · cases w with
      | nil =>
        have start : d.clause = .start := (Option.some.inj hd.walked).symm
        have empty : d.sql = [] := hd.text
        rw [start] at follows
        obtain ⟨kind, _, opens, _⟩ := Clause.opens?_of_follows_start follows
        obtain ⟨keyword, known, begun⟩ := (c.make_turns (opened.trans opens) made).sql
        rw [empty] at begun
        exact ⟨kind, opens, keyword, known, begun⟩
      | cons first w =>
        obtain ⟨kind, opens, keyword, known, begun⟩ := hd.text
        refine ⟨kind, opens, keyword, known, begun.trans ?_⟩
        cases opens : n.opens? with
        | none => exact (c.make_extends (opened.trans opens) made).sql
        | some kind =>
          obtain ⟨_, _, later⟩ := (c.make_turns (opened.trans opens) made).sql
          exact (List.prefix_append _ _).trans later

theorem Tells.makeAll {calls : List Call} (hd : d.Tells w)
    (given : Gives (Build.makeAll calls) d u d') : d'.Tells (w ++ clauses calls) := by
  induction calls generalizing w d with
  | nil =>
    obtain ⟨_, rfl⟩ := gives_pure.1 given
    rwa [clauses, List.filterMap_nil, List.append_nil]
  | cons c calls ih =>
    obtain ⟨_, d₁, first, rest⟩ := gives_bind.1 given
    have split : clauses (c :: calls) = clauses [c] ++ clauses calls := clauses_append [c] calls
    rw [split, ← List.append_assoc]
    exact ih (hd.call first) rest

theorem Tells.replay {q : Query} (hd : d.Tells w) (given : Gives (q.replay Query.compile) d u d') :
    d'.Tells (w ++ q.clauses) := by
  obtain ⟨calls, read, made⟩ := Query.replay_gives ⟨rfl, rfl⟩ given
  rw [← Query.clauses_of_calls? read]
  exact hd.makeAll made

end Draft

/-- A statement with these clauses ended with the command: its calls were made on an empty draft,
or they were recorded and compiled on one. -/
inductive Command.Made : List Clause → Command → Prop where
  | built {dialect : Dialect} {registry : Registry} {options : Options} {cache : SelectCache}
      {calls : List Call} {c : Command}
      (h : ((Draft.new dialect registry options cache).build calls).1 = .ok c) :
      Made (clauses calls) c
  | compiled {dialect : Dialect} {registry : Registry} {options : Options} {cache : SelectCache}
      {q : Query} {c : Command}
      (h : ((Draft.new dialect registry options cache).compile q).1 = .ok c) :
      Made q.clauses c

def Clause.JoinsChange (w : List Clause) : Prop := .union ∈ w ∧ w.head? ≠ some .select

variable {w : List Clause} {c : Command}

theorem Command.Made.tells (h : c.Made w) : ∃ d : Draft, d.Tells w ∧ d.finished = .ok c := by
  cases h with
  | @built dialect registry options cache calls _ h =>
    obtain ⟨d, made, finished⟩ := Draft.build_gives h
    exact ⟨d, (Draft.new_tells _ _ _ _).makeAll made, finished⟩
  | @compiled dialect registry options cache q _ h =>
    have given : Gives q.compile (Draft.new dialect registry options cache) c _ := Prod.ext h rfl
    rw [Query.compile_eq] at given
    obtain ⟨_, d, replayed, finished⟩ := gives_bind.1 given
    exact ⟨d, (Draft.new_tells _ _ _ _).replay replayed, (finish_gives finished).1⟩

/-- Only a selection has a page. -/
theorem Draft.finished_page {d : Draft} (h : d.finished = .ok c) (paged : c.page.isSome) :
    c.kind = .select := by
  obtain ⟨_, _, selects, rfl⟩ := finished_eq_ok.1 h
  exact selects (Option.isSome_iff_ne_none.1 paged)

/-- The text begins as the first clause does, and the kind is that of the last beginning. -/
theorem Command.Made.begins (h : c.Made w) : ∃ first w' kind, w = first :: w' ∧
    first.opens? = some kind ∧ kind.Begins c.sql ∧
    c.kind = if .union ∈ w then .select else kind := by
  obtain ⟨d, told, finished⟩ := h.tells
  obtain ⟨complete, rfl⟩ := Draft.finished_eq finished
  cases w with
  | nil =>
    rw [← Option.some.inj told.walked] at complete
    cases complete
  | cons first w' =>
    obtain ⟨kind, opens, keyword, known, behind, begun⟩ := told.text
    have walked := told.walked
    rw [Clause.walk] at walked
    split at walked
    · next follows =>
      have started : first ≠ .start := by rintro rfl; cases follows
      have single : first ≠ .union := by rintro rfl; cases follows
      have last := Clause.kindAfter_of_walk walked complete started kind
      refine ⟨first, w', kind, rfl, opens, ⟨keyword, known, ?_⟩, ?_⟩
      · dsimp only
        rw [text_toList, ← begun]
        simp only [chars_append, chars_ofString, List.append_assoc, List.prefix_append]
      · have first : Clause.kindAfter .unknown (first :: w') = Clause.kindAfter kind w' := by
          simp [Clause.kindAfter, Option.mem_def.1 opens]
        dsimp only
        rw [told.kind, first, last]
        simp [single, eq_comm]
    · cases walked

theorem Command.Made.tellsKind_iff (h : c.Made w) : c.TellsKind ↔ ¬ Clause.JoinsChange w := by
  obtain ⟨first, w', kind, rfl, opens, begins, set⟩ := h.begins
  have selects : (first :: w').head? = some .select ↔ kind = .select := by
    cases first <;> cases opens <;> simp
  constructor
  · intro tells ⟨joins, change⟩
    rw [if_pos joins] at set
    exact change (selects.2 (begins.unique ((tells .select).1 set)))
  · intro straight told
    have same : c.kind = kind := by
      rw [set]
      split
      · next joins =>
        by_contra other
        exact straight ⟨joins, fun selection => other (selects.1 selection).symm⟩
      · rfl
    rw [same]
    exact ⟨fun eq => eq ▸ begins, fun begun => begins.unique begun⟩

/-- A command is of the kind that its text begins as, except where a change of rows went on as a
selection. Apart from these, what is inlined or cut to a page is a selection. -/
theorem kind_tells_beginning (made : c.Made w) :
    (c.TellsKind ↔ ¬ Clause.JoinsChange w) ∧
    (¬ Clause.JoinsChange w →
      (∃ d sql d', Gives c.inline d sql d') ∨ c.page.isSome → StatementKind.select.Begins c.sql) := by
  refine ⟨made.tellsKind_iff, fun straight used => ?_⟩
  refine (made.tellsKind_iff.2 straight .select).1 ?_
  rcases used with ⟨d, sql, d', inlined⟩ | paged
  · by_contra other
    rw [Command.inline, if_pos other] at inlined
    exact keeps_throw_bind (r := fun _ _ => False) _ _ inlined
  · obtain ⟨d, -, finished⟩ := made.tells
    exact Draft.finished_page finished paged

def joinedOrders : Command where
  name := Command.anonymous
  sql := "SELECT Orders.OrderID, Orders.Amount FROM Orders UNION ALL " ++
    "SELECT Orders.OrderID, Orders.Amount FROM Orders LIMIT 10"
  parameters := []
  kind := .select
  page := some ⟨some 10, none⟩

theorem kind_tells_beginning_joined :
    joinedOrders.Made [.select, .from, .union, .select, .from] ∧ joinedOrders.TellsKind ∧
    StatementKind.select.Begins joinedOrders.sql := by
  have built : ((Draft.new .postgres (.new true) {} []).build
      [.select [], .from orders, .unionAll, .select [], .from orders, .paginate ⟨some 10, none⟩]).1 =
        .ok joinedOrders := by decide +kernel
  have made : joinedOrders.Made [.select, .from, .union, .select, .from] := .built built
  have straight : ¬ Clause.JoinsChange [.select, .from, .union, .select, .from] := by
    simp [Clause.JoinsChange]
  obtain ⟨tells, selects⟩ := kind_tells_beginning made
  exact ⟨made, tells.2 straight, selects straight (.inr rfl)⟩

def joinedDeletion : Command where
  name := Command.anonymous
  sql := "DELETE FROM Orders WHERE (Orders.Amount > $1) UNION " ++
    "SELECT Orders.OrderID, Orders.Amount FROM Orders LIMIT 10"
  parameters := [⟨"$1", .integer 7, some .decimal, none⟩]
  kind := .select
  page := some ⟨some 10, none⟩

/-- A deletion that goes on as a selection is taken for one: it has a page and can be inlined. -/
theorem joined_deletion_is_select :
    ((Draft.new .postgres (.new true) {} []).build
      [.delete orders, .filter (amount.greaterThan (.integer 7)), .union, .select [], .from orders,
        .paginate ⟨some 10, none⟩]).1 = .ok joinedDeletion ∧
    ¬ joinedDeletion.TellsKind ∧
    (joinedDeletion.inline.run (Draft.new .postgres (.new true) {} [])).1.toOption.isSome ∧
    StatementKind.delete.Begins joinedDeletion.sql := by
  have begins : StatementKind.delete.Begins joinedDeletion.sql :=
    ⟨"DELETE FROM", rfl, by decide +kernel⟩
  refine ⟨by decide +kernel, ?_, by decide +kernel, begins⟩
  intro tells
  cases (tells .delete).2 begins

end DmlCompiler
