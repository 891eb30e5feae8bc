import DmlCompiler.Proofs.Bindings
import DmlCompiler.Proofs.Build.Finishing
import DmlCompiler.Proofs.Build.Steps
import DmlCompiler.Proofs.ConditionCalls
import DmlCompiler.Proofs.Grammar
import DmlCompiler.Proofs.Replay
import DmlCompiler.Proofs.Rendering.Calls

/-! # What becomes of the nodes of a condition

A condition is a tree of expressions. In its text every node that has a column, or is the wildcard,
shows its own comparison once, in the order of the tree, with its values in parameters. Between them
stand connectives and parentheses only. A node without a column holds others and shows nothing. -/
namespace DmlCompiler

open Build Sql

namespace Expression

mutual

/-- The nodes of the tree: the expression, then the nodes of its children. -/
def family : Expression → List Expression
  | x@⟨_, _, _, _, _, _, _, _, _, _, children⟩ => x :: families children

def families : List Expression → List Expression
  | [] => []
  | child :: rest => child.family ++ families rest

end

theorem families_eq (xs : List Expression) : families xs = xs.flatMap family := by
  induction xs with
  | nil => rfl
  | cons x xs ih => rw [families, ih, List.flatMap_cons]

def shown (x : Expression) : List Expression := x.family.filter fun y => !y.isEmpty

theorem shown_eq (x : Expression) :
    x.shown = (if x.isEmpty then [] else [x]) ++ x.children.flatMap shown := by
  have family_eq : x.family = x :: x.children.flatMap family := by
    cases x
    rw [family, families_eq]
  rw [shown, family_eq, List.filter_cons, List.filter_flatMap]
  cases x.isEmpty <;> rfl

/-- A node by itself: a column with its functions, and what it is compared with. -/
inductive Shows (compile : Query → Build Command) (ground : Draft) (x : Expression) :
    Nat → Sql → List Binding → Prop where
  | reference (absent : x.operator = none) (n : Nat) :
      Shows compile ground x n (x.referenceText ground.dialect n) x.functionBindings
  | check {operator : Operator} (present : x.operator = some operator)
      (isNullCheck : operator.isNullCheck) (n : Nat) :
      Shows compile ground x n (x.referenceText ground.dialect n ++ ofString s!" {operator.sql}")
        x.functionBindings
  | comparison {operator : Operator} {a : Argument} {n : Nat} {right : Sql} {bs : List Binding}
      (present : x.operator = some operator) (binary : operator.isNullCheck = false)
      (argument : x.argument = some a)
      (shown : a.Shows compile ground x.typed operator (n + x.functionBindings.length) right bs) :
      Shows compile ground x n
        (x.referenceText ground.dialect n ++ ofString s!" {operator.sql}" ++ ofString " " ++ right)
        (x.functionBindings ++ bs)

variable {compile : Query → Build Command} {ground d d' : Draft} {x : Expression} {sql : Sql}

theorem condition_empty (empty : x.isEmpty = true) (given : Gives (x.condition compile) d sql d') :
    sql = [] ∧ d' = d := by
  rw [condition, if_pos empty] at given
  exact gives_pure.1 given

theorem condition_shows (some : x.isEmpty = false) (reached : ground.Reaches d)
    (given : Gives (x.condition compile) d sql d') :
    ∃ bs, x.Shows compile ground d.parameters.length sql bs ∧ d.Gains bs d' := by
  rw [condition, if_neg (by simp [some])] at given
  obtain ⟨left, d₁, referred, compared⟩ := gives_bind.1 given
  obtain ⟨-, rfl, gained⟩ := reference_binds referred
  rw [reached.dialect] at compared
  cases present : x.operator with
  | none =>
    rw [present] at compared
    obtain ⟨rfl, rfl⟩ := gives_pure.1 compared
    exact ⟨_, .reference present _, gained⟩
  | some operator =>
    rw [present] at compared
    dsimp only at compared
    split at compared
    · next isNullCheck =>
      obtain ⟨rfl, rfl⟩ := gives_pure.1 compared
      exact ⟨_, .check present isNullCheck _, gained⟩
    · next binary =>
      obtain ⟨right, d₂, bound, last⟩ := gives_bind.1 compared
      obtain ⟨rfl, rfl⟩ := gives_pure.1 last
      obtain ⟨a, bs, argument, shown, gainedRight⟩ := rightSide_binds (reached.gains gained) bound
      rw [gained.count] at shown
      exact ⟨_, .comparison present (by simpa using binary) argument shown,
        gained.trans gainedRight⟩

end Expression

def joints : List String := [" AND ", " OR ", "NOT ", "(", ")"]

/-- The texts stand in the whole, each once and in their order, and nothing but joints besides. -/
inductive Threads : List Sql → Sql → Prop where
  | nil : Threads [] []
  | own (sql : Sql) {owns : List Sql} {rest : Sql} (h : Threads owns rest) :
      Threads (sql :: owns) (sql ++ rest)
  | joint {joint : String} (mem : joint ∈ joints) {owns : List Sql} {rest : Sql}
      (h : Threads owns rest) : Threads owns (ofString joint ++ rest)

section Threads

variable {owns owns' : List Sql} {sql rest before : Sql} {x : Expression}

theorem Threads.append (h : Threads owns sql) (h' : Threads owns' rest) :
    Threads (owns ++ owns') (sql ++ rest) := by
  induction h with
  | nil => exact h'
  | own text _ ih =>
    rw [List.append_assoc]
    exact .own text ih
  | joint mem _ ih =>
    rw [List.append_assoc]
    exact .joint mem ih

theorem Threads.single (sql : Sql) : Threads [sql] sql := by
  simpa using Threads.own sql .nil

theorem Threads.between {joint : String} (h : Threads owns before) (mem : joint ∈ joints)
    (h' : Threads owns' rest) : Threads (owns ++ owns') (before ++ ofString joint ++ rest) := by
  rw [List.append_assoc]
  exact h.append (.joint mem h')

theorem Threads.parenthesize (h : Threads owns sql) : Threads owns sql.parenthesize := by
  have closes : ")" ∈ joints := by decide
  have opens : "(" ∈ joints := by decide
  have close : Threads [] (ofString ")") := by
    simpa using Threads.joint closes .nil
  have inside := (Threads.joint opens h).append close
  rwa [List.append_nil] at inside

theorem Threads.negate (h : Threads owns sql) :
    Threads owns (ofString "NOT " ++ sql.parenthesize) :=
  .joint (by decide) h.parenthesize

theorem Threads.grouped (h : Threads owns sql) : Threads owns (x.grouped sql) := by
  unfold Expression.grouped
  split
  · exact h
  · exact h.parenthesize

theorem Threads.joined (hb : Threads owns before) (h : Threads owns' sql) :
    Threads (owns ++ owns') (x.joined before sql) := by
  unfold Expression.joined
  split
  · next empty =>
    obtain rfl := List.isEmpty_iff.1 empty
    simpa using hb.append h
  · split
    · next first =>
      obtain rfl := List.isEmpty_iff.1 first
      exact hb.append h
    · have mem : s!" {(x.connective.getD .and).sql} " ∈ joints := by
        cases x.connective.getD .and <;> decide
      exact hb.between mem h

/-- A text that is among the others stands in the whole. -/
theorem Threads.ne_nil (h : Threads owns sql) (mem : rest ∈ owns) (some : rest ≠ []) :
    sql ≠ [] := by
  induction h with
  | nil => cases mem
  | own text _ ih =>
    rcases List.mem_cons.1 mem with rfl | later
    · exact List.append_ne_nil_of_left_ne_nil some _
    · exact List.append_ne_nil_of_right_ne_nil _ (ih later)
  | joint _ _ ih => exact List.append_ne_nil_of_right_ne_nil _ (ih mem)

end Threads

namespace Expression

variable {compile : Query → Build Command} {ground : Draft}

/-- The comparisons of the nodes stand in the text, one behind the other, and bind their values. -/
def Displays (compile : Query → Build Command) (ground : Draft) :
    List Expression → Nat → List Sql → List Binding → Prop :=
  InTurn (Shows compile ground)

theorem condition_displays {x : Expression} {d d' : Draft} {sql : Sql}
    (reached : ground.Reaches d) (given : Gives (x.condition compile) d sql d') :
    ∃ owns bs, Displays compile ground (if x.isEmpty then [] else [x]) d.parameters.length owns
      bs ∧ Threads owns sql ∧ d.Gains bs d' := by
  cases empty : x.isEmpty with
  | true =>
    obtain ⟨rfl, rfl⟩ := condition_empty empty given
    exact ⟨[], [], .nil, .nil, Draft.gains_nil _⟩
  | false =>
    obtain ⟨bs, shows, gained⟩ := condition_shows empty reached given
    have alone : Displays compile ground [x] d.parameters.length [sql] (bs ++ []) :=
      .cons shows .nil
    rw [List.append_nil] at alone
    exact ⟨[sql], bs, alone, .single sql, gained⟩

mutual

theorem predicate_displays : ∀ {x : Expression} {d d' : Draft} {sql : Sql}, ground.Reaches d →
    Gives (x.predicate compile) d sql d' →
    ∃ owns bs, Displays compile ground x.shown d.parameters.length owns bs ∧ Threads owns sql ∧
      d.Gains bs d'
  | x@⟨_, _, _, _, _, _, _, _, _, _, children⟩, d, d', sql, reached, given => by
    rw [predicate_eq] at given
    obtain ⟨own, d₁, rendered, following⟩ := gives_bind.1 given
    obtain ⟨all, d₂, appended, last⟩ := gives_bind.1 following
    obtain ⟨rfl, rfl⟩ := gives_pure.1 last
    obtain ⟨owns, bs, displayed, threads, gained⟩ := condition_displays reached rendered
    obtain ⟨owns', bs', displayed', threads', gained'⟩ :=
      appendChildren_displays (reached.gains gained) threads appended
    rw [gained.count] at displayed'
    refine ⟨owns ++ owns', bs ++ bs', ?_, ?_, gained.trans gained'⟩
    · rw [shown_eq]
      exact displayed.append displayed'
    · split
      · exact threads'.negate
      · exact threads'

theorem appendChildren_displays : ∀ {children : List Expression} {before sql : Sql}
    {owns : List Sql} {d d' : Draft}, ground.Reaches d → Threads owns before →
    Gives (appendChildren compile before children) d sql d' →
    ∃ owns' bs, Displays compile ground (children.flatMap shown) d.parameters.length owns' bs ∧
      Threads (owns ++ owns') sql ∧ d.Gains bs d'
  | [], before, sql, owns, d, d', reached, threads, given => by
    rw [appendChildren] at given
    obtain ⟨rfl, rfl⟩ := gives_pure.1 given
    exact ⟨[], [], .nil, by rwa [List.append_nil], Draft.gains_nil _⟩
  | child :: rest, before, sql, owns, d, d', reached, threads, given => by
    rw [appendChildren] at given
    obtain ⟨own, d₁, rendered, following⟩ := gives_bind.1 given
    obtain ⟨first, bs, displayed, inside, gained⟩ := predicate_displays reached rendered
    obtain ⟨later, cs, displayed', threads', gained'⟩ :=
      appendChildren_displays (reached.gains gained) (threads.joined inside.grouped) following
    rw [gained.count] at displayed'
    refine ⟨first ++ later, bs ++ cs, ?_, ?_, gained.trans gained'⟩
    · rw [List.flatMap_cons]
      exact displayed.append displayed'
    · rwa [← List.append_assoc]

end

end Expression

/-- The condition of a filter, of a HAVING clause or of a join that has one. -/
def Call.condition? : Call → Option Expression
  | .filter x | .having x => some x
  | .join kind _ on => if kind.takesPredicate then on else none
  | _ => none

/-- What the call writes before its condition: a keyword, or a connective where the clause is open
already. -/
def Call.conditionOpening (d : Draft) : Call → String
  | .filter x => opener " WHERE (" (!d.whereOpen) x
  | .having x => opener " HAVING (" (!d.havingOpen) x
  | .join kind e _ => s!" {kind.sql} {e.table}" ++ " ON "
  | _ => ""

def Call.conditionClosing : Call → String
  | .filter _ | .having _ => ")"
  | _ => ""

section Calls

variable {compile : Query → Build Command} {d d' : Draft} {u : Unit} {x : Expression}

/-- The call writes the condition: each comparison in it once, in order, its values bound, and
nothing else. A condition that shows nothing is left out with what stands around it. -/
structure Draft.GainsCondition (compile : Query → Build Command) (call : Call) (x : Expression)
    (d d' : Draft) (owns : List Sql) (bs : List Binding) : Prop where
  text : ∃ sql, Threads owns sql ∧ d'.sql = d.sql ++ if sql = [] then [] else
    ofString (call.conditionOpening d) ++ sql ++ ofString call.conditionClosing
  displays : Expression.Displays compile d x.shown d.parameters.length owns bs
  parameters : d'.parameters = (d.bound bs).parameters

/-- The draft with a condition added shows the comparisons of its expression. -/
theorem ConditionClause.call_displays (k : ConditionClause)
    (given : Gives ((k.call x).make compile) d u d') :
    ∃ owns bs, d.GainsCondition compile (k.call x) x d' owns bs := by
  obtain ⟨sql, d₁, rendered, rfl⟩ := k.call_gives given
  obtain ⟨owns, bs, displayed, threads, gained⟩ :=
    Expression.predicate_displays d.reaches_refl rendered
  refine ⟨owns, bs, ⟨sql, threads, ?_⟩, displayed, k.added_parameters.trans gained.parameters⟩
  obtain ⟨_, rfl⟩ := gained
  cases k <;> rfl

theorem Build.onClause_displays {kind : JoinKind} {e : Entity} {on : Option Expression} {sql : Sql}
    (takes : kind.takesPredicate = true) (tests : on = some x)
    (given : Gives (onClause compile kind e on) d sql d') :
    ∃ condition owns bs, sql = ofString " ON " ++ condition ∧ condition ≠ [] ∧
      Threads owns condition ∧
      Expression.Displays compile d x.shown d.parameters.length owns bs ∧ d.Gains bs d' := by
  subst tests
  rw [onClause, if_pos takes] at given
  obtain ⟨condition, d₁, rendered, checked⟩ := gives_bind.1 given
  obtain ⟨owns, bs, displayed, threads, gained⟩ :=
    Expression.predicate_displays d.reaches_refl rendered
  split at checked
  · exact (gives_throw.1 checked).elim
  · next some =>
    obtain ⟨rfl, rfl⟩ := gives_pure.1 checked
    exact ⟨condition, owns, bs, rfl, by simpa using some, threads, displayed, gained⟩

theorem Call.make_displays {c : Call} (tests : c.condition? = some x)
    (given : Gives (c.make compile) d u d') :
    ∃ owns bs, d.GainsCondition compile c x d' owns bs := by
  cases c <;> try cases tests
  case filter => exact ConditionClause.rows.call_displays given
  case having => exact ConditionClause.groups.call_displays given
  case join kind e on =>
    rw [Call.condition?] at tests
    split at tests
    · next takes =>
      obtain ⟨_, d₁, expected, afterExpect⟩ := gives_bind.1 given
      obtain ⟨-, rfl⟩ := expect_gives expected
      obtain ⟨_, d₂, checked, afterCheck⟩ := gives_bind.1 afterExpect
      obtain rfl := checkPermission_gives checked
      obtain ⟨clause, d₃, rendered, afterCondition⟩ := gives_bind.1 afterCheck
      obtain ⟨_, d₄, wrote, moved⟩ := gives_bind.1 afterCondition
      obtain ⟨condition, owns, bs, rfl, some, threads, displayed, gained⟩ :=
        onClause_displays takes tests rendered
      obtain ⟨_, rfl⟩ := gained
      obtain rfl := gives_modify.1 wrote
      obtain rfl := gives_modify.1 moved
      refine ⟨owns, bs, ⟨condition, threads, ?_⟩, displayed, rfl⟩
      rw [if_neg some]
      simp [Call.conditionOpening, Call.conditionClosing, ofString, Draft.bound]
    · cases tests

end Calls

namespace Draft

structure Grows (d d' : Draft) : Prop where
  dialect : d'.dialect = d.dialect
  sql : d.sql <+: d'.sql
  parameters : d.parameters <+: d'.parameters
  opened : d'.whereOpen = true → d.whereOpen = true ∨ ofString " WHERE (" <:+: d'.sql

instance : IsPreorder Draft Grows where
  refl _ := ⟨rfl, List.prefix_rfl, List.prefix_rfl, .inl⟩
  trans _ _ _ h h' := by
    refine ⟨h'.dialect.trans h.dialect, h.sql.trans h'.sql, h.parameters.trans h'.parameters, ?_⟩
    intro isOpen
    rcases h'.opened isOpen with before | wrote
    · exact (h.opened before).imp_right fun wrote => wrote.trans h'.sql.isInfix
    · exact .inr wrote

theorem grows_holdsOverSteps : HoldsOverSteps Grows where
  appends := by
    rintro d _ ⟨_, _, rfl⟩
    exact ⟨rfl, List.prefix_rfl, ⟨_, rfl⟩, .inl⟩
  write _ sql := ⟨rfl, ⟨sql, rfl⟩, List.prefix_rfl, .inl⟩
  clause _ _ := ⟨rfl, List.prefix_rfl, List.prefix_rfl, .inl⟩
  kind _ _ := ⟨rfl, List.prefix_rfl, List.prefix_rfl, .inl⟩
  selected _ _ := ⟨rfl, List.prefix_rfl, List.prefix_rfl, .inl⟩
  listPending _ _ := ⟨rfl, List.prefix_rfl, List.prefix_rfl, .inl⟩
  rowLimit _ _ := ⟨rfl, List.prefix_rfl, List.prefix_rfl, .inl⟩
  page _ _ := ⟨rfl, List.prefix_rfl, List.prefix_rfl, .inl⟩
  target _ _ := ⟨rfl, List.prefix_rfl, List.prefix_rfl, .inl⟩
  insertColumns _ _ := ⟨rfl, List.prefix_rfl, List.prefix_rfl, .inl⟩
  closed _ := ⟨rfl, List.prefix_rfl, List.prefix_rfl, nofun⟩
  condition d x sql := by
    refine ⟨rfl, ⟨_, rfl⟩, List.prefix_rfl, fun _ => ?_⟩
    cases isOpen : d.whereOpen with
    | true => exact .inl rfl
    | false => exact .inr ⟨d.sql, sql ++ ofString ")", by simp [opener]⟩
  groupCondition _ _ _ := ⟨rfl, ⟨_, rfl⟩, List.prefix_rfl, .inl⟩

/-- Where WHERE has been written since, a condition is joined to others behind it. -/
theorem Grows.exists_opening {d d' : Draft} (grown : Grows d d') (closed : d.whereOpen = false)
    (x : Expression) : ∃ front between,
      d'.sql ++ ofString (opener " WHERE (" (!d'.whereOpen) x) =
        front ++ ofString " WHERE (" ++ between ∧
      (between = [] ∨ ∃ others, between = others ++ ofString (opener " WHERE (" false x)) := by
  cases isOpen : d'.whereOpen with
  | false => exact ⟨d'.sql, [], by simp [opener], .inl rfl⟩
  | true =>
    rcases grown.opened isOpen with opened | ⟨front, between, eq⟩
    · rw [closed] at opened
      cases opened
    · refine ⟨front, between ++ ofString (opener " WHERE (" false x), ?_, .inr ⟨between, rfl⟩⟩
      rw [← eq, List.append_assoc]
      rfl

theorem build_append {d : Draft} {before after : List Call} {c : Command}
    (built : (d.build (before ++ after)).1 = .ok c) :
    ∃ d', d.run before = (.ok (), d') ∧ ∃ back, c.sql = (d'.sql ++ back).text d'.dialect := by
  obtain ⟨d₂, made, finished⟩ := build_gives built
  obtain ⟨d', ran, ranLater⟩ := run_append_gives made
  obtain ⟨_, rfl⟩ := finished_eq finished
  have grown := grows_holdsOverSteps.makeAll after ranLater
  obtain ⟨rest, text⟩ := grown.sql
  refine ⟨d', ran, rest ++ ofString d₂.limitText ++ ofString d₂.pageText, ?_⟩
  simp only [← text, grown.dialect, List.append_assoc]

end Draft

namespace Expression

def hasComparison (x : Expression) : Bool := x.shown.any (·.operator.isSome)

variable {compile : Query → Build Command} {ground : Draft} {x : Expression} {n : Nat}
  {owns : List Sql} {bs : List Binding} {sql : Sql}

theorem Shows.ne_nil (h : x.Shows compile ground n sql bs) (compares : x.operator.isSome = true) :
    sql ≠ [] := by
  have spelled (operator : Operator) : ofString s!" {operator.sql}" ≠ [] := by
    cases operator <;> decide
  cases h with
  | reference absent => simp [absent] at compares
  | @check operator => exact List.append_ne_nil_of_right_ne_nil _ (spelled operator)
  | @comparison operator => simp [spelled operator]

theorem Displays.exists_own {ys : List Expression} (h : Displays compile ground ys n owns bs)
    {y : Expression} (mem : y ∈ ys) (compares : y.operator.isSome = true) :
    ∃ own ∈ owns, own ≠ [] := by
  obtain ⟨n, own, bs, listed, shows⟩ := h.exists_shown mem
  exact ⟨own, listed, shows.ne_nil compares⟩

theorem ne_nil_of_hasComparison (compares : x.hasComparison = true)
    (displayed : Displays compile ground x.shown n owns bs) (threads : Threads owns sql) :
    sql ≠ [] := by
  obtain ⟨y, mem, compares⟩ := List.any_eq_true.1 compares
  obtain ⟨own, mem, some⟩ := displayed.exists_own mem compares
  exact threads.ne_nil mem some

end Expression

/-- In the WHERE clause of the command the comparisons of the expression stand, each once and in
order, behind a connective if there are others, and the values of these are in its parameters. -/
def Command.FiltersBy (c : Command) (x : Expression) : Prop :=
  ∃ (ground : Draft) (owns : List Sql) (bs : List Binding) (sql : Sql),
    Expression.Displays Query.compile ground x.shown ground.parameters.length owns bs ∧
    Threads owns sql ∧
    (∃ front between back, c.sql = (front ++ ofString " WHERE (" ++ between ++ sql ++
      ofString ")" ++ back).text ground.dialect ∧
      (between = [] ∨ ∃ others, between = others ++ ofString (opener " WHERE (" false x))) ∧
    ∃ others, c.parameters.map Parameter.binding =
      ground.parameters.map Parameter.binding ++ bs ++ others

namespace Draft

variable {d d' : Draft} {before after : List Call} {x : Expression} {c : Command}

theorem finished_filtersBy (closed : d.whereOpen = false) (compares : x.hasComparison = true)
    (made : Gives (makeAll (before ++ .filter x :: after)) d () d')
    (finished : d'.finished = .ok c) : c.FiltersBy x := by
  have split : makeAll (before ++ .filter x :: after) = (do
      makeAll before
      guarded ((Call.filter x).make Query.compile)
      makeAll after) := List.forM_append
  rw [split] at made
  obtain ⟨_, d₁, earlier, made⟩ := gives_bind.1 made
  obtain ⟨_, d₂, filtered, later⟩ := gives_bind.1 made
  have grown := grows_holdsOverSteps.makeAll before earlier
  have step := grows_holdsOverSteps.make (.filter x) (gives_guarded.1 filtered).2
  obtain ⟨sql, d₃, rendered, rfl⟩ := ConditionClause.rows.call_gives (gives_guarded.1 filtered).2
  obtain ⟨owns, bs, displayed, threads, gained⟩ :=
    Expression.predicate_displays d₁.reaches_refl rendered
  have some : sql ≠ [] := Expression.ne_nil_of_hasComparison compares displayed threads
  have grownLater := grows_holdsOverSteps.makeAll after later
  obtain ⟨_, rfl⟩ := finished_eq finished
  refine ⟨d₁, owns, bs, sql, displayed, threads, ?_, ?_⟩
  · obtain ⟨rest, text⟩ := grownLater.sql
    obtain ⟨front, between, opening, joined⟩ := grown.exists_opening closed x
    have same : d₃.whereOpen = d₁.whereOpen := by
      obtain ⟨_, rfl⟩ := gained
      rfl
    rw [← same] at opening
    refine ⟨front, between, rest ++ ofString d'.limitText ++ ofString d'.pageText, ?_, joined⟩
    have dialect : d'.dialect = d₁.dialect := grownLater.dialect.trans step.dialect
    rw [dialect, ← opening, ← text, ConditionClause.added_sql,
      ConditionClause.piece_of_ne_nil some, gained.sql]
    simp [ConditionClause.keyword, ConditionClause.isOpen]
  · obtain ⟨rest, parameters⟩ := grownLater.parameters
    refine ⟨rest.map Parameter.binding, ?_⟩
    rw [← parameters, List.map_append, ConditionClause.added_parameters, gained.bindings]

/-- A filter with a comparison in it is in the command of a run. -/
theorem build_filtersBy (closed : d.whereOpen = false) (compares : x.hasComparison = true)
    (built : (d.build (before ++ .filter x :: after)).1 = .ok c) : c.FiltersBy x := by
  obtain ⟨d', made, finished⟩ := build_gives built
  exact finished_filtersBy closed compares made finished

end Draft

/-- A call that succeeds with a condition shows in its text the comparison of every node that is not
empty, exactly once and in the order of the tree, and binds the values of these and nothing else. So
a command whose calls filter by a comparison has it in a WHERE clause, whatever else they do. -/
theorem conditions_show_comparisons (d : Draft) (x : Expression) :
    (∀ (d' : Draft) (call : Call), call.condition? = some x → d.call call = (.ok (), d') →
      ∃ owns bs, d.GainsCondition Query.compile call x d' owns bs) ∧
    ∀ (before after : List Call) (c : Command), d.whereOpen = false → x.hasComparison = true →
      (d.build (before ++ .filter x :: after)).1 = .ok c → c.FiltersBy x :=
  ⟨fun _ _ tests called => Call.make_displays tests (gives_guarded.1 called).2,
    fun _ _ _ closed compares built => Draft.build_filtersBy closed compares built⟩

def unusualAmount : Expression :=
  Expression.group.and ((amount.greaterThan (.integer 7)).or (amount.lessThan (.integer 2)))

theorem conditions_show_comparisons_deletion :
    let d := Draft.new .standard (.new true) {} []
    unusualAmount.hasComparison ∧
      (∃ d', d.call (.delete orders) = (.ok (), d') ∧ ∃ d'' owns bs,
        d'.call (.filter unusualAmount) = (.ok (), d'') ∧
          d'.GainsCondition Query.compile (.filter unusualAmount) unusualAmount d'' owns bs) ∧
      ∃ c, (d.build [.delete orders, .filter unusualAmount]).1 = .ok c ∧
        c.sql = "DELETE FROM Orders WHERE ((Orders.Amount > @p1 OR Orders.Amount < @p2))" ∧
        c.FiltersBy unusualAmount := by
  intro d
  have compares : unusualAmount.hasComparison = true := by decide +kernel
  refine ⟨compares, ?_, ?_⟩
  · have deleted : (d.call (.delete orders)).1 = .ok () := by decide +kernel
    have filtered : ((d.call (.delete orders)).2.call (.filter unusualAmount)).1 = .ok () := by
      decide +kernel
    obtain ⟨calls, -⟩ := conditions_show_comparisons (d.call (.delete orders)).2 unusualAmount
    obtain ⟨owns, bs, gains⟩ := calls _ (.filter unusualAmount) rfl (Prod.ext filtered rfl)
    exact ⟨_, Prod.ext deleted rfl, _, owns, bs, Prod.ext filtered rfl, gains⟩
  · have text : (d.build [.delete orders, .filter unusualAmount]).1.map (·.sql) =
        .ok "DELETE FROM Orders WHERE ((Orders.Amount > @p1 OR Orders.Amount < @p2))" := by
      decide +kernel
    cases built : (d.build [.delete orders, .filter unusualAmount]).1 with
    | error e =>
      rw [built] at text
      cases text
    | ok c =>
      rw [built] at text
      obtain ⟨-, runs⟩ := conditions_show_comparisons d unusualAmount
      exact ⟨c, rfl, Except.ok.inj text, runs [.delete orders] [] c rfl compares built⟩

def comparingGroup : Expression := Expression.group.equal (.integer 1)

/-- The comparison is lost, and with it the WHERE clause of a deletion. -/
theorem group_comparison_lost :
    comparingGroup.family.map (·.operator) = [some .equal] ∧
      ((Draft.new .standard (.new true) {} []).build [.delete orders, .filter comparingGroup]).1.map
        (fun c => (c.sql, c.parameters)) = .ok ("DELETE FROM Orders", []) := by
  decide +kernel

end DmlCompiler
