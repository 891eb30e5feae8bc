import DmlCompiler.Proofs.Endings

/-! # Row limits of unions

A row limit is one of the whole statement, whichever of its blocks asks for it: the blocks are
written without limits, and the limit stands behind the last one of them. -/
namespace DmlCompiler

open Build Sql

def Call.joins? : Call → Option String
  | .union => some " UNION "
  | .unionAll => some " UNION ALL "
  | _ => none

theorem Call.make_joins {call : Call} {word : String} (joins : call.joins? = some word)
    {compile : Query → Build Command} {d d' : Draft} {u : Unit}
    (given : Gives (call.make compile) d u d') : d'.sql = d.sql ++ ofString word := by
  have same : call.make compile = unionWith word := by cases call <;> cases joins <;> rfl
  rw [same] at given
  obtain ⟨_, d₁, expected, wrote⟩ := gives_bind.1 given
  obtain ⟨-, rfl⟩ := expect_gives expected
  exact congrArg (·.2.sql) wrote.symm

/-- The blocks before a union are a statement, and the command begins with it. -/
theorem Draft.build_joined {dialect : Dialect} {registry : Registry} {options : Options}
    {cache : SelectCache} {before after : List Call} {join : Call} {word : String} {c : Command}
    (joins : join.joins? = some word)
    (built : ((new dialect registry options cache).build
      (bareCalls (before ++ join :: after))).1 = .ok c) :
    ∃ blocks back, ((new dialect registry options cache).build (bareCalls before)).1 = .ok blocks ∧
      c.sql = blocks.sql ++ word ++ back := by
  have bare : join.bare? = some join := by cases join <;> cases joins <;> rfl
  have wrote : join.clause? = some .union := by cases join <;> cases joins <;> rfl
  obtain ⟨p, q, -, blocks, back, -, made, -, complete, same, text⟩ :=
    build_split bare wrote (fun _ => Clause.isComplete_of_follows (.inr rfl)) built
  refine ⟨blocks, back.text dialect, complete, ?_⟩
  rw [text, Call.make_joins joins made, same, text_append, text_append, text_ofString]

/-- The blocks of a union are written without limits. A limit that all that ask for one agree on
stands behind the last block, and is that of the statement. -/
theorem row_limit_of_statement {c : Compilation} {cache : SelectCache} {command : Command}
    (built : c.result cache = .ok command) :
    ∃ calls bare, c.calls? = .ok calls ∧ ((c.draft cache).build (bareCalls calls)).1 = .ok bare ∧
      (∀ limit ∈ rowLimits calls, (∀ other ∈ rowLimits calls, other = limit) →
        command.sql = bare.sql ++ Dialect.rowLimit limit) ∧
      (rowLimits calls = [] → command.sql = bare.sql ++
        c.dialect.tail (.orderBy ∈ clauses calls) (none, (pages calls).getLast?)) ∧
      ∀ before join after word, calls = before ++ join :: after → join.joins? = some word →
        ∃ blocks back, ((c.draft cache).build (bareCalls before)).1 = .ok blocks ∧
          bare.sql = blocks.sql ++ word ++ back := by
  obtain ⟨calls, read, built⟩ := Compilation.result_eq_ok.1 built
  obtain ⟨bare, builtBare, -, -, rfl⟩ := Draft.build_eq_bare.1 built
  refine ⟨calls, bare, read, builtBare, ?_, ?_, ?_⟩
  · intro limit asked agree
    have last : (rowLimits calls).getLast? = some limit := by
      obtain ⟨other, eq⟩ := Option.ne_none_iff_exists'.1
        (mt List.getLast?_eq_none_iff.1 (List.ne_nil_of_mem asked))
      rw [eq, agree other (List.mem_of_getLast? eq)]
    simp only [last, Dialect.tail]
  · intro none
    simp only [none, List.getLast?_nil]
  · rintro before join after word rfl joins
    exact Draft.build_joined joins builtBare

def archive : Entity := { orders with name := "ArchivedOrder", table := "Archive" }

def limitedUnion : List Call :=
  [.selectLimit 5, .from orders] ++ .union :: [.select [], .from archive]

theorem row_limit_of_statement_union :
    let c : Compilation := ⟨.mySql, .new true, {}, .build limitedUnion⟩
    (c.result []).toOption.isSome ∧
    ∃ blocks back, ((c.draft []).build [.select [], .from orders]).1 = .ok blocks ∧
      (c.result []).map (·.sql) = .ok (blocks.sql ++ " UNION " ++ back ++ " LIMIT 5") := by
  intro c
  have succeeds : (c.result []).toOption.isSome := by decide +kernel
  refine ⟨succeeds, ?_⟩
  rcases built : c.result [] with e | command
  · rw [built] at succeeds
    cases succeeds
  · obtain ⟨calls, bare, read, -, limited, -, joined⟩ := row_limit_of_statement built
    cases read
    obtain ⟨blocks, back, complete, text⟩ := joined _ _ _ _ rfl rfl
    have asked : rowLimits limitedUnion = [5] := rfl
    have limit : Dialect.rowLimit 5 = " LIMIT 5" := by decide +kernel
    have closed := limited 5 (by simp [asked]) (by simp [asked])
    rw [text, limit] at closed
    exact ⟨blocks, back, complete, congrArg Except.ok closed⟩

/-- Without its limit the first block stands before the second one, which has the limit now, though
it asks for none. -/
theorem row_limit_leaves_block :
    let draft := Draft.new .mySql (.new true) {} []
    let first := "SELECT Orders.OrderID, Orders.Amount FROM Orders"
    let second := "SELECT Archive.OrderID, Archive.Amount FROM Archive"
    (draft.build [.selectLimit 5, .from orders]).1.map (·.sql) = .ok (first ++ " LIMIT 5") ∧
    (draft.build [.select [], .from archive]).1.map (·.sql) = .ok second ∧
    (draft.build limitedUnion).1.map (·.sql) = .ok (first ++ " UNION " ++ second ++ " LIMIT 5") ∧
    ¬ (first ++ " LIMIT 5").toList <:+: (first ++ " UNION " ++ second ++ " LIMIT 5").toList := by
  decide +kernel

end DmlCompiler
