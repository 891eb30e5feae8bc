import DmlCompiler.Proofs.Inlining.Shift
import DmlCompiler.Proofs.Placeholders
import DmlCompiler.Proofs.Replay

/-! # Inlining sub-queries

A finished statement is inlined by looking for the names of its parameters in its text. This gives
what the run of the sub-query writes when its parameters are numbered behind those of the draft
that it is inlined into, and renames nothing. -/
namespace DmlCompiler

open Build Sql

section Runs

variable {calls : List Call} {c : Command}

def Options.unlimited (o : Options) : Options := { o with maxParameters := 0 }

/-- Other options that keep select lists where these do, without a limit on parameters. -/
def Surroundings.between (dialect : Dialect) (registry : Registry) (options options' : Options)
    (keeping : options'.cachesSelectLists = options.cachesSelectLists) : Surroundings where
  dialect := dialect
  registry := registry
  options := options
  options' := options'.unlimited
  keeping := keeping
  unlimited := rfl

/-- A run on an empty draft and the same run behind other parameters, without a limit. -/
theorem shifted_run (s : Surroundings) (kept : SelectCache) (before : List Parameter)
    (calls : List Call) :
    let d := Draft.new s.dialect s.registry s.options kept
    let e := (Draft.new s.dialect s.registry s.options' kept).holding before
    (∃ c c' d' e', (d.build calls).1 = .ok c ∧ Gives (makeAll calls) d () d' ∧
      d'.finished = .ok c ∧ (e.build calls).1 = .ok c' ∧ e'.finished = .ok c' ∧
      (Coupling.shift s before).Beside d' e') ∨
    ∃ u, (d.build calls).1 = .error u ∧
      ((∃ limit, u = .unsupported (.parameterLimit limit)) ∨ (e.build calls).1 = .error u) := by
  intro d e
  have ran : Couples (Coupling.shift s before) (fun _ _ => True)
      (do makeAll calls; finish) (do makeAll calls; finish) :=
    (Coupling.shift_makeAll calls).then finish_couples
  rcases ran (Coupling.shift_new kept) with
    ⟨c, d', c', e', given, given', _, beside'⟩ | ⟨u, d', failed, excuse⟩
  · left
    obtain ⟨_, d₁, made, finished⟩ := gives_bind.1 given
    obtain ⟨_, e₁, _, finished'⟩ := gives_bind.1 given'
    obtain ⟨eq, rfl⟩ := finish_gives finished
    obtain ⟨eq', rfl⟩ := finish_gives finished'
    exact ⟨c, c', d', e', congrArg Prod.fst given, made, eq, congrArg Prod.fst given', eq', beside'⟩
  · exact .inr ⟨u, congrArg Prod.fst failed,
      excuse.imp_right fun ⟨e', failed'⟩ => congrArg Prod.fst failed'⟩

/-- Under other options that keep select lists where these do, a run gives the same command, unless
it hits the limit on parameters there. -/
theorem build_between {dialect : Dialect} {registry : Registry} {options options' : Options}
    {kept : SelectCache} (keeping : options'.cachesSelectLists = options.cachesSelectLists)
    (built : ((Draft.new dialect registry options kept).build calls).1 = .ok c) :
    ((Draft.new dialect registry options' kept).build calls).1 = .ok c ∨
    ∃ limit, ((Draft.new dialect registry options' kept).build calls).1 =
      .error (.unsupported (.parameterLimit limit)) := by
  rcases shifted_run (.between dialect registry options options' keeping) kept [] calls with
    ⟨_, c₀, _, _, ran, _, done, ran₀, done₀, beside⟩ | ⟨u, failed, _⟩
  · cases built.symm.trans ran
    cases Coupling.shift_finished beside done done₀
    rcases shifted_run (.between dialect registry options' options' rfl) kept [] calls with
      ⟨c₁, c₂, _, _, ran₁, _, done₁, ran₂, done₂, beside'⟩ | ⟨u, failed, ⟨limit, rfl⟩ | failed'⟩
    · left
      cases Coupling.shift_finished beside' done₁ done₂
      cases ran₀.symm.trans ran₂
      exact ran₁
    · exact .inr ⟨limit, failed⟩
    · cases ran₀.symm.trans failed'
  · cases built.symm.trans failed

/-- Inlined where as many parameters are held, the command of a run has the text of the shifted
run and adds the same parameters. -/
theorem inline_shifted {inOrder : Prop} {registry : Registry} {s : Surroundings}
    {before : List Parameter} {c' : Command} {d e p : Draft} {kept : SelectCache}
    (written : (d.amid d.options kept).Written inOrder registry) (left : d.finished = .ok c)
    (right : e.finished = .ok c') (beside : (Coupling.shift s before).Beside d e)
    (select : c.kind = .select) (surroundings : p.dialect = s.dialect)
    (held : p.parameters = before) :
    c'.parameters = before ++ renumbered s.dialect before.length c.parameters ∧
    ((∃ limit p', c.inline.run p = (.error (.unsupported (.parameterLimit limit)), p')) ∨
      ∃ sql, Gives c.inline p sql (p.holding c'.parameters) ∧ sql.text s.dialect = c'.sql) := by
  have good : Sound (d.sql ++ ofString d.limitText ++ ofString d.pageText) :=
    (written.finished_text left).1
  have fills : Fills inOrder 0 d.parameters.length
      (d.sql ++ ofString d.limitText ++ ofString d.pageText).places :=
    (written.finished_text left).2
  have names : d.parameters.map (·.name) =
      (List.range' 1 d.parameters.length).map d.dialect.parameterName := written.orderly.names
  obtain ⟨⟨dialect', options', kept', parameters, sql, rfl⟩, shifted, fragment⟩ := beside
  obtain same : s.dialect = d.dialect := shifted.left.symm
  obtain rfl : dialect' = d.dialect := shifted.right.trans same
  obtain rfl : sql = d.sql.map (Symbol.relabel (before.length + ·)) := fragment
  obtain rfl : parameters = before ++ renumbered s.dialect before.length d.parameters :=
    shifted.parameters
  obtain ⟨_, rfl⟩ := Draft.finished_eq left
  obtain ⟨_, rfl⟩ := Draft.finished_eq right
  rw [same] at surroundings ⊢
  refine ⟨rfl, ?_⟩
  rcases Command.inline_run select p with failed | given
  · exact .inl failed
  · right
    rw [held, surroundings] at given
    refine ⟨_, given, ?_⟩
    show text d.dialect (ofFinished (numbering before.length d.parameters) _) = text d.dialect _
    rw [numbering, Command.ofFinished_numbered names good fills, List.map_append, List.map_append,
      relabel_ofString, relabel_ofString]
    rfl

/-- A call that limits rows succeeds only for a dialect that can. -/
theorem makeAll_limited {d d' : Draft} (given : Gives (makeAll calls) d () d') :
    ∀ call ∈ calls, call.limit?.isSome → d.dialect.hasRowLimit := by
  have block {properties : List Expression} {distinct : Bool} {limit : UInt64} {d d' : Draft}
      (given : Gives (selectBlock Query.compile properties distinct (some limit)) d () d') :
      d.dialect.hasRowLimit := by
    obtain ⟨_, d₁, expected, rest⟩ := gives_bind.1 given
    obtain ⟨_, rfl⟩ := expect_gives expected
    obtain ⟨_, d₂, limited, _⟩ := gives_bind.1 rest
    by_contra missing
    have failed : (limitRows (some limit)).run d₁ =
        (.error (.unsupported (.noRowLimit d₁.dialect limit)), d₁) := by
      unfold limitRows
      rw [run_get_bind, Dialect.rowLimitClause, if_neg missing]
      rfl
    rw [Gives, failed] at limited
    cases limited
  induction calls generalizing d with
  | nil => simp
  | cons call calls ih =>
    obtain ⟨_, d₁, first, rest⟩ := gives_bind.1 given
    obtain ⟨_, made⟩ := gives_guarded.1 first
    intro c hc limited
    rcases List.mem_cons.1 hc with rfl | hc
    · cases c with
      | selectLimit limit => exact block made
      | selectPropertiesLimit properties limit => exact block made
      | _ => cases limited
    · rw [← (call.make_ground made).dialect]
      exact ih rest c hc limited

end Runs

/-- The command of a run, or the recording of the run for a draft that knows the entities of the
calls by their names. The draft may keep the lists of other runs, where these tell the entities
apart. -/
inductive SubQuery.IsOf (known : Entity → Prop) (d : Draft) (registry : Registry)
    (calls : List Call) (c : Command) : SubQuery → Prop where
  | command : IsOf known d registry calls c (.command c)
  | deferred (listed : ListedByKey known) (entities : registry = d.registry)
      (resolved : ∀ call ∈ calls, ∀ e ∈ call.entity?, registry.entity? e.name = some e)
      (asked : d.cache.IsAsked known) : IsOf known d registry calls c (.deferred (.ofCalls calls))

variable {known : Entity → Prop}

/-- A run that told nobody which lists are kept gives the same command among other ones, unless it
hits the limit on parameters there. -/
theorem build_elsewhere (listed : ListedByKey known) {dialect : Dialect} {registry : Registry}
    {options options' : Options} {kept kept' : SelectCache} {calls : List Call} {c : Command}
    (present : ∀ call ∈ calls, call.Concerns known registry) (asked : kept.IsAsked known)
    (asked' : kept'.IsAsked known)
    (built : ((Draft.new dialect registry options kept).build calls).1 = .ok c) :
    ((Draft.new dialect registry options' kept').build calls).1 = .ok c ∨
    ∃ limit, ((Draft.new dialect registry options' kept').build calls).1 =
      .error (.unsupported (.parameterLimit limit)) := by
  have uncached (o : Options) {k : SelectCache} (asked : k.IsAsked known) :
      ((Draft.new dialect registry o k).build calls).1 =
        ((Draft.new dialect registry { o with cachesSelectLists := false } []).build calls).1 := by
    let run : Compilation := ⟨dialect, registry, o, .build calls⟩
    have concerns : run.Concerns known := present
    exact Compilation.result_uncached listed concerns (asked.faithful listed)
  have keeping : { options' with cachesSelectLists := false }.cachesSelectLists =
      { options with cachesSelectLists := false }.cachesSelectLists := rfl
  rw [uncached options asked] at built
  rw [uncached options' asked']
  exact build_between keeping built

theorem SubQuery.finish_run {d : Draft} {registry : Registry} {options : Options}
    {kept : SelectCache} {calls : List Call} {c : Command} {q : SubQuery}
    (present : ∀ call ∈ calls, call.Concerns known registry) (asked : kept.IsAsked known)
    (built : ((Draft.new d.dialect registry options kept).build calls).1 = .ok c)
    (given : q.IsOf known d registry calls c) :
    (∃ kept', Gives (q.finish Query.compile) d c { d with cache := kept' }) ∨
    ∃ limit d', (q.finish Query.compile).run d =
      (.error (.unsupported (.parameterLimit limit)), d') := by
  cases given with
  | command => exact .inl ⟨d.cache, rfl⟩
  | deferred listed entities resolved asked' =>
    subst entities
    obtain ⟨_, made, _⟩ := Draft.build_gives built
    have compiled : (d.child.compile (.ofCalls calls)).1 = (d.child.build calls).1 := by
      have fresh : d.child.page = none := rfl
      rw [Draft.compile_eq _ rfl, Query.ofCalls_eq, fresh, Option.or_none]
      exact Draft.build_eq_rebuild calls resolved (makeAll_limited made) d.child rfl rfl rfl
    have outcome : (d.child.build calls).1 = .ok c ∨
        ∃ limit, (d.child.build calls).1 = .error (.unsupported (.parameterLimit limit)) :=
      build_elsewhere listed present asked asked' built
    have finish : (SubQuery.deferred (.ofCalls calls)).finish Query.compile =
        inChild (Query.ofCalls calls).compile := rfl
    rw [finish]
    rcases outcome with ok | ⟨limit, failed⟩
    · exact .inl ⟨_, gives_inChild.2 ⟨_, Prod.ext (compiled.trans ok) rfl, rfl⟩⟩
    · let kept' := (d.child.compile (.ofCalls calls)).2.cache
      refine .inr ⟨limit, { d with cache := kept' }, ?_⟩
      rw [run_inChild]
      exact Prod.ext (compiled.trans failed) rfl

/-- Inlining a sub-query whose run is over valid names, where it does not hit the limit on
parameters, writes what the run writes behind the parameters of the draft, and adds its parameters
under the next names. Nothing else of the draft changes but the kept select lists. Behind the run
there may be any history that leaves no list with other names to a valid entity. -/
theorem inlining_renumbers {d : Draft} {registry : Registry} {options : Options}
    {history : List Compilation} {calls : List Call} {c : Command} {q : SubQuery}
    (listed : ListedAsValid known) (past : ∀ w ∈ history, w.Concerns known)
    (present : ∀ call ∈ calls, call.Concerns known registry)
    (names : ∀ call ∈ calls, call.IsValid
      (fun inner => ∃ dialect, Compiled known (fun _ => True) dialect inner) registry)
    (built : ((Draft.new d.dialect registry options (keptAfter history)).build calls).1 = .ok c)
    (select : c.kind = .select) (given : q.IsOf known d registry calls c)
    (room : ∀ limit, ((q.inline Query.compile).run d).1 ≠
      .error (.unsupported (.parameterLimit limit))) :
    ∃ sql shifted kept',
      (((Draft.new d.dialect registry options.unlimited (keptAfter history)).holding
        d.parameters).build calls).1 = .ok shifted ∧
      shifted.parameters =
        d.parameters ++ renumbered d.dialect d.parameters.length c.parameters ∧
      (q.inline Query.compile).run d =
        (.ok sql, { d with parameters := shifted.parameters, cache := kept' }) ∧
      sql.text d.dialect = shifted.sql := by
  rcases shifted_run (.between d.dialect registry options options rfl) (keptAfter history)
    d.parameters calls with
    ⟨c₁, shifted, d₁, e₁, ran, made, left, ran', right, beside⟩ | ⟨u, failed, _⟩
  · cases built.symm.trans ran
    have valid : ∀ call ∈ calls, call.IsValid (Numbered (¬ True)) registry := by
      intro call hcall
      refine (names call hcall).of_commands fun x hx inner hp => ?_
      obtain ⟨dialect, compiled⟩ := (names call hcall).expressions x hx (.command inner) hp
      exact ⟨dialect, compiled.isNumbered listed⟩
    have unordered : ¬ True → d.dialect ≠ .sqlServer := fun h => (h trivial).elim
    obtain ⟨kept, written⟩ := Draft.written_behind listed past present valid unordered made
    have ground := Draft.sameGround_holdsOverSteps.makeAll calls made
    have options : d₁.options = options := ground.options
    rw [← options] at written
    rcases SubQuery.finish_run present (keptAfter_isAsked past) built given with
      ⟨kept', finished⟩ | ⟨limit, d', failed⟩
    · obtain ⟨parameters, inlined⟩ := inline_shifted written left right beside select
        (p := { d with cache := kept' }) rfl rfl
      rcases inlined with ⟨limit, p', failed⟩ | ⟨sql, inlined, text⟩
      · refine (room limit ?_).elim
        rw [SubQuery.inline, run_bind, finished]
        exact congrArg Prod.fst failed
      · exact ⟨sql, shifted, kept', ran', parameters, gives_bind.2 ⟨_, _, finished, inlined⟩, text⟩
    · refine (room limit ?_).elim
      rw [SubQuery.inline, run_bind, failed]
  · cases built.symm.trans failed

def amountsOrLarge : List Call :=
  ordersWhere .isIn (.list [.value (.integer 5), .subQuery (.command largeOrders), .value .null])

def IsOfOrders (e : Entity) : Prop := e = orders ∨ e = .queryResult

theorem isOfOrders_listed : ListedByKey IsOfOrders := by
  rintro a b (rfl | rfl) (rfl | rfl) _ _ name _
  · rfl
  · exact absurd name (by decide)
  · exact absurd name (by decide)
  · rfl

theorem amountsOrLarge_concerns :
    ∀ call ∈ amountsOrLarge, call.Concerns IsOfOrders (.new true) :=
  ordersWhere_concerns (.inr rfl) (by
    simp [Argument.parts, operandParts, Operand.parts, SubQuery.parts, Part.Resolves])

theorem amountsOrLarge_names : ∀ call ∈ amountsOrLarge, call.IsValid
    (fun inner => ∃ dialect, Compiled IsOfOrders (fun _ => True) dialect inner) (.new true) := by
  have named : ∀ call ∈ amountsOrLarge, call.IsValid (fun _ => True) (.new true) :=
    ordersWhere_names (by
      simp [Argument.parts, operandParts, Operand.parts, SubQuery.parts, Part.IsValid])
  have compiled : ∀ call ∈ amountsOrLarge, ∀ x ∈ call.expressions, ∀ inner,
      .command inner ∈ x.parts → ∃ dialect, Compiled IsOfOrders (fun _ => True) dialect inner :=
    ordersWhere_commands fun inner hi => by
      have same : inner = largeOrders := by
        simpa [Argument.parts, operandParts, Operand.parts, SubQuery.parts] using hi
      exact ⟨.standard, same ▸ largeOrders_compiled (.inr rfl) trivial⟩
  exact fun call hcall => (named call hcall).of_commands (compiled call hcall)

/-- A recording with a command inside of it, behind one parameter. It is inlined behind a selection
of the orders, and its run was made before that. -/
theorem inlining_renumbers_recorded :
    let parent := (Draft.new .postgres (.new true) {} (keptAfter [selectionOf {} orders])).holding
      [⟨"$1", .boolean true, none, none⟩]
    ListedByKey IsOfOrders ∧ parent.cache.IsAsked IsOfOrders ∧ ∃ sql kept,
      ((SubQuery.deferred (.ofCalls amountsOrLarge)).inline Query.compile).run parent =
        (.ok sql, { parent with
          parameters := parent.parameters ++ renumbered .postgres 1 someOrders.parameters
          cache := kept }) ∧
      sql.text .postgres = "SELECT * FROM QueryResult WHERE (Orders.Amount IN ($2, " ++
        "(SELECT * FROM QueryResult WHERE (Orders.Amount > $3)), $4))" := by
  intro parent
  have built : ((Draft.new .postgres (.new true) {} (keptAfter [])).build amountsOrLarge).1 =
      .ok someOrders := by decide +kernel
  have valid : ∀ e, IsOfOrders e → e.IsValid := by
    rintro e (rfl | rfl) <;> decide +kernel
  have resolved : ∀ call ∈ amountsOrLarge, ∀ e ∈ call.entity?,
      (Registry.new true).entity? e.name = some e := by decide
  have asked : parent.cache.IsAsked IsOfOrders :=
    keptAfter_isAsked (List.forall_mem_singleton.2 (selectionOf_concerns (.inl rfl)))
  have inlined : (((SubQuery.deferred (.ofCalls amountsOrLarge)).inline Query.compile).run
      parent).1.toOption.isSome := by decide +kernel
  obtain ⟨sql, shifted, kept, ran, parameters, given, text⟩ := inlining_renumbers
    (d := parent) (listedAsValid_of_isValid valid) (List.forall_mem_nil _) amountsOrLarge_concerns
    amountsOrLarge_names built rfl (.deferred isOfOrders_listed rfl resolved asked)
    fun limit failed => by
      rw [failed] at inlined
      cases inlined
  let behind := (Draft.new .postgres (.new true) {} (keptAfter [])).holding parent.parameters
  have renumberedRun : ((behind.build amountsOrLarge).1.map (·.sql)) =
      .ok ("SELECT * FROM QueryResult WHERE (Orders.Amount IN ($2, " ++
        "(SELECT * FROM QueryResult WHERE (Orders.Amount > $3)), $4))") := by decide +kernel
  have same : (behind.build amountsOrLarge).1 = .ok shifted := ran
  rw [same] at renumberedRun
  refine ⟨isOfOrders_listed, asked, sql, kept, ?_, text.trans (Except.ok.inj renumberedRun)⟩
  rw [given, parameters]
  rfl

/-- What looks like a parameter in the name of another entity's column is renamed where the orders
of an amount are inlined that were selected behind the other entity. The same run behind the
parameter of the draft leaves it as it is. -/
theorem kept_placeholder_renamed :
    let kept := keptAfter [selectionOf {} (ordersBy "B, @p1")]
    let calls := [.select [], .from orders, .filter (amount.equal (.integer 7))]
    let parent := (Draft.new .standard (.new true) {} kept).holding
      [⟨"@p1", .boolean true, none, none⟩]
    let run := Draft.new .standard (.new true) {} kept
    (∀ call ∈ calls, call.IsValid (fun _ => False) (.new true)) ∧
    ∃ c, (run.build calls).1 = .ok c ∧ c.kind = .select ∧
      (((SubQuery.command c).inline Query.compile).run parent).1.map (·.text .standard) =
        .ok "SELECT Orders.B, @p2 FROM Orders WHERE (Orders.Amount = @p2)" ∧
      ((run.holding parent.parameters).build calls).1.map (·.sql) =
        .ok "SELECT Orders.B, @p1 FROM Orders WHERE (Orders.Amount = @p2)" := by
  intro kept calls parent run
  let c : Command := ⟨Command.anonymous,
    "SELECT Orders.B, @p1 FROM Orders WHERE (Orders.Amount = @p1)",
    [⟨"@p1", .integer 7, some .decimal, none⟩], .select, none⟩
  have built : (run.build calls).1 = .ok c := by decide +kernel
  have column : ColumnRef.IsValid ⟨"Orders", "Amount", .decimal, none, .all⟩ := by
    constructor <;> decide +kernel
  refine ⟨?_, c, built, rfl, by decide +kernel, by decide +kernel⟩
  refine List.forall_mem_cons.2 ⟨⟨by simp [Call.expressions], by simp [Call.entity?]⟩, ?_⟩
  refine List.forall_mem_cons.2 ⟨⟨by simp [Call.expressions], ?_⟩, ?_⟩
  · rintro _ ⟨⟩
    decide +kernel
  · refine List.forall_mem_singleton.2 ⟨List.forall_mem_singleton.2 ?_, by simp [Call.entity?]⟩
    intro part mem
    cases List.mem_singleton.1 mem
    exact column

end DmlCompiler
