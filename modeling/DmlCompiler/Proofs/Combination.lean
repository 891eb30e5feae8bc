import DmlCompiler.Proofs.Comparisons
import DmlCompiler.Proofs.Conditions

/-! # Conditions that are added one after another

Each filter is written behind those before it, in parentheses of its own but with none around what
precedes. SQL puts the conditions together by precedence, which is not always from left to right. -/
namespace DmlCompiler

open Build Sql

namespace Sql

mutual

def Formula.holds (v : List Tree → Bool) : Formula → Bool
  | .clause trees => v trees
  | .not f => !f.holds v
  | .and fs => Formula.allHold v fs
  | .or fs => Formula.anyHolds v fs

def Formula.allHold (v : List Tree → Bool) : List Formula → Bool
  | [] => true
  | f :: fs => f.holds v && Formula.allHold v fs

def Formula.anyHolds (v : List Tree → Bool) : List Formula → Bool
  | [] => false
  | f :: fs => f.holds v || Formula.anyHolds v fs

end

/-- Puts truth values together as SQL does: OR separates what AND joins. -/
def byPrecedence : Bool → List (Connective × Bool) → Bool
  | b, [] => b
  | b, (.and, c) :: rest => byPrecedence (b && c) rest
  | b, (.or, c) :: rest => b || byPrecedence c rest

/-- Puts each truth value together with all before it. -/
def leftToRight : Bool → List (Connective × Bool) → Bool
  | b, [] => b
  | b, (.and, c) :: rest => leftToRight (b && c) rest
  | b, (.or, c) :: rest => leftToRight (b || c) rest

def truths (v : List Tree → Bool) (units : List (Connective × Formula)) : List (Connective × Bool) :=
  units.map fun u => (u.1, u.2.holds v)

section Truth

variable {v : List Tree → Bool} {fs : List Formula}

theorem allHold_eq : Formula.allHold v fs = fs.all (·.holds v) := by
  induction fs with
  | nil => rfl
  | cons f fs ih => rw [Formula.allHold, ih, List.all_cons]

theorem anyHolds_eq : Formula.anyHolds v fs = fs.any (·.holds v) := by
  induction fs with
  | nil => rfl
  | cons f fs ih => rw [Formula.anyHolds, ih, List.any_cons]

theorem holds_all : (Formula.all fs).holds v = fs.all (·.holds v) := by
  unfold Formula.all
  split
  · simp
  · rw [Formula.holds, allHold_eq]

theorem holds_any : (Formula.any fs).holds v = fs.any (·.holds v) := by
  unfold Formula.any
  split
  · simp
  · rw [Formula.holds, anyHolds_eq]

/-- A disjunction of runs puts their units together by precedence. -/
theorem runs_hold (rest : List (Connective × Formula)) (current : List Formula) :
    ((runs current rest).map Formula.all).any (·.holds v) =
      byPrecedence (current.all (·.holds v)) (truths v rest) := by
  induction rest generalizing current with
  | nil => simp [runs, truths, byPrecedence, holds_all]
  | cons u rest ih =>
    obtain ⟨c, f⟩ := u
    cases c with
    | and =>
      have further := ih (current ++ [f])
      rw [List.all_append, List.all_cons, List.all_nil, Bool.and_true] at further
      exact further
    | or =>
      have next := ih [f]
      rw [List.all_cons, List.all_nil, Bool.and_true] at next
      rw [runs, List.map_cons, List.any_cons, next, holds_all]
      rfl

/-- What units mean in sequence is true where they are by precedence. -/
theorem inSequence_holds {c : Connective} {f g : Formula} {rest : List (Connective × Formula)}
    (meant : inSequence ((c, f) :: rest) = some g) :
    g.holds v = byPrecedence (f.holds v) (truths v rest) := by
  cases meant
  rw [holds_any, runs_hold, List.all_cons, List.all_nil, Bool.and_true]

end Truth

section Orders

variable {rest : List (Connective × Bool)} {cs : List Connective} {b c : Bool}

/-- What is true stays so where only OR follows. -/
theorem leftToRight_or (ors : ∀ c ∈ rest.map Prod.fst, c = .or) :
    leftToRight (b || c) rest = (b || leftToRight c rest) := by
  induction rest generalizing c with
  | nil => rfl
  | cons u rest ih =>
    obtain ⟨d, t⟩ := u
    obtain ⟨rfl, later⟩ := List.forall_mem_cons.1 ors
    rw [leftToRight, leftToRight, Bool.or_assoc, ih later]

theorem leftToRight_false (b : Bool) (cs : List Connective) :
    leftToRight b (cs.map (·, false)) = (b && cs.all (· = .or)) := by
  induction cs generalizing b with
  | nil => simp [leftToRight]
  | cons c cs ih => cases c <;> simp [leftToRight, ih]

/-- Precedence makes no difference where no AND follows an OR. -/
theorem byPrecedence_eq_leftToRight
    (sorted : (rest.map Prod.fst).Pairwise fun c c' => ¬(c = .or ∧ c' = .and)) (b : Bool) :
    byPrecedence b rest = leftToRight b rest := by
  induction rest generalizing b with
  | nil => rfl
  | cons u rest ih =>
    obtain ⟨c, t⟩ := u
    obtain ⟨first, later⟩ := List.pairwise_cons.1 sorted
    cases c with
    | and => exact ih later (b && t)
    | or =>
      have ors : ∀ c ∈ rest.map Prod.fst, c = .or := by
        intro c mem
        cases c with
        | and => exact (first .and mem ⟨rfl, rfl⟩).elim
        | or => rfl
      rw [byPrecedence, leftToRight, ih later, leftToRight_or ors]

/-- Precedence makes no difference for any truth values only where no AND follows an OR. -/
theorem leftToRight_iff :
    (∀ b rest, rest.map Prod.fst = cs → byPrecedence b rest = leftToRight b rest) ↔
      cs.Pairwise fun c c' => ¬(c = .or ∧ c' = .and) := by
  constructor
  · intro agree
    induction cs with
    | nil => exact .nil
    | cons c cs ih =>
      refine List.pairwise_cons.2 ⟨?_, ih ?_⟩
      · -- all but the first one are false, and that is kept by OR alone
        rintro c' mem ⟨rfl, rfl⟩
        have same := agree true ((.or, false) :: cs.map (·, false)) (by simp [Function.comp_def])
        rw [byPrecedence, leftToRight, leftToRight_false] at same
        have ors : ∀ c ∈ cs, c = .or := by simpa using same.symm
        cases ors .and mem
      · rintro b rest rfl
        cases c with
        | and => simpa [byPrecedence, leftToRight] using agree b ((.and, true) :: rest) rfl
        | or => simpa [byPrecedence, leftToRight] using agree false ((.or, b) :: rest) rfl
  · rintro sorted b rest rfl
    exact byPrecedence_eq_leftToRight sorted b

end Orders

/-- What is read up to an open parenthesis does not depend on what stands before it. -/
theorem Reader.step_outer {r r' : Reader} {c : Char} (stepped : r.step c = some r')
    (outer : List (List Tree)) :
    Reader.step ⟨r.letters, r.trees, r.outer ++ outer⟩ c =
      some ⟨r'.letters, r'.trees, r'.outer ++ outer⟩ := by
  obtain ⟨letters, trees, opened⟩ := r
  unfold Reader.step at stepped ⊢
  split at stepped
  · cases stepped
    simp_all [Reader.level]
  · split at stepped
    · cases stepped
      simp_all [Reader.level]
    · split at stepped
      · cases opened with
        | nil => cases stepped
        | cons before opened =>
          cases stepped
          simp_all [Reader.level]
      · cases stepped
        simp_all

theorem Reader.foldlM_outer {text : List Char} (outer : List (List Tree)) :
    ∀ {r r' : Reader}, text.foldlM Reader.step r = some r' →
      text.foldlM Reader.step ⟨r.letters, r.trees, r.outer ++ outer⟩ =
        some ⟨r'.letters, r'.trees, r'.outer ++ outer⟩ := by
  induction text with
  | nil =>
    intro r r' read
    cases read
    rfl
  | cons c text ih =>
    intro r r' read
    rw [List.foldlM_cons] at read ⊢
    obtain ⟨r₁, stepped, later⟩ := Option.bind_eq_some_iff.1 read
    rw [Reader.step_outer stepped outer]
    exact ih later

/-- A text with trees has them also inside of parentheses. -/
theorem readsInside_of_trees? {s : String} {ts : List Tree} (read : trees? s = some ts) :
    ReadsInside s.toList ts := by
  intro outer
  obtain ⟨⟨letters, trees, opened⟩, folded, closed⟩ := Option.bind_eq_some_iff.1 read
  cases opened with
  | nil =>
    cases closed
    exact ⟨_, Reader.foldlM_outer outer folded, rfl, rfl⟩
  | cons before opened => cases closed

variable {d : Dialect} {sql before : Sql} {f : Formula}

/-- A condition in parentheses is a unit, whatever is in it. -/
theorem readsUnit_of_reading (meant : reading (sql.text d) = some f) :
    ReadsUnit d sql.parenthesize f := by
  obtain ⟨ts, read, formula⟩ := Option.bind_eq_some_iff.1 meant
  have inside : ReadsInside (chars d sql) ts := text_toList ▸ readsInside_of_trees? read
  exact ⟨_, by simpa using reads_group inside, isUnit_group formula⟩

def behind (texts : List (Connective × Sql)) : Sql :=
  texts.flatMap fun t => ofString s!" {t.1.sql} " ++ t.2.parenthesize

def together : List (Connective × Sql) → Sql
  | [] => []
  | (_, sql) :: texts => sql.parenthesize ++ behind texts

def meanings (d : Dialect) (texts : List (Connective × Sql)) : List (Connective × Formula) :=
  texts.filterMap fun t => (reading (t.2.text d)).map (t.1, ·)

theorem ReadsSequence.behind {texts : List (Connective × Sql)} {units : List (Connective × Formula)}
    (h : ReadsSequence d before units)
    (meaningful : ∀ t ∈ texts, (reading (t.2.text d)).isSome) :
    ReadsSequence d (before ++ behind texts) (units ++ meanings d texts) := by
  induction texts generalizing before units with
  | nil => simpa [Sql.behind, meanings] using h
  | cons t texts ih =>
    obtain ⟨first, others⟩ := List.forall_mem_cons.1 meaningful
    obtain ⟨f, meant⟩ := Option.isSome_iff_exists.1 first
    have joined := ih (h.join t.1 (readsUnit_of_reading meant)) others
    simpa [Sql.behind, meanings, meant] using joined

/-- Conditions in sequence read into what they mean in sequence. -/
theorem reading_together {texts : List (Connective × Sql)} (nonempty : texts ≠ [])
    (meaningful : ∀ t ∈ texts, (reading (t.2.text d)).isSome) :
    ∃ c first rest g, meanings d texts = (c, first) :: rest ∧
      reading ((together texts).text d) = some g ∧ inSequence ((c, first) :: rest) = some g := by
  cases texts with
  | nil => exact absurd rfl nonempty
  | cons t texts =>
    obtain ⟨c, sql⟩ := t
    obtain ⟨first, others⟩ := List.forall_mem_cons.1 meaningful
    obtain ⟨f, meant⟩ := Option.isSome_iff_exists.1 first
    have read := ((readsUnit_of_reading meant).sequence c).behind others
    obtain ⟨ts, g, reads, formula, same⟩ := read.meaning
    refine ⟨c, f, meanings d texts, g, by simp [meanings, meant], ?_, same⟩
    rw [together, reading_of_reads reads, formula]

end Sql

namespace ConditionClause

def word : ConditionClause → String
  | rows => " WHERE "
  | groups => " HAVING "

/-- The calls add conditions with these texts, each behind its connective, to the clause. Those
that have no text are left out, and a page may be set between them. -/
inductive Writes (k : ConditionClause) : Draft → List Call → List (Connective × Sql) → Draft → Prop
  | nil (d : Draft) : Writes k d [] [] d
  | condition {x : Expression} {sql : Sql} {d d₁ d' : Draft} {calls : List Call}
      {texts : List (Connective × Sql)} (rendered : Gives (x.predicate Query.compile) d sql d₁)
      (some : sql ≠ []) (others : Writes k (k.added d₁ x sql) calls texts d') :
      Writes k d (k.call x :: calls) ((x.connective.getD .and, sql) :: texts) d'
  | nothing {x : Expression} {d d₁ d' : Draft} {calls : List Call}
      {texts : List (Connective × Sql)} (rendered : Gives (x.predicate Query.compile) d [] d₁)
      (others : Writes k (k.added d₁ x []) calls texts d') : Writes k d (k.call x :: calls) texts d'
  | page {p : Page} {d d' : Draft} {calls : List Call} {texts : List (Connective × Sql)}
      (others : Writes k { d with page := some p } calls texts d') :
      Writes k d (.paginate p :: calls) texts d'

variable {k : ConditionClause} {d d' : Draft} {calls : List Call} {texts : List (Connective × Sql)}

theorem exists_call {c : Call} (h : c.clause? = some k.clause) : ∃ x, c = k.call x := by
  cases k <;> cases c <;> first | exact ⟨_, rfl⟩ | cases h

/-- Calls of the clause that succeed write their conditions. -/
theorem writes_of_run (own : ∀ c ∈ calls, ∀ clause ∈ c.clause?, clause = k.clause)
    (ran : d.run calls = (.ok (), d')) : ∃ texts, k.Writes d calls texts d' := by
  induction calls generalizing d with
  | nil =>
    cases ran
    exact ⟨[], .nil _⟩
  | cons c calls ih =>
    obtain ⟨first, others⟩ := List.forall_mem_cons.1 own
    rw [Draft.run_cons] at ran
    rcases called : d.call c with ⟨e | u, d₁⟩
    · rw [called] at ran
      cases ran
    · rw [called] at ran
      obtain ⟨-, made⟩ := gives_guarded.1 called
      obtain ⟨texts, written⟩ := ih others ran
      cases h : c.clause? with
      | none =>
        obtain ⟨p, rfl⟩ := c.eq_paginate h
        obtain rfl := gives_modify.1 made
        exact ⟨texts, .page written⟩
      | some clause =>
        obtain rfl := first clause h
        obtain ⟨x, rfl⟩ := exists_call h
        obtain ⟨sql, d₂, rendered, rfl⟩ := k.call_gives made
        by_cases empty : sql = []
        · subst empty
          exact ⟨texts, .nothing rendered written⟩
        · exact ⟨_, .condition rendered empty written⟩

theorem Writes.unique {texts' : List (Connective × Sql)} {d'' : Draft}
    (h : k.Writes d calls texts d') (h' : k.Writes d calls texts' d'') :
    texts = texts' ∧ d' = d'' := by
  induction h generalizing texts' with
  | nil d =>
    cases h'
    exact ⟨rfl, rfl⟩
  | condition rendered some others ih =>
    cases k <;>
    · cases h' with
      | condition rendered' some' others' =>
        cases rendered.symm.trans rendered'
        obtain ⟨rfl, rfl⟩ := ih others'
        exact ⟨rfl, rfl⟩
      | nothing rendered' others' =>
        cases rendered.symm.trans rendered'
        exact absurd rfl some
  | nothing rendered others ih =>
    cases k <;>
    · cases h' with
      | condition rendered' some' others' =>
        cases rendered.symm.trans rendered'
        exact absurd rfl some'
      | nothing rendered' others' =>
        cases rendered.symm.trans rendered'
        exact ih others'
  | page others ih =>
    cases k <;>
    · cases h' with
      | page others' => exact ih others'

theorem opener_first (k : ConditionClause) (x : Expression) (sql : Sql) :
    ofString (opener k.keyword true x) ++ sql ++ ofString ")" =
      ofString k.word ++ sql.parenthesize := by
  cases k <;> simp [opener, keyword, word, parenthesize, ofString]

theorem opener_later (keyword : String) (x : Expression) (sql : Sql) :
    ofString (opener keyword false x) ++ sql ++ ofString ")" =
      ofString s!" {(x.connective.getD .and).sql} " ++ sql.parenthesize := by
  have word : ofString (opener keyword false x) =
      ofString s!" {(x.connective.getD .and).sql} " ++ ofString "(" := by
    rw [opener, if_neg Bool.false_ne_true]
    rcases x.connective with _ | _ | _ <;> decide
  rw [word, parenthesize]
  simp only [List.append_assoc]

theorem isOpen_appends {d₁ : Draft} (h : d.Appends d₁) : k.isOpen d₁ = k.isOpen d := by
  obtain ⟨_, _, rfl⟩ := h
  cases k <;> rfl

theorem Writes.sql (h : k.Writes d calls texts d') :
    d'.sql = d.sql ++
      if k.isOpen d then behind texts
      else if texts = [] then [] else ofString k.word ++ together texts := by
  induction h with
  | nil d => simp [behind]
  | @condition x sql d d₁ d' calls texts rendered some others ih =>
    have appended := x.predicate_appends rendered
    have same : d₁.sql = d.sql := by
      obtain ⟨_, _, rfl⟩ := appended
      rfl
    rw [ih, added_isOpen, added_sql, piece_of_ne_nil some, isOpen_appends appended, same]
    cases isOpen : k.isOpen d with
    | true =>
      rw [Bool.not_true, opener_later]
      simp [behind]
    | false =>
      rw [Bool.not_false, opener_first]
      simp [together, some]
  | nothing rendered others ih =>
    have appended := Expression.predicate_appends _ rendered
    rw [ih, added_isOpen, added_sql, piece_nil, isOpen_appends appended]
    obtain ⟨_, _, rfl⟩ := appended
    simp
  | @page p d d' calls texts others ih =>
    have same : k.isOpen { d with page := some p } = k.isOpen d := by
      cases k <;> rfl
    rw [ih, same]

/-- Nothing is written for no conditions. For others the word of the clause is, and a condition
that is true where they are, put together by precedence. -/
inductive Combines (k : ConditionClause) (d d' : Draft) : List (Connective × Formula) → Prop
  | nothing (same : d'.sql = d.sql) : Combines k d d' []
  | condition {c : Connective} {first f : Formula} {rest : List (Connective × Formula)}
      {condition : Sql} (written : d'.sql = d.sql ++ ofString k.word ++ condition)
      (read : reading (condition.text d.dialect) = some f)
      (holds : ∀ v, f.holds v = byPrecedence (first.holds v) (truths v rest)) :
      Combines k d d' ((c, first) :: rest)

/-- Conditions that are written where the clause begins are combined by precedence. -/
theorem Writes.combines (h : k.Writes d calls texts d') (begins : k.isOpen d = false)
    (meaningful : ∀ t ∈ texts, (reading (t.2.text d.dialect)).isSome) :
    k.Combines d d' (meanings d.dialect texts) := by
  have written := h.sql
  rw [begins, if_neg Bool.false_ne_true] at written
  by_cases empty : texts = []
  · subst empty
    exact .nothing (by simpa using written)
  · rw [if_neg empty] at written
    obtain ⟨c, first, rest, f, eq, read, meant⟩ := reading_together empty meaningful
    rw [eq]
    exact .condition (by simpa using written) read fun v => inSequence_holds meant

end ConditionClause

/-- A condition of valid parts reads, unless it is empty. -/
theorem Expression.reading_isSome {x : Expression} {d d' : Draft} {sql : Sql}
    (lists : d.cache.IsValid) (valid : ∀ p ∈ x.parts, p.IsValid Command.IsBalanced d.registry)
    (proper : x.ComparesProperties) (given : Gives (x.predicate Query.compile) d sql d')
    (some : sql ≠ []) : (reading (sql.text d.dialect)).isSome := by
  have ready : d.Ready d.registry d.parameters :=
    ⟨rfl, lists, [], (List.append_nil _).symm, List.forall_mem_nil _⟩
  obtain ⟨_, tree, _, _, renders⟩ :=
    Expression.predicate_renders Query.compile_balances valid proper ready given
  rw [renders.reading, Option.isSome_iff_ne_none]
  exact fun nothing => some (renders.eq_nil_iff.2 nothing)

/-- The calls that filter, or that restrict groups, write one condition. SQL reads it by precedence:
it is true where some conditions that AND joins are all true, as far as an OR. That is what the
conditions mean from left to right, whatever is true, if and only if none that is joined by AND
stands behind one that is joined by OR. -/
theorem conditions_combine_by_precedence (k : ConditionClause) :
    (∀ (d : Draft) (before calls after : List Call) (c : Command),
      (∀ call ∈ calls, ∀ clause ∈ call.clause?, clause = k.clause) →
      (d.build (before ++ calls ++ after)).1 = .ok c →
      ∃ d₁ d₂ texts, d.run before = (.ok (), d₁) ∧ k.Writes d₁ calls texts d₂ ∧
        (∃ back, c.sql = (d₂.sql ++ back).text d₂.dialect) ∧
        (k.isOpen d₁ = false → (∀ t ∈ texts, (reading (t.2.text d₁.dialect)).isSome) →
          k.Combines d₁ d₂ (meanings d₁.dialect texts))) ∧
    (∀ (d d' : Draft) (x : Expression) (sql : Sql), d.cache.IsValid →
      (∀ p ∈ x.parts, p.IsValid Command.IsBalanced d.registry) → x.ComparesProperties →
      Gives (x.predicate Query.compile) d sql d' → sql ≠ [] →
      (reading (sql.text d.dialect)).isSome) ∧
    ∀ cs : List Connective,
      (∀ b rest, rest.map Prod.fst = cs → byPrecedence b rest = leftToRight b rest) ↔
        cs.Pairwise fun c c' => ¬(c = .or ∧ c' = .and) := by
  refine ⟨fun d before calls after c own built => ?_,
    fun d d' x sql lists valid proper => Expression.reading_isSome lists valid proper,
    fun cs => leftToRight_iff⟩
  obtain ⟨d₂, ran, began⟩ := Draft.build_append built
  obtain ⟨d₁, earlier, ranOwn⟩ := Draft.run_append_gives ran
  obtain ⟨texts, written⟩ := ConditionClause.writes_of_run own ranOwn
  exact ⟨d₁, d₂, texts, earlier, written, began, written.combines⟩

def orderID : Expression :=
  .bare "Order" "OrderID" (some ⟨"Orders", "OrderID", .bigInt, none, .all⟩)

def unusualOrders : List Call :=
  [.filter (amount.greaterThan (.integer 7)), .filter ((amount.lessThan (.integer 2)).joinedBy .or)]

theorem conditions_combine_by_precedence_unusual :
    let d := Draft.new .standard (.new true) {} []
    ∃ c d₁ d₂, (d.build (.delete orders :: unusualOrders)).1 = .ok c ∧
      c.sql = "DELETE FROM Orders WHERE (Orders.Amount > @p1) OR (Orders.Amount < @p2)" ∧
      d.run [.delete orders] = (.ok (), d₁) ∧
      ConditionClause.rows.Combines d₁ d₂ [(.and, clauseOf "Orders.Amount > @p1"),
        (.or, clauseOf "Orders.Amount < @p2")] ∧
      ∀ b rest, rest.map Prod.fst = [.or] → byPrecedence b rest = leftToRight b rest := by
  intro d
  obtain ⟨runs, -, agree⟩ := conditions_combine_by_precedence .rows
  have text : (d.build (.delete orders :: unusualOrders)).1.map (·.sql) =
      .ok "DELETE FROM Orders WHERE (Orders.Amount > @p1) OR (Orders.Amount < @p2)" := by
    decide +kernel
  cases built : (d.build (.delete orders :: unusualOrders)).1 with
  | error e =>
    rw [built] at text
    cases text
  | ok c =>
    rw [built] at text
    have own : ∀ call ∈ unusualOrders, ∀ clause ∈ call.clause?, clause = .where := by
      simp [unusualOrders, Call.clause?]
    obtain ⟨d₁, d₂, texts, earlier, written, -, combines⟩ :=
      runs d [.delete orders] unusualOrders [] c own built
    obtain rfl : (d.run [.delete orders]).2 = d₁ := congrArg Prod.snd earlier
    refine ⟨c, _, d₂, rfl, Except.ok.inj text, earlier, ?_, (agree [.or]).2 (by simp)⟩
    let unusual : List (Connective × Sql) := [(.and, ofString "Orders.Amount > " ++ [.place 1]),
      (.or, ofString "Orders.Amount < " ++ [.place 2])]
    obtain ⟨last, known⟩ :
        ∃ last, ConditionClause.rows.Writes (d.run [.delete orders]).2 unusualOrders unusual last :=
      ⟨_, .condition (Prod.ext (by decide +kernel) rfl) (by decide)
        (.condition (Prod.ext (by decide +kernel) rfl) (by decide) (.nil _))⟩
    obtain rfl : unusual = texts := (known.unique written).1
    have begins : ConditionClause.rows.isOpen (d.run [.delete orders]).2 = false := by
      decide +kernel
    have dialect : (d.run [.delete orders]).2.dialect = .standard := by decide +kernel
    have meaningful : ∀ t ∈ unusual, (reading (t.2.text .standard)).isSome := by decide +kernel
    have meant : meanings .standard unusual = [(.and, clauseOf "Orders.Amount > @p1"),
        (.or, clauseOf "Orders.Amount < @p2")] := by
      cbv
    rw [dialect] at combines
    rw [← meant]
    exact combines begins meaningful

/-- A last filter restricts the deletion to one order only where the amount is small. -/
theorem last_filter_overridden :
    ((Draft.new .standard (.new true) {} []).build
        (.delete orders :: unusualOrders ++ [.filter (orderID.equal (.integer 1))])).1.map (·.sql) =
      .ok ("DELETE FROM Orders WHERE " ++
        "(Orders.Amount > @p1) OR (Orders.Amount < @p2) AND (Orders.OrderID = @p3)") ∧
    let large := clauseOf "Orders.Amount > @p1"
    let small := clauseOf "Orders.Amount < @p2"
    let one := clauseOf "Orders.OrderID = @p3"
    reading "(Orders.Amount > @p1) OR (Orders.Amount < @p2) AND (Orders.OrderID = @p3)" =
      some (.or [large, .and [small, one]]) ∧
    ∃ v, (Formula.or [large, .and [small, one]]).holds v = true ∧ one.holds v = false ∧
      leftToRight (large.holds v) [(.or, small.holds v), (.and, one.holds v)] = false := by
  refine ⟨by decide +kernel, ?_, ?_⟩
  · cbv
  · refine ⟨fun ts => ts.any (·.isWord ">"), ?_⟩
    decide +kernel

end DmlCompiler
