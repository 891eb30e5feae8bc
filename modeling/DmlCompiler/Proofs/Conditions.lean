import DmlCompiler.Expression.Fluent
import DmlCompiler.Proofs.Conditions.Statements

/-! # The meaning of conditions

The clauses of an expression and its children form a tree. Whatever the depth of the expression,
the text of its condition reads into what the tree means, so that no connective of a child joins
anything outside of the child. -/
namespace DmlCompiler

open Build Sql

/-- The clause of an expression and those of its children, before they are put together. -/
inductive ClauseTree where
  | node (own : Sql) (connective : Option Connective) (negated : Bool)
      (children : List ClauseTree)

namespace Expression

mutual

def clauses (compile : Query → Build Command) : Expression → Build ClauseTree
  | x@⟨_, _, _, _, _, _, _, connective, negated, _, children⟩ => do
    let own ← x.condition compile
    return .node own connective negated (← childClauses compile children)

def childClauses (compile : Query → Build Command) : List Expression → Build (List ClauseTree)
  | [] => return []
  | child :: rest => do
    let tree ← child.clauses compile
    return tree :: (← childClauses compile rest)

end

end Expression

namespace ClauseTree

def connective : ClauseTree → Option Connective
  | .node _ connective _ _ => connective

def ownUnit (d : Dialect) (own : Sql) : List (Connective × Formula) :=
  if own.isEmpty then [] else [(.and, clauseOf (own.text d))]

mutual

/-- The clause in sequence with the children; a negation concerns all of them. -/
def meaning (d : Dialect) : ClauseTree → Option Formula
  | .node own _ negated children =>
    let all := inSequence (ownUnit d own ++ meanings d children)
    if negated then all.map .not else all

/-- The children that mean something, each behind its connective, which is AND without one. -/
def meanings (d : Dialect) : List ClauseTree → List (Connective × Formula)
  | [] => []
  | t :: ts =>
    match t.meaning d with
    | some f => (t.connective.getD .and, f) :: meanings d ts
    | none => meanings d ts

end

theorem meanings_cons (d : Dialect) (t : ClauseTree) (ts : List ClauseTree) :
    meanings d (t :: ts) =
      ((t.meaning d).map fun f => (t.connective.getD .and, f)).toList ++ meanings d ts := by
  rw [meanings]
  cases t.meaning d <;> rfl

end ClauseTree

/-- Here and in the children no property is compared with by a BETWEEN. -/
inductive Expression.ComparesProperties : Expression → Prop where
  | intro {x : Expression} (own : ∀ o ∈ x.operator, ∀ a ∈ x.argument, SingleProperty o a)
      (children : ∀ y ∈ x.children, y.ComparesProperties) : x.ComparesProperties

theorem Expression.ComparesProperties.leaf {x : Expression} (alone : x.children = [])
    (other : ∀ y, x.argument ≠ some (.property y)) : x.ComparesProperties := by
  refine .intro (fun o _ a ha y eq => ?_) fun y hy => ?_
  · subst eq
    exact absurd ha (other y)
  · rw [alone] at hy
    cases hy

theorem Expression.ComparesProperties.append {x y : Expression} (hx : x.ComparesProperties)
    (hy : y.ComparesProperties) (c : Option Connective) :
    { x with children := x.children ++ [{ y with connective := c }] }.ComparesProperties := by
  obtain ⟨own, children⟩ := hx
  obtain ⟨own', children'⟩ := hy
  refine .intro own fun z hz => ?_
  rcases List.mem_append.1 hz with hz | hz
  · exact children z hz
  · cases List.mem_singleton.1 hz
    exact .intro own' children'

namespace Sql

variable {d : Dialect} {sql before : Sql} {f : Formula} {ts : List Tree}
  {units : List (Connective × Formula)}

/-- The text reads into a unit with this meaning. -/
def ReadsUnit (d : Dialect) (sql : Sql) (f : Formula) : Prop :=
  ∃ ts, Reads (chars d sql) ts ∧ IsUnit (tokens ts) f

/-- The text reads into these units in sequence, and more of them may follow. -/
def ReadsSequence (d : Dialect) (sql : Sql) (units : List (Connective × Formula)) : Prop :=
  ∃ ts complete current, Reads (chars d sql) ts ∧ IsSequence (tokens ts) complete current ∧
    ∀ more, inSequence (units ++ more) = some (.any (complete ++ (runs current more).map .all))

theorem ReadsUnit.sequence (h : ReadsUnit d sql f) (c : Connective) :
    ReadsSequence d sql [(c, f)] := by
  obtain ⟨ts, read, unit⟩ := h
  exact ⟨ts, [], [f], read, unit.sequence, fun _ => rfl⟩

theorem ReadsSequence.join (h : ReadsSequence d before units) (c : Connective)
    (hu : ReadsUnit d sql f) :
    ReadsSequence d (before ++ ofString s!" {c.sql} " ++ sql) (units ++ [(c, f)]) := by
  obtain ⟨ts, complete, current, read, isSequence, further⟩ := h
  obtain ⟨us, readUnit, unit⟩ := hu
  have word : IsWord c.sql.toList := by
    cases c <;> decide
  have joined : Reads (chars d (before ++ ofString s!" {c.sql} " ++ sql))
      (ts ++ connectiveTree c :: us) := by
    simpa [toString, connectiveTree] using (read.blank word.reads).blank readUnit
  have trees : tokens (ts ++ connectiveTree c :: us) =
      tokens ts ++ (connectiveTree c, none) :: tokens us := by
    rw [tokens_append]
    rfl
  cases c with
  | and =>
    refine ⟨_, complete, current ++ [f], joined, trees ▸ isSequence.and unit, fun more => ?_⟩
    rw [List.append_assoc, further]
    rfl
  | or =>
    refine ⟨_, complete ++ [.all current], [f], joined, trees ▸ isSequence.or unit, fun more => ?_⟩
    rw [List.append_assoc, further, List.append_assoc]
    rfl

/-- What the text means is what the units mean in sequence. -/
theorem ReadsSequence.meaning (h : ReadsSequence d sql units) :
    ∃ ts f, Reads (chars d sql) ts ∧ disjunction (tokens ts) = some f ∧
      inSequence units = some f := by
  obtain ⟨ts, complete, current, read, isSequence, further⟩ := h
  refine ⟨ts, _, read, isSequence.disjunction, ?_⟩
  simpa [runs] using further []

theorem readsUnit_not (read : Reads (chars d sql) ts) (h : disjunction (tokens ts) = some f) :
    ReadsUnit d (ofString "NOT " ++ sql.parenthesize) (.not f) := by
  have word : IsWord "NOT".toList := by decide
  refine ⟨_, ?_, isUnit_not h⟩
  simpa using word.reads.blank (reads_group read.inside)

theorem readsUnit_group (read : Reads (chars d sql) ts) (h : disjunction (tokens ts) = some f) :
    ReadsUnit d sql.parenthesize f :=
  ⟨_, by simpa using reads_group read.inside, isUnit_group h⟩

theorem ne_nil_of_reads (read : Reads (chars d sql) ts) (h : disjunction (tokens ts) = some f) :
    sql ≠ [] := by
  rintro rfl
  obtain ⟨r, same, level, _⟩ := read [] []
  cases same
  cases level
  cases h

theorem reading_of_reads (read : Reads (chars d sql) ts) :
    reading (sql.text d) = disjunction (tokens ts) := by
  have trees : trees? (sql.text d) = some ts := Reads.trees? (by rwa [text_toList])
  rw [reading, trees]
  rfl

theorem clauseOf_of_reads (read : Reads (chars d sql) ts) :
    clauseOf (sql.text d) = .clause (stripped ts) := by
  have trees : trees? (sql.text d) = some ts := Reads.trees? (by rwa [text_toList])
  rw [clauseOf, trees]
  rfl

/-- Text that may be empty, where there are no units. -/
def ReadsUnits (d : Dialect) (sql : Sql) (units : List (Connective × Formula)) : Prop :=
  sql = [] ∧ units = [] ∨ ReadsSequence d sql units

def ReadsClause (d : Dialect) (sql : Sql) : Prop :=
  sql = [] ∨ sql ≠ [] ∧ ReadsUnit d sql (clauseOf (sql.text d))

theorem ReadsClause.ownUnit (h : ReadsClause d sql) :
    sql = [] ∧ ClauseTree.ownUnit d sql = [] ∨
      ClauseTree.ownUnit d sql = [(.and, clauseOf (sql.text d))] ∧
        ReadsUnit d sql (clauseOf (sql.text d)) := by
  rcases h with rfl | ⟨nonempty, unit⟩
  · exact Or.inl ⟨rfl, rfl⟩
  · exact Or.inr ⟨if_neg (by simpa using nonempty), unit⟩

theorem ReadsClause.readsUnits (h : ReadsClause d sql) :
    ReadsUnits d sql (ClauseTree.ownUnit d sql) := by
  refine h.ownUnit.imp_right ?_
  rintro ⟨eq, unit⟩
  rw [eq]
  exact unit.sequence .and

theorem ReadsClause.readsUnit (h : ReadsClause d sql)
    (meaning : inSequence (ClauseTree.ownUnit d sql) = some f) : ReadsUnit d sql f := by
  rcases h.ownUnit with ⟨_, eq⟩ | ⟨eq, unit⟩
  · rw [eq] at meaning
    cases meaning
  · rw [eq] at meaning
    cases meaning
    exact unit

end Sql

namespace Expression

/-- The text of an expression and what it means. One that another expression need not put in
parentheses is a unit. -/
inductive Renders (x : Expression) (d : Dialect) : Sql → Option Formula → Prop where
  | nothing : x.Renders d [] none
  | condition {sql : Sql} {ts : List Tree} {f : Formula} (read : Reads (chars d sql) ts)
      (meaning : disjunction (tokens ts) = some f)
      (unit : x.children = [] ∨ x.negated = true → ReadsUnit d sql f) : x.Renders d sql (some f)

variable {x : Expression} {d : Dialect} {sql before : Sql} {meaning : Option Formula}
  {units : List (Connective × Formula)}

theorem Renders.eq_nil_iff (h : x.Renders d sql meaning) : sql = [] ↔ meaning = none := by
  cases h with
  | nothing => simp
  | condition read meaning unit => simp [ne_nil_of_reads read meaning]

theorem Renders.reading (h : x.Renders d sql meaning) : reading (sql.text d) = meaning := by
  cases h with
  | nothing => rfl
  | condition read meaning unit => rw [reading_of_reads read, meaning]

theorem Renders.joined (h : x.Renders d sql meaning) (hb : ReadsUnits d before units) :
    ReadsUnits d (x.joined before (x.grouped sql))
      (units ++ (meaning.map fun f => (x.connective.getD .and, f)).toList) := by
  cases h with
  | nothing => simpa [Expression.joined, grouped] using hb
  | @condition _ ts f read meaning unit =>
    have nonempty := ne_nil_of_reads read meaning
    have child : x.grouped sql ≠ [] ∧ ReadsUnit d (x.grouped sql) f := by
      unfold grouped
      split
      · next alone =>
        simp only [Bool.or_eq_true, List.isEmpty_iff, nonempty, or_false] at alone
        exact ⟨nonempty, unit alone⟩
      · exact ⟨by simp [parenthesize, nonempty], readsUnit_group read meaning⟩
    obtain ⟨someChild, isUnit⟩ := child
    unfold Expression.joined
    rw [if_neg (by simpa using someChild)]
    refine Or.inr ?_
    rcases hb with ⟨rfl, rfl⟩ | sequence
    · exact isUnit.sequence _
    · have further : before ≠ [] := by
        obtain ⟨ts, f, read, meaning, _⟩ := sequence.meaning
        exact ne_nil_of_reads read meaning
      rw [if_neg (by simpa using further)]
      exact sequence.join _ isUnit

/-- A node of the tree, which a unit of its own is where there are no children. -/
theorem renders_of_readsUnits (h : ReadsUnits d sql units)
    (alone : x.children = [] → ∀ f, inSequence units = some f → ReadsUnit d sql f) :
    x.Renders d (if x.negated && !sql.isEmpty then ofString "NOT " ++ sql.parenthesize else sql)
      (if x.negated then (inSequence units).map .not else inSequence units) := by
  rcases h with ⟨rfl, rfl⟩ | isSequence
  · simpa [inSequence] using Renders.nothing
  · obtain ⟨ts, f, read, meaning, units_eq⟩ := isSequence.meaning
    have nonempty := ne_nil_of_reads read meaning
    rw [units_eq]
    cases negated : x.negated with
    | true =>
      obtain ⟨us, readNot, unit⟩ := readsUnit_not read meaning
      have rendered : x.Renders d (ofString "NOT " ++ sql.parenthesize) (some (.not f)) :=
        .condition readNot unit.disjunction fun _ => ⟨us, readNot, unit⟩
      simpa [nonempty] using rendered
    | false =>
      refine .condition read meaning fun unit => alone ?_ f units_eq
      simpa [negated] using unit

section Clauses

variable {registry : Registry} {base : List Parameter} {compile : Query → Build Command}
  {d d' : Draft}

/-- The clause of an expression by itself, unless it is empty. -/
theorem condition_reads (hc : Balances registry compile)
    (valid : ∀ p ∈ x.parts, p.IsValid Command.IsBalanced registry)
    (proper : ∀ o ∈ x.operator, ∀ a ∈ x.argument, SingleProperty o a)
    (hd : d.Ready registry base) (given : Gives (x.condition compile) d sql d') :
    d'.Ready registry base ∧ ReadsClause d.dialect sql := by
  obtain ⟨ready, shape⟩ := condition_yields hc valid hd given
  refine ⟨ready, shape.imp_right fun clause => ?_⟩
  obtain ⟨ts, read, unit⟩ := clause.reads d.dialect proper
  refine ⟨ne_nil_of_reads read unit.disjunction, ts, read, ?_⟩
  rwa [clauseOf_of_reads read]

mutual

/-- An expression is rendered into what the tree of its clauses means. -/
theorem predicate_renders (hc : Balances registry compile) :
    ∀ {x : Expression} {d d' : Draft} {sql : Sql},
      (∀ p ∈ x.parts, p.IsValid Command.IsBalanced registry) → x.ComparesProperties →
      d.Ready registry base → Gives (x.predicate compile) d sql d' →
      d'.Ready registry base ∧ ∃ tree, Gives (x.clauses compile) d tree d' ∧
        tree.connective = x.connective ∧ x.Renders d.dialect sql (tree.meaning d.dialect)
  | ⟨a, b, c, o, e, f, g, connective, negated, i, children⟩, d, d', sql, valid, proper, hd,
      given => by
    rw [predicate_eq] at given
    obtain ⟨own, d₁, rendered, given⟩ := gives_bind.1 given
    obtain ⟨all, d₂, appended, given⟩ := gives_bind.1 given
    obtain ⟨rfl, rfl⟩ := gives_pure.1 given
    obtain ⟨ownProper, childrenProper⟩ := proper
    obtain ⟨ready₁, shape⟩ := condition_reads hc valid ownProper hd rendered
    have same := (condition_appends _ rendered).sameGround.dialect
    have begun : ReadsUnits d₁.dialect own (ClauseTree.ownUnit d.dialect own) := by
      rw [same]
      exact shape.readsUnits
    obtain ⟨ready, trees, areTrees, reads⟩ := appendChildren_renders hc
      (fun y hy p hp => valid p (children_parts hy p hp)) childrenProper ready₁ begun appended
    rw [same] at reads
    refine ⟨ready, .node own connective negated trees, ?_, rfl, ?_⟩
    · rw [clauses]
      exact gives_bind.2 ⟨own, d₁, rendered, gives_bind.2 ⟨trees, _, areTrees, rfl⟩⟩
    · rw [ClauseTree.meaning]
      refine renders_of_readsUnits reads ?_
      rintro rfl f meaning
      rw [appendChildren] at appended
      rw [childClauses] at areTrees
      obtain ⟨rfl, rfl⟩ := gives_pure.1 appended
      obtain ⟨rfl, _⟩ := gives_pure.1 areTrees
      rw [ClauseTree.meanings, List.append_nil] at meaning
      exact shape.readsUnit meaning

theorem appendChildren_renders (hc : Balances registry compile) :
    ∀ {children : List Expression} {before sql : Sql} {units : List (Connective × Formula)}
      {d d' : Draft}, (∀ x ∈ children, ∀ p ∈ x.parts, p.IsValid Command.IsBalanced registry) →
      (∀ x ∈ children, x.ComparesProperties) → d.Ready registry base →
      ReadsUnits d.dialect before units → Gives (appendChildren compile before children) d sql d' →
      d'.Ready registry base ∧ ∃ trees, Gives (childClauses compile children) d trees d' ∧
        ReadsUnits d.dialect sql (units ++ ClauseTree.meanings d.dialect trees)
  | [], before, sql, units, d, d', valid, proper, hd, hb, given => by
    rw [appendChildren] at given
    obtain ⟨rfl, rfl⟩ := gives_pure.1 given
    refine ⟨hd, [], gives_pure.2 ⟨rfl, rfl⟩, ?_⟩
    simpa [ClauseTree.meanings] using hb
  | child :: rest, before, sql, units, d, d', valid, proper, hd, hb, given => by
    rw [appendChildren] at given
    obtain ⟨own, d₁, rendered, given⟩ := gives_bind.1 given
    obtain ⟨ready, tree, isTree, connective, renders⟩ := predicate_renders hc
      (valid child List.mem_cons_self) (proper child List.mem_cons_self) hd rendered
    have same := (predicate_appends _ rendered).sameGround.dialect
    have joined := renders.joined hb
    rw [← same] at joined
    obtain ⟨ready', trees, areTrees, reads⟩ := appendChildren_renders hc
      (fun x hx => valid x (List.mem_cons_of_mem child hx))
      (fun x hx => proper x (List.mem_cons_of_mem child hx)) ready joined given
    refine ⟨ready', tree :: trees, ?_, ?_⟩
    · rw [childClauses]
      exact gives_bind.2 ⟨tree, d₁, isTree, gives_bind.2 ⟨trees, d', areTrees, rfl⟩⟩
    · rw [same, List.append_assoc] at reads
      rw [ClauseTree.meanings_cons, connective]
      exact reads

end

end Clauses

end Expression

/-- The text of an expression reads into what the tree of its clauses means, and is empty where
the tree means nothing. -/
theorem predicate_reads_back {x : Expression} {d d' : Draft} {sql : Sql}
    (lists : d.cache.IsValid) (valid : ∀ p ∈ x.parts, p.IsValid Command.IsBalanced d.registry)
    (proper : x.ComparesProperties) (given : Gives (x.predicate Query.compile) d sql d') :
    ∃ tree, Gives (x.clauses Query.compile) d tree d' ∧
      reading (sql.text d.dialect) = tree.meaning d.dialect ∧
      (sql = [] ↔ tree.meaning d.dialect = none) := by
  have ready : d.Ready d.registry d.parameters :=
    ⟨rfl, lists, [], (List.append_nil _).symm, List.forall_mem_nil _⟩
  obtain ⟨_, tree, isTree, _, renders⟩ :=
    Expression.predicate_renders Query.compile_balances valid proper ready given
  exact ⟨tree, isTree, renders.reading, renders.eq_nil_iff⟩

def tested : Expression := .bare "T" "A" (some ⟨"t", "a", .integer, none, .all⟩)

def handWritten (sql : String) : Command := ⟨Command.anonymous, sql, [], .select, none⟩

def testedIn (sql : String) : Expression :=
  tested.isInSubQuery (.command (handWritten sql))

def nestedTest : Expression :=
  let given := (tested.equal (.integer 3)).or tested.isNull
  let range := tested.between (.integer 1) (.integer 2)
  ((range.or given).or .group).and (testedIn "SELECT 1").not

def blankDraft : Draft := .new .postgres (.new true) {} []

theorem blankDraft_lists : blankDraft.cache.IsValid := by
  simp [blankDraft, Draft.new, SelectCache.IsValid]

theorem tested_isValid : ColumnRef.IsValid ⟨"t", "a", .integer, none, .all⟩ :=
  ⟨by decide +kernel, by decide +kernel⟩

theorem predicate_reads_back_nested :
    ∃ tree d', Gives (nestedTest.clauses Query.compile) blankDraft tree d' ∧
      tree.meaning .postgres = some (.or [clauseOf "t.a BETWEEN $1 AND $2",
        .and [.or [clauseOf "t.a = $3", clauseOf "t.a IS NULL"],
          .not (clauseOf "t.a IN (SELECT 1)")]]) := by
  have balanced : (handWritten "SELECT 1").IsBalanced := ⟨fun _ => rfl, List.forall_mem_nil _⟩
  have valid : ∀ p ∈ nestedTest.parts, p.IsValid Command.IsBalanced blankDraft.registry := by
    have parts : nestedTest.parts = List.replicate 4 (.column ⟨"t", "a", .integer, none, .all⟩) ++
        [.command (handWritten "SELECT 1")] := rfl
    rw [parts]
    intro p hp
    rcases List.mem_append.1 hp with hp | hp
    · cases (List.mem_replicate.1 hp).2
      exact tested_isValid
    · cases List.mem_singleton.1 hp
      exact balanced
  have proper : nestedTest.ComparesProperties := by
    have missing : tested.isNull.ComparesProperties := .leaf rfl nofun
    have other : (testedIn "SELECT 1").not.ComparesProperties := .leaf rfl nofun
    have given : (tested.equal (.integer 3)).ComparesProperties := .leaf rfl nofun
    have range : (tested.between (.integer 1) (.integer 2)).ComparesProperties := .leaf rfl nofun
    have group : Expression.group.ComparesProperties := .leaf rfl nofun
    exact ((range.append (given.append missing _) _).append group _).append other _
  have text : ((nestedTest.predicate Query.compile).run blankDraft).1.map (·.text .postgres) =
      .ok "t.a BETWEEN $1 AND $2 OR (t.a = $3 OR t.a IS NULL) AND NOT (t.a IN (SELECT 1))" := by
    decide +kernel
  rcases run : (nestedTest.predicate Query.compile).run blankDraft with ⟨e | sql, d'⟩
  · rw [run] at text
    cases text
  · obtain ⟨tree, isTree, meaning, _⟩ := predicate_reads_back blankDraft_lists valid proper run
    rw [run] at text
    have text : sql.text .postgres = _ := Except.ok.inj text
    have dialect : blankDraft.dialect = .postgres := rfl
    refine ⟨tree, d', isTree, meaning.symm.trans ?_⟩
    rw [dialect, text]
    cbv

def escapingTest : Expression := testedIn "SELECT 1) OR (1 = 1"

def Sql.Formula.isClause : Formula → Bool
  | .clause _ => true
  | _ => false

/-- A tree of one clause means that clause, but the text reads into a disjunction. -/
theorem escaping_reads_otherwise :
    (∀ p ∈ escapingTest.parts, p.IsValid (fun _ => True) blankDraft.registry) ∧
    escapingTest.ComparesProperties ∧
    ∃ sql d', Gives (escapingTest.predicate Query.compile) blankDraft sql d' ∧
      ∀ tree d', Gives (escapingTest.clauses Query.compile) blankDraft tree d' →
        reading (sql.text .postgres) ≠ tree.meaning .postgres := by
  refine ⟨?_, .leaf rfl nofun, ?_⟩
  · have parts : escapingTest.parts = [.column ⟨"t", "a", .integer, none, .all⟩,
        .command (handWritten "SELECT 1) OR (1 = 1")] := rfl
    rw [parts, List.forall_mem_cons]
    exact ⟨tested_isValid, by simp [Part.IsValid]⟩
  · have text : ((escapingTest.predicate Query.compile).run blankDraft).1 =
        .ok (ofString "t.a IN (SELECT 1) OR (1 = 1)") := by decide +kernel
    have meant : ((escapingTest.clauses Query.compile).run blankDraft).1.map
        (fun tree => (tree.meaning .postgres).map Formula.isClause) = .ok (some true) := by
      decide +kernel
    have read : (reading ((ofString "t.a IN (SELECT 1) OR (1 = 1)").text .postgres)).map
        Formula.isClause = some false := by decide +kernel
    refine ⟨_, _, Prod.ext text rfl, fun tree d' given same => ?_⟩
    rw [Gives] at given
    rw [given] at meant
    have one : (tree.meaning .postgres).map Formula.isClause = some true := Except.ok.inj meant
    rw [same, one] at read
    cases read

end DmlCompiler
