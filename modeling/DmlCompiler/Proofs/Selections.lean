import DmlCompiler.Proofs.Comparisons
import DmlCompiler.Proofs.Names
import DmlCompiler.Proofs.Nesting

/-! # What the entries of a selection read

An entry of a select list refers to its own column, which must permit being selected, and to that of
the property that it is compared with, which is not looked at. It refers to no other column, and
beside these there are in its text the statements of its sub-queries. -/
namespace DmlCompiler

open Build Sql

structure Selection where
  entries : List Expression
  distinct : Bool

namespace Selection

def shown (s : Selection) : List Expression := s.entries.filter (!·.isEmpty)

def opening (s : Selection) : String := if s.distinct then "SELECT DISTINCT " else "SELECT "

end Selection

def Call.selection? : Call → Option Selection
  | .select xs | .selectPropertiesLimit xs _ => some ⟨xs, false⟩
  | .selectDistinct xs => some ⟨xs, true⟩
  | .selectLimit _ => some ⟨[], false⟩
  | _ => none

theorem Call.make_of_selection? {c : Call} {s : Selection} (h : c.selection? = some s)
    (compile : Query → Build Command) :
    c.make compile = selectBlock compile s.entries s.distinct c.limit? := by
  cases c <;> cases h <;> rfl

namespace Expression

def column? (x : Expression) : Option ColumnRef := if x.isWildcard then none else x.column

def compared? (x : Expression) : Option Expression :=
  match x.operator, x.argument with
  | some operator, some (.property other) => if operator.isNullCheck then none else some other
  | _, _ => none

def columns (x : Expression) : Set ColumnRef :=
  {c | c ∈ x.column?} ∪ {c | ∃ y ∈ x.compared?, c ∈ y.column?}

/-- The statement is that of a sub-query in the list of the expression, as it is finished in the
surroundings of the draft. -/
def Inlines (ground : Draft) (x : Expression) (c : Command) : Prop :=
  ∃ operands q d d', x.argument = some (.list operands) ∧ .subQuery q ∈ operands ∧
    ground.SameGround d ∧ Gives (q.finish Query.compile) d c d'

end Expression

/-- The text refers to these columns and to no others: beside them there are in it words, places, an
alias and the statements that are inlined. -/
inductive Sql.Refers (dialect : Dialect) (inlined : Command → Prop) : Set ColumnRef → Sql → Prop where
  | nil : Refers dialect inlined ∅ []
  | word {word : String} (h : dialect.IsWord word) : Refers dialect inlined ∅ (ofString word)
  | place (number : Nat) : Refers dialect inlined ∅ [.place number]
  | label {label : String} (h : Identifier.checkShape label = .ok ()) :
      Refers dialect inlined ∅ (ofString s!" AS {label}")
  | statement {c : Command} (h : inlined c) (n : Nat) : Refers dialect inlined ∅ (c.inlined n)
  | column (c : ColumnRef) : Refers dialect inlined {c} (ofString c.sql)
  | append {s t : Set ColumnRef} {a b : Sql} (ha : Refers dialect inlined s a)
      (hb : Refers dialect inlined t b) : Refers dialect inlined (s ∪ t) (a ++ b)

namespace Sql.Refers

variable {dialect : Dialect} {inlined : Command → Prop} {s : Set ColumnRef} {a b : Sql}

theorem common {word : String} (h : word ∈ commonWords) : Refers dialect inlined ∅ (ofString word) :=
  .word (.common h)

/-- What refers to no column may stand on either side. -/
theorem before (ha : Refers dialect inlined ∅ a) (hb : Refers dialect inlined s b) :
    Refers dialect inlined s (a ++ b) := by
  simpa using append ha hb

theorem behind (ha : Refers dialect inlined s a) (hb : Refers dialect inlined ∅ b) :
    Refers dialect inlined s (a ++ b) := by
  simpa using append ha hb

theorem isClosed : IsClosed (Refers dialect inlined ∅) := ⟨.nil, before⟩

theorem closing : ∀ count : Nat, Refers dialect inlined ∅ (List.replicate count (.char ')'))
  | 0 => .nil
  | count + 1 => before (common (by decide : ")" ∈ commonWords)) (closing count)

theorem parenthesize (h : Refers dialect inlined s a) : Refers dialect inlined s a.parenthesize :=
  behind (before (common (by decide)) h) (common (by decide))

end Sql.Refers

section Texts

variable {dialect : Dialect} {inlined : Command → Prop} {s : Set ColumnRef} {inner : Sql}

namespace Function

theorem wholeLength_refers (f : Function) (h : Refers dialect inlined s inner) :
    f.wholeLength dialect inner = [] ∨
      Refers dialect inlined s (f.wholeLength dialect inner) := by
  unfold wholeLength
  split
  · next length eq =>
    split
    · unfold Dialect.wholeLength? at eq
      split at eq
      · cases eq
        refine .inr (.before (.word (.separator f.kind)) ?_)
        exact .behind (.before (.common (by decide)) h) (.common (by decide))
      · cases eq
    · exact .inl rfl
  · exact .inl rfl

/-- A function refers to the columns of its argument, which it may repeat. -/
theorem text_refers (f : Function) (h : Refers dialect inlined s inner) (n : Nat) :
    Refers dialect inlined s (f.text dialect inner n) := by
  have params : Refers dialect inlined ∅ (f.params.mapIdx fun i _ =>
      ofString f.kind.separator ++ [Symbol.place (n + i + 1)]).flatten := by
    refine Refers.isClosed.flatten fun sql mem => ?_
    obtain ⟨i, _, rfl⟩ := List.mem_mapIdx.1 mem
    exact .before (.word (.separator f.kind)) (.place _)
  have arguments := ((Refers.word (.opening f.kind)).before h).behind params
  refine .behind ?_ (.closing _)
  rcases f.wholeLength_refers h with none | whole
  · rw [none, List.append_nil]
    exact arguments
  · simpa using arguments.append whole

end Function

namespace Expression

theorem wrapped_refers (h : Refers dialect inlined s inner) :
    ∀ (fs : List Function) (n : Nat), Refers dialect inlined s (wrapped dialect fs inner n) := by
  intro fs
  induction fs generalizing inner with
  | nil => exact fun _ => h
  | cons f fs ih => exact fun n => ih (f.text_refers h n) _

theorem referenceText_refers {x : Expression} (some : x.isEmpty = false) (n : Nat) :
    Refers dialect inlined {c | c ∈ x.column?} (x.referenceText dialect n) := by
  refine wrapped_refers ?_ x.functions n
  unfold baseText column?
  by_cases wildcard : x.isWildcard = true
  · rw [if_pos wildcard, if_pos wildcard]
    simpa using Refers.common (by decide : wildcardName ∈ commonWords)
  · rw [if_neg wildcard, if_neg wildcard]
    cases carried : x.column with
    | none => simp [isEmpty, carried, wildcard] at some
    | some c =>
      have named : {d | d ∈ Option.some c} = ({c} : Set ColumnRef) := by
        ext d
        simp [eq_comm]
      rw [named]
      exact .column c

end Expression

end Texts

section Entries

variable {ground d d' : Draft} {x : Expression} {sql : Sql} {n : Nat} {bs : List Binding}

theorem Operand.Shows.refers {column : Option ColumnRef} {alone : Bool} {o : Operand}
    (h : o.Shows Query.compile ground column alone n sql bs) {inlined : Command → Prop}
    (finished : ∀ q c, o = .subQuery q → q.Finishes Query.compile ground c → inlined c) :
    Refers ground.dialect inlined ∅ sql := by
  cases h with
  | value v n => exact .place _
  | @subQuery q c found isSelect n =>
    have statement : Refers ground.dialect inlined ∅ (c.inlined n) :=
      .statement (finished q c rfl found) n
    split
    · exact statement
    · exact statement.parenthesize

/-- Of the arguments only a property is written as a column. -/
theorem Argument.Shows.refers {column : Option ColumnRef} {operator : Operator} {a : Argument}
    {right : Sql} (h : a.Shows Query.compile ground column operator n right bs)
    (other : ∀ y, a ≠ .property y) {inlined : Command → Prop}
    (finished : ∀ operands q c, a = .list operands → .subQuery q ∈ operands →
      q.Finishes Query.compile ground c → inlined c) :
    Refers ground.dialect inlined ∅ right := by
  cases h with
  | value v n one => exact .place _
  | range low high n isRange =>
    exact .behind (.before (.place _) (.common (by decide))) (.place _)
  | @list operands n items bs isMembership some shown =>
    refine (Refers.isClosed.join (.common (by decide)) fun sql mem => ?_).parenthesize
    obtain ⟨o, m, cs, listed, item⟩ := shown.exists_item mem
    exact item.refers fun q c eq found => finished operands q c rfl (eq ▸ listed) found
  | property some n => exact absurd rfl (other _)

namespace Expression

theorem columns_of_alone (alone : x.compared? = none) : x.columns = {c | c ∈ x.column?} := by
  simp [columns, alone]

theorem columns_of_compared {y : Expression} (compared : x.compared? = some y) :
    x.columns = {c | c ∈ x.column?} ∪ {c | c ∈ y.column?} := by
  simp [columns, compared]

theorem Shows.refers {around : Draft} (same : around.SameGround ground) (some : x.isEmpty = false)
    (h : x.Shows Query.compile ground n sql bs) :
    Refers around.dialect (x.Inlines around) x.columns sql := by
  rw [← same.dialect]
  have own (m : Nat) : Refers ground.dialect (x.Inlines around) {c | c ∈ x.column?}
    (x.referenceText ground.dialect m) := referenceText_refers some m
  cases h with
  | reference absent n =>
    rw [columns_of_alone (by simp [compared?, absent])]
    exact own n
  | @check operator present isNullCheck n =>
    have alone : x.compared? = none := by
      rw [compared?, present]
      split
      · next found _ =>
        cases found
        exact if_pos isNullCheck
      · rfl
    rw [columns_of_alone alone]
    exact (own n).behind (.word (.operator operator))
  | @comparison operator a n right bs present binary argument shown =>
    have left := ((own n).behind (.word (.operator operator))).behind
      (.common (by decide : " " ∈ commonWords))
    by_cases property : ∃ y, a = .property y
    · obtain ⟨y, rfl⟩ := property
      rw [columns_of_compared (y := y) (by simp [compared?, present, argument, binary])]
      cases shown with
      | property known _ => exact left.append (referenceText_refers known _)
    · have alone : x.compared? = none := by
        rw [compared?, present, argument]
        cases a <;> first | rfl | exact (property ⟨_, rfl⟩).elim
      rw [columns_of_alone alone]
      refine left.behind (shown.refers (fun y eq => property ⟨y, eq⟩) ?_)
      rintro operands q c rfl listed ⟨d, d', reached, found⟩
      have within : around.SameGround d := IsTrans.trans _ _ _ same reached.sameGround
      exact ⟨operands, q, d, d', argument, listed, within, found⟩

theorem projection_refers {around : Draft} (same : around.SameGround d) (some : x.isEmpty = false)
    (given : Gives (x.projection Query.compile) d sql d') :
    Refers around.dialect (x.Inlines around) x.columns sql := by
  obtain ⟨_, d₁, checked, afterCheck⟩ := gives_bind.1 given
  obtain rfl := checkPermission_gives checked
  obtain ⟨text, d₂, rendered, labelled⟩ := gives_bind.1 afterCheck
  obtain ⟨bs, shown, -⟩ := condition_shows some d₁.reaches_refl rendered
  have own := shown.refers same some
  cases named : x.label with
  | none =>
    rw [named] at labelled
    obtain ⟨rfl, rfl⟩ := gives_pure.1 labelled
    exact own
  | some label =>
    rw [named] at labelled
    dsimp only at labelled
    cases shape : Identifier.checkShape label with
    | error cause =>
      rw [shape] at labelled
      exact (gives_throw.1 labelled).elim
    | ok u =>
      rw [shape] at labelled
      obtain ⟨rfl, rfl⟩ := gives_pure.1 labelled
      exact own.behind (.label shape)

end Expression

namespace Build

theorem select1_refers {around : Draft} (some : x.isEmpty = false) (before : Sql) :
    Yields (fun d => around.SameGround d ∧ d.sql = before)
      (Refers around.dialect (x.Inlines around) x.columns) (select1 Query.compile x) := by
  rintro d sql d' ⟨same, rfl⟩ given
  obtain ⟨text, d₁, projected, afterEntry⟩ := gives_bind.1 given
  obtain ⟨_, d₂, counted, result⟩ := gives_bind.1 afterEntry
  obtain rfl := gives_modify.1 counted
  obtain ⟨rfl, rfl⟩ := gives_pure.1 result
  have ground : around.SameGround d₁ :=
    IsTrans.trans _ _ _ same (x.projection_appends.ground projected)
  have refers := x.projection_refers same some projected
  refine ⟨⟨⟨ground.1, ground.2, ground.3, ground.4, ground.5⟩, ?_⟩, refers⟩
  exact (x.projection_appends projected).sameText.sql

theorem selectBlock_refers {s : Selection} {limit : Option UInt64} {u : Unit}
    (given : Gives (selectBlock Query.compile s.entries s.distinct limit) d u d') :
    ∃ texts, List.Forall₂ (fun x sql => Refers d.dialect (x.Inlines d) x.columns sql) s.shown texts ∧
      d'.sql = d.sql ++ ofString s.opening ++ join ", " texts := by
  obtain ⟨_, d₁, expected, afterExpect⟩ := gives_bind.1 given
  obtain ⟨-, rfl⟩ := expect_gives expected
  obtain ⟨_, d₂, limited, afterLimit⟩ := gives_bind.1 afterExpect
  obtain ⟨rowLimit, rfl⟩ := limitRows_gives limited
  obtain ⟨_, d₃, kinded, afterKind⟩ := gives_bind.1 afterLimit
  obtain rfl := gives_modify.1 kinded
  obtain ⟨_, d₄, opened, afterOpening⟩ := gives_bind.1 afterKind
  obtain rfl := gives_modify.1 opened
  obtain ⟨texts, d₅, rendered, afterEntries⟩ := gives_bind.1 afterOpening
  have rendered : Gives (s.shown.mapM (select1 Query.compile)) _ texts d₅ := rendered
  have each : ∀ x ∈ s.shown, Yields (fun d => d₁.SameGround d ∧ d.sql = d₁.sql ++ ofString s.opening)
      (Refers d₁.dialect (x.Inlines d₁) x.columns) (select1 Query.compile x) :=
    fun x mem => select1_refers (by simpa using (List.mem_filter.1 mem).2) _
  have refers := fun started => yields_mapM_forall₂ each started rendered
  obtain ⟨⟨-, text⟩, refer⟩ := refers ⟨⟨rfl, rfl, rfl, rfl, rfl⟩, rfl⟩
  obtain ⟨_, d₆, wrote, moved⟩ := gives_bind.1 afterEntries
  obtain rfl := gives_modify.1 moved
  refine ⟨texts, refer, ?_⟩
  rw [← text]
  cases texts with
  | nil =>
    obtain rfl := gives_modify.1 wrote
    exact (List.append_nil _).symm
  | cons first rest =>
    obtain rfl := gives_modify.1 wrote
    rfl

end Build

end Entries

/-- The inner call is the call itself or is made for a query that is nested in it. -/
inductive Call.MadeIn (dialect : Dialect) (registry : Registry) (inner : Call) : Call → Prop where
  | self : MadeIn dialect registry inner inner
  | nested {c c' : Call} {q : Query} {calls : List Call} (nests : c.Nests q)
      (read : q.calls? dialect registry = .ok calls) (mem : c' ∈ calls)
      (h : MadeIn dialect registry inner c') : MadeIn dialect registry inner c

/-- Where the outer call is made on the draft, the inner one takes the first draft to the second: it
is the outer one itself, or one of the calls of a query that is compiled for it. -/
inductive Call.MadeOn (inner : Call) (d₁ d₂ : Draft) : Draft → Call → Prop where
  | self (given : Gives (inner.make Query.compile) d₁ () d₂) : MadeOn inner d₁ d₂ d₁ inner
  | nested {d around d₃ d₄ : Draft} {c c' : Call} {q : Query} {before after : List Call}
      {command : Command} (nests : c.Nests q) (same : d.SameGround around)
      (compiled : Gives q.compile around.child command d₄)
      (read : q.calls? d.dialect d.registry = .ok (before ++ c' :: after))
      (reached : Gives (makeAll before) around.child () d₃)
      (within : MadeOn inner d₁ d₂ d₃ c') : MadeOn inner d₁ d₂ d c

section Nested

variable {dialect : Dialect} {registry : Registry} {c inner : Call} {s : Selection}
  {d d' d₁ d₂ : Draft}

theorem Call.MadeOn.given (h : inner.MadeOn d₁ d₂ d c) :
    Gives (inner.make Query.compile) d₁ () d₂ := by
  induction h with
  | self given => exact given
  | nested _ _ _ _ _ _ ih => exact ih

/-- Where a call succeeds, so have all calls within it. -/
theorem Call.MadeIn.made (h : inner.MadeIn dialect registry c) {u : Unit}
    (here : d.IsFor dialect registry) (given : Gives (c.make Query.compile) d u d') :
    ∃ d₁ d₂, d₁.IsFor dialect registry ∧ inner.MadeOn d₁ d₂ d c := by
  induction h generalizing d d' u with
  | self => exact ⟨d, d', here, .self given⟩
  | @nested c c' q calls nests read mem _ ih =>
    obtain ⟨d₁, command, d₂, same, compiled⟩ := make_compiles nests given
    have run := compiled
    rw [Query.compile_eq] at run
    obtain ⟨_, d₃, replayed, _⟩ := gives_bind.1 run
    have around := same.isFor here
    have child : d₁.child.IsFor dialect registry := ⟨around.dialect, around.registry⟩
    obtain ⟨calls', read', made⟩ := Query.replay_gives child replayed
    cases read.symm.trans read'
    obtain ⟨before, after, rfl⟩ := List.append_of_mem mem
    obtain ⟨d₄, d₅, reached, made⟩ := makeAll_split made
    have ground : d₁.child.SameGround d₄ := Draft.sameGround_holdsOverSteps.makeAll before reached
    obtain ⟨d₆, d₇, there, within⟩ := ih (ground.isFor child) made
    rw [← here.dialect, ← here.registry] at read
    exact ⟨d₆, d₇, there, .nested nests same compiled read reached within⟩

/-- Written on the first draft, the list of the selection refers to the columns of its entries. -/
def Selection.Writes (s : Selection) (d d' : Draft) : Prop :=
  ∃ texts, List.Forall₂ (fun x sql => Refers d.dialect (x.Inlines d) x.columns sql) s.shown texts ∧
    d'.sql = d.sql ++ ofString s.opening ++ join ", " texts

/-- The entries of the selections that are made within the call. -/
def Call.entries (dialect : Dialect) (registry : Registry) (c : Call) : Set Expression :=
  {x | ∃ inner s, Call.MadeIn dialect registry inner c ∧ inner.selection? = some s ∧ x ∈ s.shown}

theorem Call.selection?_requires {compile : Query → Build Command} (selects : c.selection? = some s) :
    Requires (c.make compile) (∀ x ∈ s.shown, ∀ column ∈ x.column?, column.permissions.select) := by
  rw [make_of_selection? selects]
  refine (selectBlock_requires s.entries s.distinct _).mono fun permits x mem column own => ?_
  refine permits x (List.mem_filter.1 mem).1 column ?_
  unfold Expression.column? at own
  split at own
  · cases own
  · exact own

/-- In a call that succeeds every selection, also those in nested queries, refers to the columns of
its entries. The own column of each of these may be selected, so what is referred to may all be
selected exactly if that holds of the columns that the entries are compared with. -/
theorem selections_read_permitted_iff (called : d.call c = (.ok (), d')) :
    (∀ s, c.selection? = some s → s.Writes d d') ∧
    (∀ (inner : Call) (s : Selection), inner.MadeIn d.dialect d.registry c →
      inner.selection? = some s →
      ∃ d₁ d₂ : Draft, d₁.IsFor d.dialect d.registry ∧ inner.MadeOn d₁ d₂ d c ∧ s.Writes d₁ d₂) ∧
    (∀ x ∈ c.entries d.dialect d.registry, ∀ column ∈ x.column?, column.permissions.select) ∧
    ((∀ x ∈ c.entries d.dialect d.registry, ∀ column ∈ x.columns, column.permissions.select) ↔
      ∀ x ∈ c.entries d.dialect d.registry, ∀ other ∈ x.compared?, ∀ column ∈ other.column?,
        column.permissions.select) := by
  have made := (gives_guarded.1 called).2
  have writes : ∀ {c : Call} {s : Selection} {d d' : Draft} {u : Unit}, c.selection? = some s →
      Gives (c.make Query.compile) d u d' → s.Writes d d' := by
    intro c s d d' u selects given
    rw [Call.make_of_selection? selects] at given
    exact selectBlock_refers given
  have permitted : ∀ x ∈ c.entries d.dialect d.registry, ∀ column ∈ x.column?,
      column.permissions.select := by
    rintro x ⟨inner, s, within, selects, mem⟩
    obtain ⟨d₁, d₂, -, nested⟩ := within.made ⟨rfl, rfl⟩ made
    exact Call.selection?_requires selects nested.given x mem
  refine ⟨fun s selects => writes selects made, fun inner s within selects => ?_, permitted, ?_, ?_⟩
  · obtain ⟨d₁, d₂, here, nested⟩ := within.made ⟨rfl, rfl⟩ made
    exact ⟨d₁, d₂, here, nested, writes selects nested.given⟩
  · intro reads x entry other compared column named
    exact reads x entry column (.inr ⟨other, compared, named⟩)
  · rintro compares x entry column (own | ⟨other, compared, named⟩)
    · exact permitted x entry column own
    · exact compares x entry other compared column named

end Nested
def namesAmongAll : List Expression :=
  [{ companyName with label := some "name" }, .group,
    companyName.compare .isIn (.list [.subQuery (.deferred (suppliersWhere companyName []))])]

theorem selections_read_permitted_iff_union :
    let d := ((Draft.new .standard suppliers {} []).run [.select [], .from supplier, .union]).2
    let c : Call := .selectDistinct namesAmongAll
    d.call c = (.ok (), (d.call c).2) ∧
    (⟨namesAmongAll, true⟩ : Selection).Writes d (d.call c).2 ∧
    ∀ x ∈ c.entries d.dialect d.registry, ∀ column ∈ x.column?, column.permissions.select := by
  intro d c
  have succeeds : (d.call c).1 = .ok () := by decide +kernel
  have called : d.call c = (.ok (), (d.call c).2) := Prod.ext succeeds rfl
  obtain ⟨writes, -, permitted, -⟩ := selections_read_permitted_iff called
  exact ⟨called, writes _ rfl, permitted⟩

def phone : Expression :=
  .bare "Supplier" "Phone" (some ⟨"Supplier", "Phone", .varChar, none, { select := false }⟩)

/-- The comparison of a name with a phone number is selected, though the number itself may not be. -/
theorem hidden_column_compared :
    ((Draft.new .standard suppliers {} []).build
      [.select [companyName.compare .equal (.property phone)], .from supplier]).1.map (·.sql) =
        .ok "SELECT Supplier.CompanyName = Supplier.Phone FROM Supplier" ∧
    (∀ column ∈ phone.column, column.permissions.select = false) ∧
    ((Draft.new .standard suppliers {} []).call (.select [phone])).1 =
      .error (.permissionDenied "Supplier.Phone" .select) := by
  decide +kernel

end DmlCompiler
