import DmlCompiler.Proofs.Frame

/-! # What fragments bind

The text of a fragment, and the values in the parameters that it adds. The text depends on the draft
only by the number of parameters that are there before, from which the places in it go on. -/
namespace DmlCompiler

open Build Sql

structure Binding where
  value : SqlValue
  type : Option ColumnType
  size : Option UInt32
deriving DecidableEq

def Binding.ofColumn (column : Option ColumnRef) (value : SqlValue) : Binding :=
  ⟨value, column.map (·.type), column.bind (·.size)⟩

def Parameter.binding (p : Parameter) : Binding := ⟨p.value, p.type, p.size⟩

namespace Draft

def bound (d : Draft) (bs : List Binding) : Draft :=
  { d with
    parameters := d.parameters ++ bs.mapIdx fun i b =>
      ⟨d.dialect.parameterName (d.parameters.length + i + 1), b.value, b.type, b.size⟩ }

def Gains (d : Draft) (bs : List Binding) (d' : Draft) : Prop :=
  ∃ cache, d' = { d.bound bs with cache := cache }

/-- The second draft has more parameters, and maybe other select lists. -/
def Reaches (d d' : Draft) : Prop := ∃ bs, d.Gains bs d'

variable {d d₁ d' : Draft} {bs cs : List Binding}

theorem bound_nil (d : Draft) : d.bound [] = d := by simp [bound]

theorem bound_append (d : Draft) (bs cs : List Binding) :
    (d.bound bs).bound cs = d.bound (bs ++ cs) := by
  have next (i : Nat) : d.parameters.length + bs.length + i + 1 =
      d.parameters.length + (i + bs.length) + 1 := by omega
  simp [bound, List.mapIdx_append, next]

theorem gains_bound (d : Draft) (bs : List Binding) : d.Gains bs (d.bound bs) := ⟨d.cache, rfl⟩

theorem gains_nil (d : Draft) : d.Gains [] d := ⟨d.cache, by rw [bound_nil]⟩

theorem Gains.trans (h : d.Gains bs d₁) (h' : d₁.Gains cs d') : d.Gains (bs ++ cs) d' := by
  obtain ⟨cache, rfl⟩ := h
  obtain ⟨cache', rfl⟩ := h'
  exact ⟨cache', by rw [← bound_append]; rfl⟩

theorem Gains.count (h : d.Gains bs d') :
    d'.parameters.length = d.parameters.length + bs.length := by
  obtain ⟨_, rfl⟩ := h
  simp [bound]

theorem Gains.dialect (h : d.Gains bs d') : d'.dialect = d.dialect := by
  obtain ⟨_, rfl⟩ := h
  rfl

theorem Gains.sql (h : d.Gains bs d') : d'.sql = d.sql := by
  obtain ⟨_, rfl⟩ := h
  rfl

theorem Gains.parameters (h : d.Gains bs d') : d'.parameters = (d.bound bs).parameters := by
  obtain ⟨_, rfl⟩ := h
  rfl

theorem Gains.bindings (h : d.Gains bs d') :
    d'.parameters.map Parameter.binding = d.parameters.map Parameter.binding ++ bs := by
  obtain ⟨_, rfl⟩ := h
  apply List.ext_getElem
  · simp [bound]
  · intro i _ _
    simp only [bound, List.getElem_map, List.getElem_append, List.getElem_mapIdx, List.length_map]
    split <;> rfl

theorem reaches_refl (d : Draft) : d.Reaches d := ⟨[], d.gains_nil⟩

theorem Reaches.gains (h : d.Reaches d₁) (later : d₁.Gains bs d') : d.Reaches d' := by
  obtain ⟨_, gained⟩ := h
  exact ⟨_, gained.trans later⟩

theorem Reaches.sameGround (h : d.Reaches d') : d.SameGround d' := by
  obtain ⟨_, _, rfl⟩ := h
  exact ⟨rfl, rfl, rfl, rfl, rfl⟩

theorem Reaches.dialect (h : d.Reaches d') : d'.dialect = d.dialect := by
  obtain ⟨_, gained⟩ := h
  exact gained.dialect

end Draft

section Turns

variable {ι α : Type} {shows : ι → Nat → α → List Binding → Prop} {is : List ι} {as : List α}
  {n : Nat} {bs : List Binding} {ground d d' : Draft}

/-- Each item shows its own result and binds its values, behind the items before it. -/
inductive InTurn (shows : ι → Nat → α → List Binding → Prop) :
    List ι → Nat → List α → List Binding → Prop where
  | nil {n : Nat} : InTurn shows [] n [] []
  | cons {i : ι} {is : List ι} {n : Nat} {a : α} {as : List α} {bs cs : List Binding}
      (first : shows i n a bs) (rest : InTurn shows is (n + bs.length) as cs) :
      InTurn shows (i :: is) n (a :: as) (bs ++ cs)

theorem InTurn.append {js : List ι} {as' : List α} {cs : List Binding}
    (h : InTurn shows is n as bs) (h' : InTurn shows js (n + bs.length) as' cs) :
    InTurn shows (is ++ js) n (as ++ as') (bs ++ cs) := by
  induction h with
  | nil => simpa using h'
  | cons first rest ih =>
    rw [List.append_assoc]
    refine .cons first (ih ?_)
    rwa [List.length_append, ← Nat.add_assoc] at h'

/-- Where each item binds one value and does nothing else, its number tells its result. -/
theorem Build.mapM_binds {f : ι → Build α} (text : ι → Nat → α) {value : ι → Binding}
    (each : ∀ i ⦃d a d'⦄, Gives (f i) d a d' →
      a = text i (d.parameters.length + 1) ∧ d' = d.bound [value i]) :
    ∀ {is : List ι} {d d' : Draft} {as : List α}, Gives (is.mapM f) d as d' →
      as = is.mapIdx (fun k i => text i (d.parameters.length + k + 1)) ∧ d' = d.bound (is.map value)
  | [], d, d', as, given => by
    obtain ⟨rfl, rfl⟩ := gives_pure.1 given
    exact ⟨rfl, d'.bound_nil.symm⟩
  | i :: is, d, d', as, given => by
    rw [List.mapM_cons] at given
    obtain ⟨a, d₁, first, given⟩ := gives_bind.1 given
    obtain ⟨rest, d₂, later, given⟩ := gives_bind.1 given
    obtain ⟨rfl, rfl⟩ := gives_pure.1 given
    obtain ⟨rfl, rfl⟩ := each i first
    obtain ⟨rfl, rfl⟩ := mapM_binds text each later
    have next (k : Nat) : d.parameters.length + 1 + k = d.parameters.length + (k + 1) := by omega
    refine ⟨?_, d.bound_append [value i] _⟩
    simp [List.mapIdx_cons, (d.gains_bound [value i]).count, next]

theorem InTurn.exists_shown (h : InTurn shows is n as bs) {i : ι} (mem : i ∈ is) :
    ∃ m a cs, a ∈ as ∧ shows i m a cs := by
  induction h with
  | nil => cases mem
  | cons first _ ih =>
    rcases List.mem_cons.1 mem with rfl | later
    · exact ⟨_, _, _, List.mem_cons_self, first⟩
    · obtain ⟨m, a, cs, listed, shown⟩ := ih later
      exact ⟨m, a, cs, List.mem_cons_of_mem _ listed, shown⟩

theorem InTurn.exists_item (h : InTurn shows is n as bs) {a : α} (mem : a ∈ as) :
    ∃ i m cs, i ∈ is ∧ shows i m a cs := by
  induction h with
  | nil => cases mem
  | cons first _ ih =>
    rcases List.mem_cons.1 mem with rfl | later
    · exact ⟨_, _, _, List.mem_cons_self, first⟩
    · obtain ⟨i, m, cs, listed, shown⟩ := ih later
      exact ⟨i, m, cs, List.mem_cons_of_mem _ listed, shown⟩

theorem Build.mapM_inTurn {f : ι → Build α} :
    ∀ {is : List ι} {d d' : Draft} {as : List α},
      (∀ i ∈ is, ∀ ⦃d a d'⦄, ground.Reaches d → Gives (f i) d a d' →
        ∃ bs, shows i d.parameters.length a bs ∧ d.Gains bs d') →
      ground.Reaches d → Gives (is.mapM f) d as d' →
      ∃ bs, InTurn shows is d.parameters.length as bs ∧ d.Gains bs d'
  | [], d, d', as, _, _, given => by
    obtain ⟨rfl, rfl⟩ := gives_pure.1 given
    exact ⟨[], .nil, Draft.gains_nil _⟩
  | i :: is, d, d', as, each, reached, given => by
    rw [List.mapM_cons] at given
    obtain ⟨a, d₁, first, given⟩ := gives_bind.1 given
    obtain ⟨rest, d₂, later, given⟩ := gives_bind.1 given
    obtain ⟨rfl, rfl⟩ := gives_pure.1 given
    obtain ⟨bs, shown, gained⟩ := each i List.mem_cons_self reached first
    obtain ⟨cs, shownRest, gainedRest⟩ := mapM_inTurn
      (fun j mem => each j (List.mem_cons_of_mem i mem)) (reached.gains gained) later
    rw [gained.count] at shownRest
    exact ⟨bs ++ cs, .cons shown shownRest, gained.trans gainedRest⟩

end Turns

variable {compile : Query → Build Command} {ground d d' : Draft} {sql : Sql}

theorem Build.addParameter_binds {value : SqlValue} {type : Option ColumnType}
    {size : Option UInt32} {number : Nat}
    (given : Gives (addParameter value type size) d number d') :
    number = d.parameters.length + 1 ∧ d' = d.bound [⟨value, type, size⟩] := by
  rw [addParameter, gives_get_bind] at given
  dsimp only at given
  split at given
  · exact (keeps_throw_bind (r := fun _ _ => False) _ _ given).elim
  · obtain ⟨_, d₁, changed, given⟩ := gives_bind.1 given
    obtain rfl := gives_set.1 changed
    obtain ⟨rfl, rfl⟩ := gives_pure.1 given
    exact ⟨rfl, rfl⟩

theorem Build.bindValue_binds {column : Option ColumnRef} {value : SqlValue}
    (given : Gives (bindValue column value) d sql d') :
    sql = [.place (d.parameters.length + 1)] ∧ d' = d.bound [.ofColumn column value] := by
  obtain ⟨number, d₁, added, given⟩ := gives_bind.1 given
  obtain ⟨rfl, rfl⟩ := gives_pure.1 given
  obtain ⟨rfl, rfl⟩ := addParameter_binds added
  exact ⟨rfl, rfl⟩

namespace Function

def text (f : Function) (dialect : Dialect) (inner : Sql) (n : Nat) : Sql :=
  let opening := dialect.opening f.kind
  let params := f.params.mapIdx fun i _ => ofString f.kind.separator ++ [.place (n + i + 1)]
  ofString opening ++ inner ++ params.flatten ++ f.wholeLength dialect inner ++
    List.replicate (openParentheses opening) (.char ')')

def bindings (f : Function) : List Binding := f.params.map (.ofColumn none)

theorem apply_binds {f : Function} {inner : Sql} (given : Gives (f.apply inner) d sql d') :
    sql = f.text d.dialect inner d.parameters.length ∧ d.Gains f.bindings d' := by
  rw [apply, gives_get_bind] at given
  obtain ⟨params, d₁, added, given⟩ := gives_bind.1 given
  obtain ⟨rfl, rfl⟩ := gives_pure.1 given
  have each (value : SqlValue) ⦃d₀ : Draft⦄ ⦃sql : Sql⦄ ⦃d₁ : Draft⦄
      (given : Gives (do return ofString f.kind.separator ++ (← bindValue none value)) d₀ sql d₁) :
      sql = ofString f.kind.separator ++ [.place (d₀.parameters.length + 1)] ∧
        d₁ = d₀.bound [.ofColumn none value] := by
    obtain ⟨place, d₂, placed, given⟩ := gives_bind.1 given
    obtain ⟨rfl, rfl⟩ := gives_pure.1 given
    obtain ⟨rfl, rfl⟩ := bindValue_binds placed
    exact ⟨rfl, rfl⟩
  obtain ⟨rfl, rfl⟩ :=
    mapM_binds (fun _ number => ofString f.kind.separator ++ [.place number]) each added
  exact ⟨rfl, d.gains_bound _⟩

end Function

namespace Expression

def wrapped (dialect : Dialect) : List Function → Sql → Nat → Sql
  | [], inner, _ => inner
  | f :: fs, inner, n => wrapped dialect fs (f.text dialect inner n) (n + f.params.length)

def baseText (x : Expression) : Sql :=
  if x.isWildcard then ofString wildcardName else ofString ((x.column.map (·.sql)).getD "")

def referenceText (x : Expression) (dialect : Dialect) (n : Nat) : Sql :=
  wrapped dialect x.functions x.baseText n

/-- The values of the functions, in the order in which these are applied. -/
def functionBindings (x : Expression) : List Binding := x.functions.flatMap (·.bindings)

variable {x : Expression}

theorem base_binds (given : Gives x.base d sql d') :
    x.isEmpty = false ∧ sql = x.baseText ∧ d' = d := by
  unfold base at given
  unfold baseText
  split at given
  · next wildcard =>
    obtain ⟨rfl, rfl⟩ := gives_pure.1 given
    simp [isEmpty, wildcard]
  · next named =>
    rw [if_neg named]
    cases column : x.column with
    | none =>
      rw [column] at given
      exact (gives_throw.1 given).elim
    | some c =>
      rw [column] at given
      obtain ⟨rfl, rfl⟩ := gives_pure.1 given
      simp [isEmpty, column]

theorem functions_bind : ∀ {fs : List Function} {inner : Sql} {d : Draft},
    Gives (fs.foldlM (fun inner f => f.apply inner) inner) d sql d' →
    sql = wrapped d.dialect fs inner d.parameters.length ∧ d.Gains (fs.flatMap (·.bindings)) d'
  | [], inner, d, given => by
    obtain ⟨rfl, rfl⟩ := gives_pure.1 given
    exact ⟨rfl, Draft.gains_nil _⟩
  | f :: fs, inner, d, given => by
    rw [List.foldlM_cons] at given
    obtain ⟨applied, d₁, first, given⟩ := gives_bind.1 given
    obtain ⟨rfl, gained⟩ := Function.apply_binds first
    obtain ⟨rfl, gainedRest⟩ := functions_bind given
    have count : d₁.parameters.length = d.parameters.length + f.params.length := by
      rw [gained.count, Function.bindings, List.length_map]
    rw [count, gained.dialect]
    exact ⟨rfl, gained.trans gainedRest⟩

theorem reference_binds (given : Gives x.reference d sql d') :
    x.isEmpty = false ∧ sql = x.referenceText d.dialect d.parameters.length ∧
      d.Gains x.functionBindings d' := by
  obtain ⟨inner, d₁, based, applied⟩ := gives_bind.1 given
  obtain ⟨some, rfl, rfl⟩ := base_binds based
  exact ⟨some, functions_bind applied⟩

end Expression

def Command.inlined (c : Command) (n : Nat) : Sql :=
  ofFinished (c.parameters.mapIdx fun i p => (p.name, n + i + 1)) c.sql

def SubQuery.Finishes (compile : Query → Build Command) (ground : Draft) (q : SubQuery)
    (c : Command) : Prop :=
  ∃ d d', ground.Reaches d ∧ Gives (q.finish compile) d c d'

theorem Command.inline_binds {c : Command} (given : Gives c.inline d sql d') :
    c.kind = .select ∧ sql = c.inlined d.parameters.length ∧
      d.Gains (c.parameters.map Parameter.binding) d' := by
  unfold inline at given
  split at given
  · exact (keeps_throw_bind (r := fun _ _ => False) _ _ given).elim
  · next isSelect =>
    obtain ⟨renames, d₁, added, given⟩ := gives_bind.1 given
    obtain ⟨rfl, rfl⟩ := gives_pure.1 given
    have each (p : Parameter) ⦃d₀ : Draft⦄ ⦃rename : String × Nat⦄ ⦃d₁ : Draft⦄
        (given : Gives (do return (p.name, ← addParameter p.value p.type p.size)) d₀ rename d₁) :
        rename = (p.name, d₀.parameters.length + 1) ∧ d₁ = d₀.bound [p.binding] := by
      obtain ⟨number, d₂, numbered, given⟩ := gives_bind.1 given
      obtain ⟨rfl, rfl⟩ := gives_pure.1 given
      obtain ⟨rfl, rfl⟩ := addParameter_binds numbered
      exact ⟨rfl, rfl⟩
    obtain ⟨rfl, rfl⟩ := mapM_binds (fun p number => (p.name, number)) each added
    exact ⟨by simpa using isSelect, rfl, d.gains_bound _⟩

theorem SubQuery.finish_binds {q : SubQuery} {c : Command}
    (given : Gives (q.finish compile) d c d') : d.Gains [] d' := by
  cases q with
  | command finished =>
    obtain ⟨rfl, rfl⟩ := gives_pure.1 given
    exact Draft.gains_nil _
  | deferred query =>
    obtain ⟨child, _, rfl⟩ := gives_inChild.1 given
    exact ⟨child.cache, by rw [Draft.bound_nil]⟩

theorem SubQuery.inline_binds {q : SubQuery} (reached : ground.Reaches d)
    (given : Gives (q.inline compile) d sql d') :
    ∃ c, q.Finishes compile ground c ∧ c.kind = .select ∧ sql = c.inlined d.parameters.length ∧
      d.Gains (c.parameters.map Parameter.binding) d' := by
  obtain ⟨c, d₁, finished, given⟩ := gives_bind.1 given
  have kept := finish_binds finished
  obtain ⟨isSelect, rfl, gained⟩ := c.inline_binds given
  refine ⟨c, ⟨d, d₁, reached, finished⟩, isSelect, ?_, kept.trans gained⟩
  rw [kept.count]
  rfl

/-- What an entry of a list shows: the place of its value, or the statement of its sub-query, in
parentheses unless it stands alone. -/
inductive Operand.Shows (compile : Query → Build Command) (ground : Draft)
    (column : Option ColumnRef) (alone : Bool) :
    Operand → Nat → Sql → List Binding → Prop where
  | value (v : SqlValue) (n : Nat) :
      Shows compile ground column alone (.value v) n [.place (n + 1)] [.ofColumn column v]
  | subQuery {q : SubQuery} {c : Command} (finished : q.Finishes compile ground c)
      (isSelect : c.kind = .select) (n : Nat) :
      Shows compile ground column alone (.subQuery q) n
        (if alone then c.inlined n else (c.inlined n).parenthesize)
        (c.parameters.map Parameter.binding)

inductive Argument.Shows (compile : Query → Build Command) (ground : Draft)
    (column : Option ColumnRef) (operator : Operator) :
    Argument → Nat → Sql → List Binding → Prop where
  | value (v : SqlValue) (n : Nat) (one : ¬ (operator.isRange ∨ operator.isMembership)) :
      Shows compile ground column operator (.value v) n [.place (n + 1)] [.ofColumn column v]
  | range (low high : SqlValue) (n : Nat) (isRange : operator.isRange) :
      Shows compile ground column operator (.range low high) n
        ([.place (n + 1)] ++ ofString " AND " ++ [.place (n + 2)])
        [.ofColumn column low, .ofColumn column high]
  | list {operands : List Operand} {n : Nat} {items : List Sql} {bs : List Binding}
      (isMembership : operator.isMembership) (some : operands ≠ [])
      (shown : InTurn (Operand.Shows compile ground column (operands.length == 1)) operands n
        items bs) :
      Shows compile ground column operator (.list operands) n (join ", " items).parenthesize bs
  | property {other : Expression} (some : other.isEmpty = false) (n : Nat) :
      Shows compile ground column operator (.property other) n
        (other.referenceText ground.dialect n) other.functionBindings

namespace Expression

variable {x : Expression}

theorem operand_binds {alone : Bool} {o : Operand} (reached : ground.Reaches d)
    (given : Gives (x.operand compile alone o) d sql d') :
    ∃ bs, o.Shows compile ground x.typed alone d.parameters.length sql bs ∧ d.Gains bs d' := by
  cases o with
  | value v =>
    obtain ⟨rfl, rfl⟩ := bindValue_binds given
    exact ⟨_, .value v _, d.gains_bound _⟩
  | subQuery q =>
    obtain ⟨inner, d₁, inlined, given⟩ := gives_bind.1 given
    obtain ⟨rfl, rfl⟩ := gives_pure.1 given
    obtain ⟨c, finished, isSelect, rfl, gained⟩ := SubQuery.inline_binds reached inlined
    exact ⟨_, .subQuery finished isSelect _, gained⟩

theorem rightSide_binds {operator : Operator} (reached : ground.Reaches d)
    (given : Gives (x.rightSide compile operator) d sql d') :
    ∃ a bs, x.argument = some a ∧
      a.Shows compile ground x.typed operator d.parameters.length sql bs ∧ d.Gains bs d' := by
  unfold rightSide at given
  cases argument : x.argument with
  | none =>
    rw [argument] at given
    exact (gives_throw.1 given).elim
  | some a =>
    rw [argument] at given
    refine ⟨a, ?_⟩
    cases a with
    | property other =>
      obtain ⟨some, rfl, gained⟩ := reference_binds given
      rw [reached.dialect]
      exact ⟨_, rfl, .property some _, gained⟩
    | range low high =>
      dsimp only at given
      split at given
      · next isRange =>
        obtain ⟨first, d₁, bound, given⟩ := gives_bind.1 given
        obtain ⟨rfl, rfl⟩ := bindValue_binds bound
        obtain ⟨second, d₂, bound, given⟩ := gives_bind.1 given
        obtain ⟨rfl, rfl⟩ := bindValue_binds bound
        obtain ⟨rfl, rfl⟩ := gives_pure.1 given
        have gained := d.gains_bound [.ofColumn x.typed low]
        rw [gained.count]
        exact ⟨_, rfl, .range low high _ isRange, gained.trans (Draft.gains_bound _ _)⟩
      · exact (gives_throw.1 given).elim
    | list operands =>
      dsimp only at given
      split at given
      · next membership =>
        obtain ⟨items, d₁, bound, given⟩ := gives_bind.1 given
        obtain ⟨rfl, rfl⟩ := gives_pure.1 given
        obtain ⟨bs, shown, gained⟩ :=
          mapM_inTurn (fun _ _ _ _ _ => x.operand_binds) reached bound
        exact ⟨bs, rfl, .list membership.1 membership.2 shown, gained⟩
      · exact (gives_throw.1 given).elim
    | value v =>
      dsimp only at given
      split at given
      · exact (gives_throw.1 given).elim
      · next one =>
        obtain ⟨rfl, rfl⟩ := bindValue_binds given
        exact ⟨_, rfl, .value v _ one, d.gains_bound _⟩

end Expression

end DmlCompiler
