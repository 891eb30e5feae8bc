import DmlCompiler.Proofs.Build.Couples
import DmlCompiler.Proofs.SubQueries

/-! # Expressions side by side

Expressions are rendered alike on coupled drafts if parameters are added alike and the sub-queries
in them are inlined alike. -/
namespace DmlCompiler

open Build

namespace Coupling

variable (C : Coupling)

def Adds : Prop := ∀ value type size,
  Couples C C.number (addParameter value type size) (addParameter value type size)

def Inlines (compile compile' : Query → Build Command) (q : SubQuery) : Prop :=
  Couples C C.fragment (q.inline compile) (q.inline compile')

variable {C} {a b : Sql} {as bs : List Sql}

theorem fragment_nil : C.fragment [] [] := C.text ""

theorem fragment_flatten (h : List.Forall₂ C.fragment as bs) : C.fragment as.flatten bs.flatten := by
  induction h with
  | nil => exact fragment_nil
  | cons first _ ih =>
    rw [List.flatten_cons, List.flatten_cons]
    exact C.append first ih

theorem fragment_join (separator : String) (h : List.Forall₂ C.fragment as bs) :
    C.fragment (Sql.join separator as) (Sql.join separator bs) := by
  unfold Sql.join
  induction h with
  | nil => exact fragment_nil
  | cons first rest ih =>
    cases rest with
    | nil =>
      rw [List.intercalate_singleton, List.intercalate_singleton]
      exact first
    | cons second rest =>
      rw [List.intercalate_cons_cons, List.intercalate_cons_cons]
      exact C.append (C.append first (C.text separator)) ih

theorem fragment_parenthesize (h : C.fragment a b) : C.fragment a.parenthesize b.parenthesize :=
  C.append (C.append (C.text "(") h) (C.text ")")

theorem couples_fragments {ι : Type} {f g : ι → Build Sql} {is : List ι}
    (h : ∀ i ∈ is, Couples C C.fragment (f i) (g i)) :
    Couples C (List.Forall₂ C.fragment) (is.mapM f) (is.mapM g) :=
  couples_mapM h

end Coupling

variable {C : Coupling} {compile compile' : Query → Build Command}

section Rendering

variable (adds : C.Adds)
include adds

theorem Build.bindValue_couples (column : Option ColumnRef) (value : SqlValue) :
    Couples C C.fragment (bindValue column value) (bindValue column value) :=
  (adds value _ _).bind fun _ _ number => couples_pure (C.place number)

theorem Function.apply_couples (f : Function) {a b : Sql} (h : C.fragment a b) :
    Couples C C.fragment (f.apply a) (f.apply b) := by
  refine couples_get.bind fun d e beside => ?_
  refine (Coupling.couples_fragments fun value _ => ?_).bind fun ps qs rendered => ?_
  · refine (bindValue_couples adds none value).bind fun p q bound => ?_
    exact couples_pure (C.append (C.text _) bound)
  · exact couples_pure (C.around f beside.held h (Coupling.fragment_flatten rendered))

namespace Expression

theorem reference_couples (x : Expression) : Couples C C.fragment x.reference x.reference := by
  have base : Couples C C.fragment x.base x.base := by
    refine .ite Iff.rfl (fun _ => couples_pure (C.text _)) fun _ => ?_
    cases x.column with
    | none => exact couples_throw _
    | some column => exact couples_pure (C.text _)
  exact base.bind fun a b h => couples_foldlM (fun a b f h => f.apply_couples adds h) x.functions h

theorem operand_couples (x : Expression) (alone : Bool) (o : Operand)
    (inner : ∀ q, o = .subQuery q → C.Inlines compile compile' q) :
    Couples C C.fragment (x.operand compile alone o) (x.operand compile' alone o) := by
  cases o with
  | value v => exact bindValue_couples adds x.typed v
  | subQuery q =>
    refine (inner q rfl).bind fun a b h => ?_
    cases alone with
    | true => exact couples_pure h
    | false => exact couples_pure (Coupling.fragment_parenthesize h)

theorem rightSide_couples (x : Expression) (operator : Operator)
    (inner : ∀ q ∈ x.subQueries, C.Inlines compile compile' q) :
    Couples C C.fragment (x.rightSide compile operator) (x.rightSide compile' operator) := by
  unfold rightSide
  cases eq : x.argument with
  | none => exact couples_throw _
  | some argument =>
    cases argument with
    | property other => exact reference_couples adds other
    | range low high =>
      refine .ite Iff.rfl (fun _ => ?_) fun _ => couples_throw _
      refine (bindValue_couples adds x.typed low).bind fun a b first => ?_
      refine (bindValue_couples adds x.typed high).bind fun a' b' second => ?_
      exact couples_pure (C.append (C.append first (C.text _)) second)
    | list operands =>
      refine .ite Iff.rfl (fun _ => ?_) fun _ => couples_throw _
      refine (Coupling.couples_fragments fun o mem => ?_).bind fun as bs rendered => ?_
      · exact operand_couples adds x _ o fun q same =>
          inner q (operand_subQueries eq (same ▸ mem))
      · exact couples_pure (Coupling.fragment_parenthesize (Coupling.fragment_join ", " rendered))
    | value v =>
      exact .ite Iff.rfl (fun _ => couples_throw _) fun _ => bindValue_couples adds x.typed v

theorem condition_couples (x : Expression)
    (inner : ∀ q ∈ x.subQueries, C.Inlines compile compile' q) :
    Couples C C.fragment (x.condition compile) (x.condition compile') := by
  refine .ite Iff.rfl (fun _ => couples_pure Coupling.fragment_nil) fun _ => ?_
  refine (reference_couples adds x).bind fun a b left => ?_
  cases x.operator with
  | none => exact couples_pure left
  | some operator =>
    have head := C.append left (C.text s!" {operator.sql}")
    refine .ite Iff.rfl (fun _ => couples_pure head) fun _ => ?_
    refine (rightSide_couples adds x operator inner).bind fun a b right => ?_
    exact couples_pure (C.append (C.append head (C.text " ")) right)

end Expression

end Rendering

namespace Coupling

variable {a b a' b' : Sql}

theorem fragment_grouped (x : Expression) (h : C.fragment a b) :
    C.fragment (x.grouped a) (x.grouped b) := by
  unfold Expression.grouped
  rw [C.isEmpty h]
  split
  · exact h
  · exact fragment_parenthesize h

theorem fragment_joined (x : Expression) (before : C.fragment a b) (h : C.fragment a' b') :
    C.fragment (x.joined a a') (x.joined b b') := by
  unfold Expression.joined
  rw [C.isEmpty h, C.isEmpty before]
  split
  · exact before
  · split
    · exact h
    · exact C.append (C.append before (C.text _)) h

end Coupling

namespace Expression

mutual

theorem predicate_couples (adds : C.Adds) : ∀ x : Expression,
    (∀ q ∈ x.subQueries, C.Inlines compile compile' q) →
      Couples C C.fragment (x.predicate compile) (x.predicate compile')
  | ⟨entity, property, column, operator, argument, functions, label, connective, negated, sort,
      children⟩, inner => by
    rw [predicate_eq, predicate_eq]
    refine (condition_couples adds _ inner).bind fun a b condition => ?_
    refine (appendChildren_couples adds children ?_ condition).bind fun a b h => ?_
    · intro y hy q hq
      exact inner q (children_subQueries hy hq)
    · dsimp only
      rw [C.isEmpty h]
      split
      · exact couples_pure (C.append (C.text "NOT ") (Coupling.fragment_parenthesize h))
      · exact couples_pure h

theorem appendChildren_couples (adds : C.Adds) : ∀ children : List Expression,
    (∀ y ∈ children, ∀ q ∈ y.subQueries, C.Inlines compile compile' q) →
      ∀ {a b : Sql}, C.fragment a b →
        Couples C C.fragment (appendChildren compile a children) (appendChildren compile' b children)
  | [], _, a, b, before => by
    rw [appendChildren, appendChildren]
    exact couples_pure before
  | child :: rest, inner, a, b, before => by
    rw [appendChildren, appendChildren]
    refine (predicate_couples adds child (inner child List.mem_cons_self)).bind fun _ _ h => ?_
    exact appendChildren_couples adds rest (fun y hy => inner y (List.mem_cons_of_mem child hy))
      (Coupling.fragment_joined child before (Coupling.fragment_grouped child h))

end

theorem checkPermission_couples (x : Expression) (kind : StatementKind) :
    InStep C (x.checkPermission kind) (x.checkPermission kind) := by
  unfold checkPermission
  cases x.column with
  | none => exact couples_pure trivial
  | some column => exact .ite Iff.rfl (fun _ => couples_pure trivial) fun _ => couples_throw _

theorem projection_couples (adds : C.Adds) (x : Expression)
    (inner : ∀ q ∈ x.subQueries, C.Inlines compile compile' q) :
    Couples C C.fragment (x.projection compile) (x.projection compile') := by
  refine (checkPermission_couples x .select).then ?_
  refine (condition_couples adds x inner).bind fun a b h => ?_
  cases x.label with
  | none => exact couples_pure h
  | some label =>
    cases eq : Identifier.checkShape label with
    | ok u =>
      simp only [eq]
      exact couples_pure (C.append h (C.text _))
    | error cause =>
      simp only [eq]
      exact couples_throw _

end Expression
end DmlCompiler
