import DmlCompiler.Compiler
import DmlCompiler.Proofs.Coupling.Commands
import DmlCompiler.Proofs.Histories
import DmlCompiler.Proofs.Placeholders

/-! # Commands for the PostgreSQL provider

The parameters of a draft are named for its dialect and numbered from one, whatever was inlined into
it. So the names tell the provider for PostgreSQL which commands are written for it. -/
namespace DmlCompiler

open Build

namespace Draft

/-- The parameters have the names that the dialect gives to the first numbers. -/
structure Counts (dialect : Dialect) (registry : Registry) (d : Draft) : Prop where
  isFor : d.IsFor dialect registry
  names : d.parameters.map (·.name) =
    (List.range' 1 d.parameters.length).map dialect.parameterName

/-- A parameter is named for its place, not for where its value comes from. -/
theorem counts_lasting (dialect : Dialect) (registry : Registry) :
    Lasting registry (·.Counts dialect registry) where
  registry hd := hd.isFor.registry
  congr hd same := ⟨⟨same.dialect.trans hd.isFor.dialect, same.registry.trans hd.isFor.registry⟩,
    by rw [same.parameters]; exact hd.names⟩
  addParameter := by
    rintro value type size d ⟨⟨rfl, rfl⟩, names⟩
    rcases addParameter_run d value type size with ⟨_, limit, failed⟩ | given
    · rw [failed]
      exact ⟨⟨rfl, rfl⟩, names⟩
    · rw [given]
      refine ⟨⟨rfl, rfl⟩, ?_⟩
      have next : 1 + 1 * d.parameters.length = d.parameters.length + 1 := by omega
      simp only [holding, List.map_append, List.map_cons, List.map_nil, List.length_append,
        List.length_singleton, names, List.range'_concat, next]
  fetched _ hd := ⟨⟨hd.isFor.dialect, hd.isFor.registry⟩, hd.names⟩
  child hd := ⟨⟨hd.isFor.dialect, hd.isFor.registry⟩, rfl⟩
  returned hd _ := ⟨⟨hd.isFor.dialect, hd.isFor.registry⟩, hd.names⟩

theorem Counts.names_of_finished {dialect : Dialect} {registry : Registry} {d : Draft}
    {c : Command} (h : d.Counts dialect registry) (finished : d.finished = .ok c) :
    c.parameters.map (·.name) =
      (List.range' 1 c.parameters.length).map dialect.parameterName := by
  rw [finished_parameters finished]
  exact h.names

end Draft

namespace Postgres

def Positional (name : String) : Prop :=
  ∃ digits, name.toList = '$' :: digits ∧ digits ≠ [] ∧ ∀ c ∈ digits, '0' ≤ c ∧ c ≤ '9'

theorem isPositional_iff {name : String} : isPositional name = true ↔ Positional name := by
  unfold isPositional Positional
  split
  · next digits eq => simp [eq, Text.isDigit]
  · next other =>
    constructor
    · intro found
      cases found
    · rintro ⟨digits, eq, _⟩
      exact (other digits eq).elim

/-- Only PostgreSQL has names that are its own. -/
theorem positional_parameterName {dialect : Dialect} {number : Nat} :
    Positional (dialect.parameterName number) ↔ dialect = .postgres := by
  unfold Positional
  rw [Dialect.parameterName_toList]
  constructor
  · rintro ⟨digits, eq, _⟩
    cases dialect with
    | postgres => rfl
    | _ => simp [Dialect.marker] at eq
  · rintro rfl
    refine ⟨Dialect.digits number, rfl, ?_, fun c hc => ?_⟩
    · exact Nat.toDigits_ne_nil
    · have digit : Text.isDigit c = true := Nat.isDigit_of_mem_toDigits (by decide) (by decide) hc
      simpa [Text.isDigit] using digit

/-- The first name that is not positional is the one that is refused. -/
theorem checkCommand_error {c : Command} {e : CompilerError} :
    checkCommand c = .error e ↔ ∃ before p after, c.parameters = before ++ p :: after ∧
      (∀ q ∈ before, Positional q.name) ∧ ¬ Positional p.name ∧
      e = .dialectMismatch .postgres p.name := by
  have found (p : Parameter) :
      (c.parameters.find? fun p => !isPositional p.name) = some p ↔
        ¬ Positional p.name ∧ ∃ before after, c.parameters = before ++ p :: after ∧
          ∀ q ∈ before, Positional q.name := by
    simp only [List.find?_eq_some_iff_append, ← isPositional_iff, Bool.not_eq_true',
      Bool.not_eq_true, Bool.not_not]
  unfold checkCommand
  constructor
  · intro refused
    split at refused
    · next p first =>
      obtain ⟨foreign, before, after, eq, own⟩ := (found p).1 first
      cases refused
      exact ⟨before, p, after, eq, own, foreign, rfl⟩
    · cases refused
  · rintro ⟨before, p, after, eq, own, foreign, rfl⟩
    rw [(found p).2 ⟨foreign, before, after, eq, own⟩]

theorem checkCommand_ok {c : Command} :
    checkCommand c = .ok () ↔ ∀ p ∈ c.parameters, Positional p.name := by
  have none : (c.parameters.find? fun p => !isPositional p.name) = none ↔
      ∀ p ∈ c.parameters, Positional p.name := by
    simp [List.find?_eq_none, isPositional_iff]
  rw [← none, checkCommand]
  split
  · next p first => simp [first]
  · next first => simp [first]

/-- A command whose parameters are numbered is taken if it is for PostgreSQL, or has none. -/
theorem checkCommand_numbered {dialect : Dialect} {c : Command}
    (names : c.parameters.map (·.name) =
      (List.range' 1 c.parameters.length).map dialect.parameterName) :
    checkCommand c = .ok () ↔ dialect = .postgres ∨ c.parameters = [] := by
  have named : (∀ p ∈ c.parameters, Positional p.name) ↔
      ∀ name ∈ c.parameters.map (·.name), Positional name := by simp
  rw [checkCommand_ok, named, names]
  simp only [List.forall_mem_map, positional_parameterName]
  constructor
  · intro all
    cases eq : c.parameters with
    | nil => exact .inr rfl
    | cons p ps => exact .inl (all 1 (by simp [eq, List.mem_range'_1]))
  · rintro (own | none)
    · exact fun _ _ => own
    · simp [none]

end Postgres

open Postgres

/-- Of the commands that a history of calls, replays and looks at the command leads to, the provider
for PostgreSQL takes those that are for PostgreSQL and those without parameters. Of all commands it
takes those with positional names only, and refuses another one by its first name that is none. -/
theorem postgres_admits_positional (dialect : Dialect) (registry : Registry) (options : Options)
    (kept : SelectCache) (history : List Operation) :
    (∀ c, ((Draft.new dialect registry options kept).perform history).2.toCommand.1 = .ok c →
      (checkCommand c = .ok () ↔ dialect = .postgres ∨ c.parameters = [])) ∧
    ∀ c, (checkCommand c = .ok () ↔ ∀ p ∈ c.parameters, Positional p.name) ∧
      ∀ e, checkCommand c = .error e ↔ ∃ before p after,
        c.parameters = before ++ p :: after ∧ (∀ q ∈ before, Positional q.name) ∧
        ¬ Positional p.name ∧ e = .dialectMismatch .postgres p.name := by
  refine ⟨fun c given => ?_, fun c => ⟨checkCommand_ok, fun e => checkCommand_error⟩⟩
  have fresh : (Draft.new dialect registry options kept).Counts dialect registry :=
    ⟨⟨rfl, rfl⟩, rfl⟩
  have counts := Draft.perform_stays (Draft.counts_lasting dialect registry) history fresh
  exact checkCommand_numbered (counts.names_of_finished (Draft.toCommand_ok given).2)

/-- The large orders of a standard command are taken as part of a command for PostgreSQL, and
refused on their own. -/
theorem postgres_admits_positional_orders :
    checkCommand someOrders = .ok () ∧
      checkCommand largeOrders = .error (.dialectMismatch .postgres "@p1") := by
  let amounts : List Operand :=
    [.value (.integer 5), .subQuery (.command largeOrders), .value .null]
  have built : ((Draft.new .postgres (.new true) {} []).perform
      ((ordersWhere .isIn (.list amounts)).map .call)).2.toCommand.1 = .ok someOrders := by
    decide +kernel
  have admitted := postgres_admits_positional .postgres (.new true) {} []
    ((ordersWhere .isIn (.list amounts)).map .call)
  have foreign : ¬ Positional "@p1" := by
    rintro ⟨_, eq, _⟩
    cases eq
  refine ⟨(admitted.1 _ built).2 (.inl rfl), ((admitted.2 _).2 _).2 ?_⟩
  exact ⟨[], _, [], rfl, List.forall_mem_nil _, foreign, rfl⟩

end DmlCompiler
