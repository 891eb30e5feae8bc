import DmlCompiler.Proofs.Coupling.Expressions

/-! # Commands side by side

An inlined command adds its parameters under the next numbers and is renamed accordingly. Commands
with the same parameter values are inlined alike if their renamed texts are. -/
namespace DmlCompiler

open Build Sql

def Draft.holding (d : Draft) (parameters : List Parameter) : Draft :=
  { d with parameters := parameters }

def renumbered (dialect : Dialect) : Nat → List Parameter → List Parameter
  | _, [] => []
  | k, p :: ps => { p with name := dialect.parameterName (k + 1) } :: renumbered dialect (k + 1) ps

section Renumbering

variable {dialect : Dialect}

theorem length_renumbered (k : Nat) (ps : List Parameter) :
    (renumbered dialect k ps).length = ps.length := by
  induction ps generalizing k with
  | nil => rfl
  | cons p ps ih => rw [renumbered, List.length_cons, List.length_cons, ih]

theorem renumbered_append (k : Nat) (ps qs : List Parameter) :
    renumbered dialect k (ps ++ qs) =
      renumbered dialect k ps ++ renumbered dialect (k + ps.length) qs := by
  induction ps generalizing k with
  | nil => rfl
  | cons p ps ih =>
    have next : k + (p :: ps).length = k + 1 + ps.length := by
      rw [List.length_cons]
      omega
    rw [List.cons_append, renumbered, renumbered, ih, next]
    rfl

end Renumbering

namespace Build

/-- A parameter is added under the next number unless that is beyond the limit. -/
theorem addParameter_run (d : Draft) (value : SqlValue) (type : Option ColumnType)
    (size : Option UInt32) :
    (d.options.maxParameters ≠ 0 ∧ ∃ limit, (addParameter value type size).run d =
      (.error (.unsupported (.parameterLimit limit)), d)) ∨
    Gives (addParameter value type size) d (d.parameters.length + 1)
      (d.holding (d.parameters ++
        [⟨d.dialect.parameterName (d.parameters.length + 1), value, type, size⟩])) := by
  unfold addParameter Gives
  rw [run_get_bind]
  by_cases beyond : d.options.maxParameters.toNat ≠ 0 ∧
      d.options.maxParameters.toNat < d.parameters.length + 1
  · left
    refine ⟨?_, d.options.maxParameters.toNat, ?_⟩
    · intro unlimited
      exact beyond.1 (by rw [unlimited]; rfl)
    · dsimp only
      rw [if_pos beyond]
      rfl
  · right
    dsimp only
    rw [if_neg beyond]
    rfl

end Build

namespace Parameter

def content (p : Parameter) : SqlValue × Option ColumnType × Option UInt32 :=
  (p.value, p.type, p.size)

def rename (p : Parameter) : Build (String × Nat) :=
  return (p.name, ← addParameter p.value p.type p.size)

end Parameter

def numbering (k : Nat) (ps : List Parameter) : List (String × Nat) :=
  (ps.map (·.name)).zip (List.range' (k + 1) ps.length)

theorem Build.renames_run (ps : List Parameter) (d : Draft) :
    (∃ limit d', (ps.mapM Parameter.rename).run d =
      (.error (.unsupported (.parameterLimit limit)), d')) ∨
    Gives (ps.mapM Parameter.rename) d (numbering d.parameters.length ps)
      (d.holding (d.parameters ++ renumbered d.dialect d.parameters.length ps)) := by
  induction ps generalizing d with
  | nil =>
    right
    rw [renumbered, List.append_nil]
    exact gives_pure.2 ⟨rfl, rfl⟩
  | cons p ps ih =>
    rw [List.mapM_cons]
    rcases addParameter_run d p.value p.type p.size with ⟨_, limit, failed⟩ | given
    · left
      refine ⟨limit, d, ?_⟩
      rw [run_bind, Parameter.rename, run_bind, failed]
    have first : Gives p.rename d (p.name, d.parameters.length + 1) _ :=
      gives_bind.2 ⟨_, _, given, gives_pure.2 ⟨rfl, rfl⟩⟩
    rcases ih _ with ⟨limit, d', failed⟩ | rest
    · left
      refine ⟨limit, d', ?_⟩
      rw [run_bind, first]
      dsimp only
      rw [run_bind, failed]
    · right
      refine gives_bind.2 ⟨_, _, first, gives_bind.2 ⟨_, _, rest, gives_pure.2 ⟨?_, ?_⟩⟩⟩
      · simp [numbering, Draft.holding, List.range'_succ]
      · simp [Draft.holding, renumbered]

/-- A command that is no select cannot be inlined; any other one is, unless the limit is hit. -/
theorem Command.inline_run {c : Command} (select : c.kind = .select) (d : Draft) :
    (∃ limit d', c.inline.run d = (.error (.unsupported (.parameterLimit limit)), d')) ∨
    Gives c.inline d (ofFinished (numbering d.parameters.length c.parameters) c.sql)
      (d.holding (d.parameters ++ renumbered d.dialect d.parameters.length c.parameters)) := by
  have body : c.inline = (do return ofFinished (← c.parameters.mapM Parameter.rename) c.sql) := by
    unfold Command.inline
    rw [if_neg (not_not_intro select)]
    rfl
  rw [body]
  rcases renames_run c.parameters d with ⟨limit, d', failed⟩ | given
  · left
    refine ⟨limit, d', ?_⟩
    rw [run_bind, failed]
  · right
    exact gives_bind.2 ⟨_, _, given, gives_pure.2 ⟨rfl, rfl⟩⟩

section Coupling

variable {C : Coupling} (adds : C.Adds)
include adds

theorem Build.renames_couples {ps qs : List Parameter}
    (contents : qs.map Parameter.content = ps.map Parameter.content) :
    Couples C (fun _ _ => True) (ps.mapM Parameter.rename) (qs.mapM Parameter.rename) := by
  induction ps generalizing qs with
  | nil =>
    cases List.map_eq_nil_iff.1 contents
    exact couples_pure trivial
  | cons p ps ih =>
    obtain ⟨q, qs, rfl, same, rest⟩ := List.map_eq_cons_iff.1 contents
    simp only [Parameter.content, Prod.mk.injEq] at same
    obtain ⟨value, type, size⟩ := same
    rw [List.mapM_cons, List.mapM_cons]
    have first : Couples C (fun _ _ => True) p.rename q.rename := by
      rw [Parameter.rename, Parameter.rename, value, type, size]
      exact (adds p.value p.type p.size).bind fun _ _ _ => couples_pure trivial
    exact first.bind fun _ _ _ => (ih rest).bind fun _ _ _ => couples_pure trivial

/-- Commands of the same kind and with the same parameters are inlined alike if the renamed texts
are alike. -/
theorem Command.inline_couples {c c' : Command} (kind : c'.kind = c.kind)
    (contents : c'.parameters.map Parameter.content = c.parameters.map Parameter.content)
    (text : ∀ {d e}, C.Beside d e →
      C.fragment (ofFinished (numbering d.parameters.length c.parameters) c.sql)
        (ofFinished (numbering e.parameters.length c'.parameters) c'.sql)) :
    Couples C C.fragment c.inline c'.inline := by
  unfold Command.inline
  rw [kind]
  refine .ite Iff.rfl (fun _ => couples_throw_bind _ _ _) fun _ => ?_
  have renames : Couples C (fun rs ss =>
      C.fragment (ofFinished rs c.sql) (ofFinished ss c'.sql))
      (c.parameters.mapM Parameter.rename) (c'.parameters.mapM Parameter.rename) := by
    refine (renames_couples adds contents).of_gives fun {d e rs ss d' e'} beside given given' _ => ?_
    have known (ps : List Parameter) (d : Draft) {rs : List (String × Nat)} {d' : Draft}
        (given : Gives (ps.mapM Parameter.rename) d rs d') :
        rs = numbering d.parameters.length ps := by
      rcases renames_run ps d with ⟨limit, d'', failed⟩ | numbered
      · rw [Gives, failed] at given
        cases given
      · rw [Gives, numbered] at given
        cases given
        rfl
    rw [known _ _ given, known _ _ given']
    exact text beside
  exact renames.bind fun rs ss h => couples_pure h

end Coupling
end DmlCompiler
