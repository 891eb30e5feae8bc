import DmlCompiler.Proofs.Rendering.Queries
import DmlCompiler.Proofs.SelectLists
import DmlCompiler.Proofs.SelectLists.Valid

/-! # Compiled commands

A command is compiled by a run over valid names, behind any history of compilations. Only a list
that was kept for another entity could bring other names into it. -/
namespace DmlCompiler

open Build

/-- A run of calls over identifiers ended with the command, and such runs ended with the commands
inside of it. All of them, and what was compiled before them, were about known entities, and all of
them for dialects that are used. -/
inductive Compiled (known : Entity → Prop) (used : Dialect → Prop) : Dialect → Command → Prop where
  | build {dialect : Dialect} {registry : Registry} {options : Options}
      {history : List Compilation} {calls : List Call} {c : Command} (dialects : Command → Dialect)
      (isUsed : used dialect) (past : ∀ w ∈ history, w.Concerns known)
      (present : ∀ call ∈ calls, call.Concerns known registry)
      (names : ∀ call ∈ calls, call.IsValid (fun _ => True) registry)
      (commands : ∀ call ∈ calls, ∀ x ∈ call.expressions, ∀ inner, .command inner ∈ x.parts →
        Compiled known used (dialects inner) inner)
      (built : ((Draft.new dialect registry options (keptAfter history)).build calls).1 = .ok c) :
      Compiled known used dialect c

variable {known : Entity → Prop} {used : Dialect → Prop} {dialect : Dialect} {c : Command}

/-- Behind a history the draft of a run is written, but for the lists that were kept for others. -/
theorem Draft.written_behind {inOrder : Prop} {registry : Registry} {options : Options}
    {history : List Compilation} {calls : List Call} {d : Draft} (listed : ListedAsValid known)
    (past : ∀ w ∈ history, w.Concerns known)
    (present : ∀ call ∈ calls, call.Concerns known registry)
    (valid : ∀ call ∈ calls, call.IsValid (Numbered inOrder) registry)
    (ordered : inOrder → dialect ≠ .sqlServer)
    (made : Gives (makeAll calls) (.new dialect registry options (keptAfter history)) () d) :
    ∃ kept, (d.amid options kept).Written inOrder registry := by
  have validFor : (keptAfter history).ValidFor known := (keptAfter_isAsked past).validFor listed
  obtain ⟨clean, lists, kept, run⟩ := makeAll_cleaned
    (d := .new dialect registry options (keptAfter history)) validFor present valid
  rw [Gives] at made
  rw [made] at run
  exact ⟨kept, (Draft.new_written ordered lists).makeAll valid run⟩

theorem Compiled.isNumbered (listed : ListedAsValid known) (h : Compiled known used dialect c) :
    c.IsNumbered (¬ used .sqlServer) dialect := by
  induction h with
  | @build dialect registry options history calls c dialects isUsed past present names commands
      built ih =>
    have ordered : ¬ used .sqlServer → dialect ≠ .sqlServer := by
      rintro unused rfl
      exact unused isUsed
    have valid : ∀ call ∈ calls, call.IsValid (Numbered (¬ used .sqlServer)) registry :=
      fun call hcall => (names call hcall).of_commands fun x hx inner hp =>
        ⟨dialects inner, ih call hcall x hx inner hp⟩
    obtain ⟨d, made, finished⟩ := Draft.build_gives built
    obtain ⟨kept, written⟩ := Draft.written_behind listed past present valid ordered made
    have ground : (Draft.new dialect registry options (keptAfter history)).SameGround d :=
      Draft.sameGround_holdsOverSteps.makeAll calls made
    have numbered := written.finished_isNumbered (c := c) finished
    rwa [show (d.amid options kept).dialect = dialect from ground.dialect] at numbered

/-- The selection of a valid entity is such a command, also behind that of another one. -/
theorem Compiled.of_selection {e stale : Entity} (isUsed : used .standard) (valid : e.IsValid)
    (about : known e) (before : known stale)
    (written : (selectionOf {} e).result (keptAfter [selectionOf {} stale]) = .ok c) :
    Compiled known used .standard c := by
  have built : ((Draft.new .standard (.new true) {} (keptAfter [selectionOf {} stale])).build
      [.select [], .from e]).1 = .ok c := written
  have past : ∀ w ∈ [selectionOf {} stale], w.Concerns known :=
    List.forall_mem_singleton.2 (selectionOf_concerns before)
  have present : (selectionOf {} e).Concerns known := selectionOf_concerns about
  refine .build (fun _ => .standard) isUsed past present ?_ ?_ built
  · refine List.forall_mem_cons.2 ⟨⟨by simp [Call.expressions], nofun⟩, ?_⟩
    refine List.forall_mem_singleton.2 ⟨by simp [Call.expressions], ?_⟩
    rintro _ ⟨⟩
    exact valid
  · simp [Call.expressions]

def ordersBy (column : String) : Entity :=
  { orders with columns := [⟨"Amount", column, .decimal, none, .all, false⟩] }

end DmlCompiler
