import DmlCompiler.Proofs.Frame
import DmlCompiler.Proofs.Renaming
import DmlCompiler.Proofs.Validity

/-! # What rendering writes

With valid names every fragment is an operand for the lexer, and its places are those of the
parameters that were added while it was rendered. A length that SQL Server wants repeats places;
without it they stand in order. -/
namespace DmlCompiler

open Build Sql

/-- A command whose text is a statement for the lexer, with the parameters numbered from one; in
order their places stand in the text from left to right. -/
structure Command.IsNumbered (inOrder : Prop) (dialect : Dialect) (c : Command) : Prop where
  names : c.parameters.map (·.name) =
    (List.range' 1 c.parameters.length).map dialect.parameterName
  text : ∃ sql : Sql, c.sql = sql.text dialect ∧ Sound sql ∧
    Fills inOrder 0 c.parameters.length sql.places

def Numbered (inOrder : Prop) (c : Command) : Prop := ∃ dialect, c.IsNumbered inOrder dialect

namespace Draft

/-- The parameters are numbered and the kept select lists have valid names. Places are in order
only where SQL Server is not written for. -/
structure Orderly (inOrder : Prop) (registry : Registry) (d : Draft) : Prop where
  registry : d.registry = registry
  dialect : inOrder → d.dialect ≠ .sqlServer
  names : d.parameters.map (·.name) =
    (List.range' 1 d.parameters.length).map d.dialect.parameterName
  cache : d.cache.IsValid

structure Adds (inOrder : Prop) (registry : Registry) (d d' : Draft) (numbers : List Nat) :
    Prop where
  orderly : d'.Orderly inOrder registry
  fills : Fills inOrder d.parameters.length d'.parameters.length numbers

variable {inOrder : Prop} {registry : Registry} {d d₁ d₂ : Draft} {ks ls : List Nat}

theorem Orderly.adds (h : d.Orderly inOrder registry) : d.Adds inOrder registry d [] :=
  ⟨h, .empty⟩

theorem Adds.trans (h : d.Adds inOrder registry d₁ ks) (h' : d₁.Adds inOrder registry d₂ ls) :
    d.Adds inOrder registry d₂ (ks ++ ls) :=
  ⟨h'.orderly, h.fills.append h'.fills⟩

end Draft

variable {inOrder : Prop} {registry : Registry} {d d' : Draft} {sql : Sql}

namespace Build

theorem addParameter_adds {value : SqlValue} {type : Option ColumnType} {size : Option UInt32}
    {number : Nat} (hd : d.Orderly inOrder registry)
    (given : Gives (addParameter value type size) d number d') :
    d.Adds inOrder registry d' [number] ∧ number = d.parameters.length + 1 ∧
      d'.parameters.length = d.parameters.length + 1 := by
  rw [addParameter, gives_get_bind] at given
  dsimp only at given
  split at given
  · simp only [gives_bind, gives_throw, false_and, exists_false] at given
  · simp only [gives_bind, gives_set, gives_pure] at given
    obtain ⟨_, _, rfl, rfl, rfl⟩ := given
    refine ⟨⟨⟨hd.registry, hd.dialect, ?_, hd.cache⟩, ?_⟩, rfl, by simp⟩
    · simp only [List.map_append, hd.names, List.length_append, List.length_singleton,
        List.range'_concat, List.map_cons, List.map_nil]
      simp [Nat.add_comm]
    · simp only [List.length_append, List.length_singleton]
      exact .single

theorem bindValue_adds {column : Option ColumnRef} {value : SqlValue}
    (hd : d.Orderly inOrder registry) (given : Gives (bindValue column value) d sql d') :
    d.Adds inOrder registry d' sql.places ∧ Sound sql := by
  obtain ⟨number, d₁, added, given⟩ := gives_bind.1 given
  obtain ⟨rfl, rfl⟩ := gives_pure.1 given
  exact ⟨(addParameter_adds hd added).1, sound_place number⟩

theorem mapM_adds {ι : Type} {f : ι → Build Sql} {kind : Sql → Prop} : ∀ {is : List ι}
    {d d' : Draft} {fragments : List Sql}, d.Orderly inOrder registry →
    (∀ i ∈ is, ∀ {d d' sql}, d.Orderly inOrder registry → Gives (f i) d sql d' →
      d.Adds inOrder registry d' sql.places ∧ kind sql) →
    Gives (is.mapM f) d fragments d' →
    d.Adds inOrder registry d' (fragments.map places).flatten ∧ ∀ sql ∈ fragments, kind sql
  | [], d, d', fragments, hd, _, given => by
    obtain ⟨rfl, rfl⟩ := gives_pure.1 given
    exact ⟨hd.adds, by simp⟩
  | i :: is, d, d', fragments, hd, hf, given => by
    rw [List.mapM_cons] at given
    obtain ⟨sql, d₁, first, given⟩ := gives_bind.1 given
    obtain ⟨rest, d₂, later, given⟩ := gives_bind.1 given
    obtain ⟨rfl, rfl⟩ := gives_pure.1 given
    obtain ⟨added, good⟩ := hf i List.mem_cons_self hd first
    obtain ⟨addedLater, goodLater⟩ :=
      mapM_adds added.orderly (fun j hj => hf j (List.mem_cons_of_mem i hj)) later
    refine ⟨added.trans addedLater, ?_⟩
    intro sql' mem
    rcases List.mem_cons.1 mem with rfl | mem
    · exact good
    · exact goodLater sql' mem

end Build

namespace Function

/-- The parentheses of an opening text are those that are closed behind the arguments. -/
theorem opens_opening (dialect : Dialect) (kind : FunctionKind) :
    ∃ depth, openParentheses (dialect.opening kind) = depth + 1 ∧
      Opens (depth + 1) (ofString (dialect.opening kind)) := by
  cases dialect <;> cases kind <;> exact ⟨_, rfl, fun _ => rfl⟩

theorem separates_separator (kind : FunctionKind) : Separates (ofString kind.separator) := by
  intro n e closed
  cases closed <;> cases kind <;> rfl

/-- The length of the whole text repeats its places, and only SQL Server is given one. -/
theorem wholeLength_adds {f : Function} {inner : Sql} {d₀ : Draft} {numbers : List Nat}
    (added : d₀.Adds inOrder registry d numbers) (known : ∀ k ∈ inner.places, k ∈ numbers) :
    d₀.Adds inOrder registry d (numbers ++ (f.wholeLength d.dialect inner).places) := by
  have none : d₀.Adds inOrder registry d (numbers ++ places []) := by simpa using added
  unfold wholeLength
  split
  · next length eq =>
    split
    · unfold Dialect.wholeLength? at eq
      split at eq
      · next needed =>
        cases eq
        have sqlServer : d.dialect = .sqlServer := by simpa [Dialect.needsLength] using needed
        refine ⟨added.orderly, added.fills.repeated (fun ordered => ?_) (by simpa using known)⟩
        exact added.orderly.dialect ordered sqlServer
      · cases eq
    · exact none
  · exact none

theorem wholeLength_continues (f : Function) (dialect : Dialect) {inner : Sql}
    (good : Sound inner) : Continues (f.wholeLength dialect inner) := by
  unfold wholeLength
  split
  · next length eq =>
    split
    · unfold Dialect.wholeLength? at eq
      split at eq
      · cases eq
        have opens : Opens 1 (ofString "LEN(") := fun _ => rfl
        exact (separates_separator f.kind).sound (good.wrap opens)
      · cases eq
    · exact continues_nil
  · exact continues_nil

theorem apply_adds {f : Function} {inner : Sql} {d₀ : Draft}
    (added : d₀.Adds inOrder registry d inner.places) (good : Sound inner)
    (given : Gives (f.apply inner) d sql d') :
    d₀.Adds inOrder registry d' sql.places ∧ Sound sql := by
  rw [Function.apply, gives_get_bind] at given
  obtain ⟨params, d₁, rendered, given⟩ := gives_bind.1 given
  obtain ⟨rfl, rfl⟩ := gives_pure.1 given
  have kept : d'.dialect = d.dialect := by
    refine (keeps_mapM (r := Draft.Appends) (fun value => ?_) f.params rendered).sameGround.dialect
    exact (bindValue_appends none value).bind fun _ => keeps_pure _
  have each : ∀ value ∈ f.params, ∀ {d d' : Draft} {sql : Sql}, d.Orderly inOrder registry →
      Gives (do return ofString f.kind.separator ++ (← bindValue none value)) d sql d' →
      d.Adds inOrder registry d' sql.places ∧ Continues sql := by
    intro value _ d d' sql hd given
    obtain ⟨place, d₁, bound, given⟩ := gives_bind.1 given
    obtain ⟨rfl, rfl⟩ := gives_pure.1 given
    obtain ⟨added, good⟩ := bindValue_adds hd bound
    exact ⟨by simpa using added, (separates_separator f.kind).sound good⟩
  obtain ⟨addedParams, goodParams⟩ := mapM_adds added.orderly each rendered
  constructor
  · have known : ∀ k ∈ inner.places, k ∈ inner.places ++ (params.map places).flatten :=
      fun k hk => List.mem_append_left _ hk
    have all := wholeLength_adds (f := f) (added.trans addedParams) known
    rw [kept] at all
    simpa using all
  · obtain ⟨depth, count, opens⟩ := opens_opening d.dialect f.kind
    have arguments : Sound (inner ++ params.flatten ++ f.wholeLength d.dialect inner) :=
      (good.continue (continues_flatten goodParams)).continue
        (wholeLength_continues f d.dialect good)
    have wrapped := arguments.wrap opens
    rw [← count] at wrapped
    simpa using wrapped

end Function

namespace Command

theorem renames_adds : ∀ {ps : List Parameter} {d d' : Draft} {renames : List (String × Nat)},
    d.Orderly inOrder registry →
    Gives (ps.mapM fun p => return (p.name, ← addParameter p.value p.type p.size)) d renames d' →
    d'.Orderly inOrder registry ∧ d'.parameters.length = d.parameters.length + ps.length ∧
      renames = (ps.map (·.name)).zip (List.range' (d.parameters.length + 1) ps.length)
  | [], d, d', renames, hd, given => by
    obtain ⟨rfl, rfl⟩ := gives_pure.1 given
    exact ⟨hd, rfl, rfl⟩
  | p :: ps, d, d', renames, hd, given => by
    rw [List.mapM_cons] at given
    obtain ⟨rename, d₁, first, given⟩ := gives_bind.1 given
    obtain ⟨number, d₂, added, first⟩ := gives_bind.1 first
    obtain ⟨rfl, rfl⟩ := gives_pure.1 first
    obtain ⟨rest, d₃, later, given⟩ := gives_bind.1 given
    obtain ⟨rfl, rfl⟩ := gives_pure.1 given
    obtain ⟨one, rfl, length⟩ := addParameter_adds hd added
    obtain ⟨orderly, total, rfl⟩ := renames_adds one.orderly later
    refine ⟨orderly, ?_, ?_⟩
    · rw [total, length, List.length_cons]
      omega
    · rw [length, List.length_cons, List.range'_succ]
      rfl

/-- The text with numbered parameters is labelled anew and nothing else. -/
theorem ofFinished_numbered {ps : List Parameter} {dialect : Dialect} {text : Sql}
    (names : ps.map (·.name) = (List.range' 1 ps.length).map dialect.parameterName)
    (good : Sound text) (fills : Fills inOrder 0 ps.length text.places) (m : Nat) :
    ofFinished ((ps.map (·.name)).zip (List.range' (m + 1) ps.length)) (text.text dialect) =
      text.map (Symbol.relabel (m + ·)) := by
  have renames : (ps.map (·.name)).zip (List.range' (m + 1) ps.length) =
      (List.range' 1 ps.length).map fun k => (dialect.parameterName k, m + k) := by
    have shifted : List.range' (m + 1) ps.length = (List.range' 1 ps.length).map (m + ·) := by
      rw [List.map_add_range']
    rw [names, shifted, List.zip_map']
  have known : ∀ k ∈ text.places, k ∈ List.range' 1 ps.length := by
    intro k hk
    have := (fills.mem_iff k).1 hk
    rw [List.mem_range'_1]
    omega
  obtain ⟨_, _, lexed⟩ := good 0
  rw [renames, ofFinished_text (m + ·) lexed known]

theorem inline_adds {c : Command} {dialect : Dialect} (numbered : c.IsNumbered inOrder dialect)
    (hd : d.Orderly inOrder registry) (given : Gives c.inline d sql d') :
    d.Adds inOrder registry d' sql.places ∧ Sound sql := by
  unfold Command.inline at given
  split at given
  · simp only [gives_bind, gives_throw, false_and, exists_false] at given
  · obtain ⟨renames, d₁, added, given⟩ := gives_bind.1 given
    obtain ⟨rfl, rfl⟩ := gives_pure.1 given
    obtain ⟨orderly, length, rfl⟩ := renames_adds hd added
    obtain ⟨text, eq, good, fills⟩ := numbered.text
    rw [eq, ofFinished_numbered numbered.names good fills]
    refine ⟨⟨orderly, ?_⟩, good.relabel _⟩
    rw [places_relabel, length]
    exact fills.shift d.parameters.length

end Command

end DmlCompiler
