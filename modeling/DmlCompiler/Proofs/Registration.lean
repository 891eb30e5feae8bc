import DmlCompiler.Proofs.Grammar
import DmlCompiler.Proofs.Validity

/-! # What a validating registry holds

Names are written into SQL as they are, and recorded queries know their entities from the registry
only. After any registrations, failed ones among them, a registry that validates holds no other
names than identifiers, the rows of any result apart, whose names nothing checks. -/
namespace DmlCompiler

namespace Entity

variable {e : Entity}

/-- What a validating registry takes. -/
def IsAdmissible (e : Entity) : Prop := e.isQueryResult = true ∨ e.IsValid

/-- The first name that is no identifier is refused for the cause. -/
def Refused (e : Entity) (cause : IdentifierError) : Prop :=
  ∃ front name back, e.identifiers = front ++ name :: back ∧
    (∀ earlier ∈ front, Identifier.check earlier = .ok ()) ∧ Identifier.check name = .error cause

theorem Refused.not_isValid {cause : IdentifierError} (h : e.Refused cause) : ¬ e.IsValid := by
  obtain ⟨front, name, back, eq, _, refused⟩ := h
  intro valid
  have accepted := isValid_iff.1 valid name (by simp [eq])
  rw [refused] at accepted
  cases accepted

end Entity

namespace Registry

variable {r : Registry} {e : Entity} {name : String}

theorem checkNames_cases (e : Entity) :
    (checkNames e = .ok () ∧ e.IsValid) ∨
    ∃ cause, e.Refused cause ∧ checkNames e = .error (.validation cause) := by
  have accepted {name : String}
      (passed : (Identifier.check name).mapError QueryError.validation = .ok ()) :
      Identifier.check name = .ok () := by
    cases eq : Identifier.check name with
    | ok => rfl
    | error cause => simp [eq, Except.mapError] at passed
  obtain ⟨passed, all⟩ | ⟨front, name, back, u, eq, earlier, failed, run⟩ :=
    checks_cases (fun name => (Identifier.check name).mapError QueryError.validation) e.identifiers
  · exact .inl ⟨passed, Entity.isValid_iff.2 fun name mem => accepted (all name mem)⟩
  · right
    cases refused : Identifier.check name with
    | ok => simp [refused, Except.mapError] at failed
    | error cause =>
      simp only [refused, Except.mapError, Except.error.injEq] at failed
      subst failed
      exact ⟨cause, ⟨front, name, back, eq, fun n mem => accepted (earlier n mem), refused⟩, run⟩

theorem enter_run (r : Registry) (e : Entity) : (enter e).run r =
    if r.validates && !e.isQueryResult then
      match checkNames e with
      | .ok () => (.ok (), r.replacing e)
      | .error u => (.error u, r)
    else (.ok (), r.replacing e) := by
  have run : (enter e).run r =
      (if r.validates && !e.isQueryResult then do checkNames e; set (r.replacing e)
        else set (r.replacing e) : ExceptT QueryError (StateM Registry) Unit).run r := rfl
  rw [run]
  split
  · cases checkNames e <;> rfl
  · rfl

/-- What entering an entity does: a validating registry refuses all that is not admissible and
stays as it was. -/
theorem enter_cases (r : Registry) (e : Entity) :
    ((r.validates = true → e.IsAdmissible) ∧ (enter e).run r = (.ok (), r.replacing e)) ∨
    (r.validates = true ∧ ¬ e.IsAdmissible ∧
      ∃ cause, e.Refused cause ∧ (enter e).run r = (.error (.validation cause), r)) := by
  rw [enter_run]
  cases checked : r.validates && !e.isQueryResult with
  | false =>
    refine .inl ⟨fun validates => .inl ?_, rfl⟩
    simpa [validates] using checked
  | true =>
    obtain ⟨validates, table⟩ := Bool.and_eq_true_iff.1 checked
    obtain ⟨passed, valid⟩ | ⟨cause, refused, failed⟩ := checkNames_cases e
    · exact .inl ⟨fun _ => .inr valid, by rw [passed]; rfl⟩
    · refine .inr ⟨validates, ?_, cause, refused, by rw [failed]; rfl⟩
      rintro (result | valid)
      · simp [result] at table
      · exact refused.not_isValid valid

theorem entity?_replacing_self (r : Registry) (e : Entity) :
    (r.replacing e).entity? e.name = some e := by
  simp [replacing, entity?]

theorem entity?_replacing_other (other : name ≠ e.name) :
    (r.replacing e).entity? name = r.entity? name := by
  have unlike : (e.name == name) = false := beq_false_of_ne other.symm
  simp only [replacing, entity?, List.find?_cons, unlike, List.find?_filter]
  congr 1
  funext x
  by_cases eq : x.name = name
  · simp [eq, other]
  · simp [eq]

theorem entity_eq_ok {found : Entity} : r.entity name = .ok found ↔ r.entity? name = some found := by
  unfold entity
  cases r.entity? name <;> simp

theorem contains_iff : r.contains name = true ↔ name ∈ r.entities.map (·.name) := by
  simp [contains, entity?]

structure IsSound (r : Registry) : Prop where
  validates : r.validates = true
  distinct : (r.entities.map (·.name)).Nodup
  admissible : ∀ e ∈ r.entities, e.IsAdmissible

theorem new_isSound : (new true).IsSound where
  validates := rfl
  distinct := List.pairwise_singleton _ _
  admissible := by
    intro e mem
    rw [List.mem_singleton.1 mem]
    exact .inl rfl

theorem IsSound.replacing (h : r.IsSound) (admissible : e.IsAdmissible) :
    (r.replacing e).IsSound where
  validates := h.validates
  distinct := by
    refine List.nodup_cons.2 ⟨?_, h.distinct.sublist (List.filter_sublist.map _)⟩
    intro mem
    obtain ⟨x, kept, same⟩ := List.mem_map.1 mem
    simp [same] at kept
  admissible := by
    intro x mem
    rcases List.mem_cons.1 mem with rfl | mem
    · exact admissible
    · exact h.admissible x (List.mem_filter.1 mem).1

/-- Entering an entity keeps a registry sound, whether it succeeds or fails. -/
theorem IsSound.enter (h : r.IsSound) (e : Entity) : ((enter e).run r).2.IsSound := by
  obtain ⟨admissible, run⟩ | ⟨_, _, _, _, run⟩ := enter_cases r e
  · rw [run]
    exact h.replacing (admissible h.validates)
  · rw [run]
    exact h

def attempts (r : Registry) (tried : List Entity) : Registry :=
  tried.foldl (fun r e => ((enter e).run r).2) r

theorem IsSound.attempts (h : r.IsSound) : ∀ tried : List Entity, (r.attempts tried).IsSound := by
  intro tried
  induction tried generalizing r with
  | nil => exact h
  | cons e tried ih => exact ih (h.enter e)

/-- No entity of another name is lost, and none is there twice. -/
theorem IsSound.size_replacing (h : r.IsSound) (e : Entity) :
    (r.replacing e).size = if r.contains e.name then r.size else r.size + 1 := by
  have names : (r.entities.filter (·.name != e.name)).map (·.name) =
      (r.entities.map (·.name)).erase e.name := by
    rw [h.distinct.erase_eq_filter, List.filter_map]
    rfl
  have count := congrArg List.length names
  simp only [List.length_map, List.length_erase] at count
  simp only [size, Registry.replacing, List.length_cons, count, contains_iff]
  split
  · next mem =>
    have := List.length_pos_of_mem mem
    rw [List.length_map] at this
    omega
  · rfl

end Registry

/-- After any registrations a validating registry gives no other entities than admissible ones. It
takes the next entity exactly if that is admissible, whatever it holds, and then answers only for
the name of the entity in another way; it refuses any other one for its first bad name and stays as
it was. -/
theorem validating_registry_holds_valid_names (tried : List Entity) :
    let r := (Registry.new true).attempts tried
    (∀ name found, r.entity name = .ok found →
      found.name = name ∧ (found.isQueryResult = true ∨ found.IsValid)) ∧
    ∀ e,
      ((e.isQueryResult = true ∨ e.IsValid) ∧
        ∃ r', (Registry.enter e).run r = (.ok (), r') ∧ r'.entity e.name = .ok e ∧
          (∀ name, name ≠ e.name → r'.entity name = r.entity name) ∧
          r'.size = if r.contains e.name then r.size else r.size + 1) ∨
      (¬ (e.isQueryResult = true ∨ e.IsValid) ∧
        ∃ cause, e.Refused cause ∧
          (Registry.enter e).run r = (.error (.validation cause), r)) := by
  intro r
  have sound : r.IsSound := Registry.new_isSound.attempts tried
  constructor
  · intro name found given
    have given := Registry.entity_eq_ok.1 given
    exact ⟨by simpa using List.find?_some given,
      sound.admissible found (List.mem_of_find?_eq_some given)⟩
  · intro e
    obtain ⟨admissible, run⟩ | ⟨_, inadmissible, refused⟩ := Registry.enter_cases r e
    · refine .inl ⟨admissible sound.validates, r.replacing e, run, ?_, ?_, sound.size_replacing e⟩
      · exact Registry.entity_eq_ok.2 (Registry.entity?_replacing_self r e)
      · intro name other
        simp only [Registry.entity, Registry.entity?_replacing_other other]
    · exact .inr ⟨inadmissible, refused⟩

def ordersWithRemark : Entity :=
  { orders with columns := orders.columns ++ [⟨"Note", "Note -- ", .text, none, .all, false⟩] }

/-- The orders are entered a second time, after a failure. -/
theorem validating_registry_holds_valid_names_orders :
    let later := { orders with table := "Sales" }
    let r := (Registry.new true).attempts [orders, ordersWithRemark, later]
    r.entity "Order" = .ok later ∧ r.size = 2 ∧ (later.isQueryResult = true ∨ later.IsValid) ∧
      let again := (Registry.enter ordersWithRemark).run r
      again.1 = .error (.validation (.badCharacters "Note -- ")) ∧ again.2 = r := by
  intro later r
  have given : r.entity "Order" = .ok later := by decide +kernel
  have ⟨holds, _⟩ := validating_registry_holds_valid_names [orders, ordersWithRemark, later]
  exact ⟨given, by decide +kernel, (holds "Order" later given).2, by decide +kernel,
    by decide +kernel⟩

def rawRows : Entity where
  name := "Raw"
  table := "rows; DROP TABLE x"
  kind := .queryResult
  permissions := .readOnly

/-- The names of such an entity are not checked, and they are written into statements. -/
theorem result_rows_unchecked :
    let r := (Registry.new true).attempts [rawRows]
    r.entity "Raw" = .ok rawRows ∧ ¬ rawRows.IsValid ∧
      ((Draft.new .standard r {} []).build [.select [], .from rawRows]).1.map (·.sql) =
        .ok "SELECT * FROM rows; DROP TABLE x" := by
  decide +kernel

end DmlCompiler
