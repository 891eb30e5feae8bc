import DmlCompiler.Proofs.Dispatch.Reading
import DmlCompiler.Proofs.Failure

/-! # Which records are calls

The type arguments of a record are counted. Of its other arguments only the first ones are looked
at, as many as a call of the method is recorded with; whatever stands behind them is dropped. -/
namespace DmlCompiler

namespace RecordedCall

/-- The record could be that of a call: the dialect has the method, the type arguments name
entities, as many as the method takes, and some call of the method is recorded with arguments of
the same kinds. -/
structure Fits (c : RecordedCall) (dialect : Dialect) (registry : Registry) : Prop where
  available : c.method.isAvailable dialect = true
  counted : c.typeArguments.length = c.method.arity
  resolved : ∀ name ∈ c.typeArguments, (registry.entity? name).isSome = true
  shaped : ∃ (call : Call) (record : RecordedCall), call.recorded? = some record ∧
    record.method = c.method ∧ record.kinds = c.kinds

variable {c : RecordedCall} {dialect : Dialect} {registry : Registry}

/-- A record is read as a call exactly if what is looked at of it fits. -/
theorem exists_call?_iff :
    (∃ call, c.call? dialect registry = .ok call) ↔ c.trimmed.Fits dialect registry := by
  constructor
  · rintro ⟨call, read⟩
    obtain ⟨recorded, -⟩ := recorded_of_call? read
    unfold call? at read
    split at read
    · next available =>
      obtain ⟨es, found, -⟩ := exists_of_bind read
      obtain ⟨counted, known⟩ := entities_eq_ok.1 found
      exact ⟨available, counted, resolved_of_known known, call, _, recorded, rfl, rfl⟩
    · cases read
  · rintro ⟨available, counted, resolved, call, record, recorded, method, kinds⟩
    obtain ⟨es, known⟩ := exists_entities resolved
    have shaped : c.trimmed.kinds ∈ c.method.shapes := by
      rw [← kinds]
      exact method ▸ Call.recorded_kinds recorded
    have count : es.length = c.method.arity := known.length_eq.symm.trans counted
    obtain ⟨read, assembled⟩ := exists_assemble count shaped
    have here : c.method.isAvailable dialect = true := available
    have found : c.entities registry = .ok es := entities_eq_ok.2 ⟨counted, known⟩
    refine ⟨read, ?_⟩
    rw [call?, if_pos here, found]
    exact assembled

theorem fits_iff : c.Fits dialect registry ↔
    c.trimmed.Fits dialect registry ∧ c.trimmed = c := by
  constructor
  · intro fits
    obtain ⟨call, record, recorded, method, kinds⟩ := fits.shaped
    have short : c.arguments.length ≤ c.method.argumentCount := by
      have bound := Method.length_le_argumentCount (Call.recorded_kinds recorded)
      rwa [method, kinds, RecordedCall.kinds, List.length_map] at bound
    have whole : c.trimmed = c := by
      rw [trimmed, List.take_of_length_le short]
      cases c
      rfl
    exact ⟨whole.symm ▸ fits, whole⟩
  · rintro ⟨fits, whole⟩
    rwa [whole] at fits

def invoke (dialect : Dialect) (registry : Registry) (c : RecordedCall) (d : Draft) :
    Except QueryError Unit × Draft :=
  match c.call? dialect registry with
  | .ok call => d.call call
  | .error e => (.error e, d)

end RecordedCall

/-- A record is invoked as the call with that record exactly if what is looked at of it fits; any
other one fails for its method and leaves the draft as it was. The record itself fits if, besides,
all of it is looked at. -/
theorem records_invoked_by_shape (dialect : Dialect) (registry : Registry) (c : RecordedCall)
    (d : Draft) :
    (c.Fits dialect registry ↔ c.trimmed.Fits dialect registry ∧ c.trimmed = c) ∧
    (c.trimmed.Fits dialect registry → ∃ call, call.recorded? = some c.trimmed ∧
      (∀ e ∈ call.entity?, registry.entity? e.name = some e) ∧
      c.invoke dialect registry d = d.call call) ∧
    (¬ c.trimmed.Fits dialect registry →
      ∃ cause, c.invoke dialect registry d = (.error (.methodResolution c.method cause), d)) := by
  refine ⟨RecordedCall.fits_iff, fun fits => ?_, fun misfits => ?_⟩
  · obtain ⟨call, read⟩ := RecordedCall.exists_call?_iff.2 fits
    obtain ⟨recorded, registered⟩ := RecordedCall.recorded_of_call? read
    refine ⟨call, recorded, registered, ?_⟩
    rw [RecordedCall.invoke, read]
  · cases read : c.call? dialect registry with
    | ok call => exact absurd (RecordedCall.exists_call?_iff.1 ⟨call, read⟩) misfits
    | error e =>
      obtain ⟨cause, rfl⟩ := RecordedCall.failsByMethod_call? e read
      refine ⟨cause, ?_⟩
      rw [RecordedCall.invoke, read]

def doubleFilter : RecordedCall where
  method := .filter
  typeArguments := []
  arguments := [.predicate (amount.lessThan (.integer 2)),
    .predicate (amount.greaterThan (.integer 7))]

def numberFilter : RecordedCall := ⟨.filter, [], [.limit 1]⟩

theorem records_invoked_by_shape_filters :
    let d := Draft.new .standard orderRegistry {} []
    (∃ call, call.recorded? = some doubleFilter.trimmed ∧
      doubleFilter.invoke .standard orderRegistry d = d.call call) ∧
    ∃ cause, numberFilter.invoke .standard orderRegistry d =
      (.error (.methodResolution .filter cause), d) := by
  intro d
  constructor
  · have fits : doubleFilter.trimmed.Fits .standard orderRegistry :=
      RecordedCall.exists_call?_iff.1 ⟨_, rfl⟩
    obtain ⟨-, invoked, -⟩ := records_invoked_by_shape .standard orderRegistry doubleFilter d
    obtain ⟨call, recorded, -, made⟩ := invoked fits
    exact ⟨call, recorded, made⟩
  · have misfits : ¬ numberFilter.trimmed.Fits .standard orderRegistry := by
      intro fits
      obtain ⟨call, read⟩ := RecordedCall.exists_call?_iff.2 fits
      cases read
    obtain ⟨-, -, refused⟩ := records_invoked_by_shape .standard orderRegistry numberFilter d
    exact refused misfits

/-- The second predicate is dropped, and a deletion takes more rows than it should. -/
theorem second_predicate_dropped :
    let d := ((Draft.new .standard orderRegistry {} []).call (.delete orders)).2
    ¬ doubleFilter.Fits .standard orderRegistry ∧
      (doubleFilter.invoke .standard orderRegistry d).1 = .ok () ∧
      (doubleFilter.invoke .standard orderRegistry d).2.toCommand.1.map
        (fun c => (c.sql, c.parameters.map (·.value))) =
        .ok ("DELETE FROM Orders WHERE (Orders.Amount < @p1)", [.integer 2]) := by
  refine ⟨fun fits => ?_, by decide +kernel, by decide +kernel⟩
  obtain ⟨-, whole⟩ := RecordedCall.fits_iff.1 fits
  have count := congrArg (fun c => c.arguments.length) whole
  cases count

end DmlCompiler
