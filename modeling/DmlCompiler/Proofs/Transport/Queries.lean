import DmlCompiler.Proofs.Transport.Values

/-! # Queries arrive

Expressions and queries are read back as they were, or not at all. The readers count the levels that
they go down, and the nesting of what they get is enough for them. -/
namespace DmlCompiler

open Json

variable {α : Type} {limit fuel : Nat}

namespace Json

/-- What the reader gets of the document is nested less deeply than `fuel`. -/
def Fits (limit fuel : Nat) (x : Json) : Prop := (x.received limit).depth < fuel

theorem Fits.field {fields : List (String × Json)}
    (h : Fits (limit + 1) (fuel + 1) (.object fields)) : ∀ field ∈ fields, Fits limit fuel field.2 := by
  unfold Fits at h
  rw [received_object, depth, Nat.add_lt_add_iff_right] at h
  intro field there
  have each := depthFields_le.1 (Nat.le_refl _) _ (List.mem_map_of_mem
    (f := fun field => (field.1, field.2.received limit)) there)
  exact Nat.lt_of_le_of_lt each h

theorem Fits.above {fields : List (String × Json)} (h : Fits (limit + 1) fuel (.object fields)) :
    ∀ field ∈ fields, Fits limit fuel field.2 := by
  intro field there
  cases fuel with
  | zero => exact (Nat.not_lt_zero _ h).elim
  | succ fuel => exact Nat.lt_succ_of_lt (h.field field there)

theorem Fits.item {items : List Json} (h : Fits (limit + 1) fuel (.array items)) :
    ∀ x ∈ items, Fits limit fuel x := by
  unfold Fits at h
  rw [received_array, depth] at h
  intro x there
  have each := depthItems_le.1 (Nat.le_refl _) _ (List.mem_map_of_mem (f := received limit) there)
  unfold Fits
  omega

/-- A reader that counts its levels and meets an object stands above the fields of it. -/
theorem recovers_within {decode : Nat → Json → Option α} {fields : List (String × Json)} {a : α}
    (closed : ∀ rest, decode (rest + 1) .unreadable = none)
    (h : ∀ below rest, (∀ field ∈ fields, Fits below rest field.2) →
      Recovers (below + 1) (decode (rest + 1)) (.object fields) a)
    (fits : Fits limit fuel (.object fields)) : Recovers limit (decode fuel) (.object fields) a := by
  cases fuel with
  | zero => exact (Nat.not_lt_zero _ fits).elim
  | succ rest =>
    cases limit with
    | zero => simp [Recovers, closed]
    | succ below => exact h below rest fits.field

theorem recovers_variant_within {decode read : Nat → Json → Option α} {name : String} {x : Json}
    {a : α} (h : ∀ below rest, Fits below rest x → Recovers below (read rest) x a)
    (opens : ∀ rest y, decode (rest + 1) (.object [(name, y)]) = read rest y)
    (closed : ∀ rest, decode (rest + 1) .unreadable = none)
    (fits : Fits limit fuel (variant name x)) : Recovers limit (decode fuel) (variant name x) a := by
  apply recovers_within closed _ fits
  intro below rest inside
  apply recovers_variant _ (opens rest) (closed rest)
  intro level same
  cases same
  exact h _ _ (inside _ (List.mem_singleton.2 rfl))

/-- The items of an array stand one level down, and their readers count on from the same number. -/
theorem recovers_items {read : Json → Option α} {encode : α → Json} {xs : List α}
    (each : ∀ below, (∀ a ∈ xs, Fits below fuel (encode a)) →
      ∀ a ∈ xs, Recovers below read (encode a) a)
    (fits : Fits limit fuel (.array (xs.map encode))) :
    Recovers limit (list? read) (.array (xs.map encode)) xs := by
  apply recovers_list
  intro below same
  subst same
  exact each below fun a there => fits.item _ (List.mem_map_of_mem there)

theorem recovers_optional_name (limit : Nat) {ofName? : String → Option α} {name : α → String}
    (back : ∀ a, ofName? (name a) = some a) (o : Option α) :
    Recovers limit (fun y => optional? (named? ofName?) (some y))
      (orNull (fun a => .string (name a)) o) o :=
  recovers_optional (fun a _ => recovers_named (back a)) fun _ _ => by simp

end Json

section Lists

theorem encodeExpressions_eq (xs : List Expression) : encodeExpressions xs = xs.map (·.encode) := by
  induction xs with
  | nil => rfl
  | cons x xs ih => rw [encodeExpressions, ih, List.map_cons]

theorem encodeOperands_eq (os : List Operand) : encodeOperands os = os.map (·.encode) := by
  induction os with
  | nil => rfl
  | cons o os ih => rw [encodeOperands, ih, List.map_cons]

theorem encodeCalls_eq (cs : List RecordedCall) : encodeCalls cs = cs.map (·.encode) := by
  induction cs with
  | nil => rfl
  | cons c cs ih => rw [encodeCalls, ih, List.map_cons]

theorem encodeCallArguments_eq (as : List CallArgument) :
    encodeCallArguments as = as.map (·.encode) := by
  induction as with
  | nil => rfl
  | cons a as ih => rw [encodeCallArguments, ih, List.map_cons]

theorem encodeArgument_eq (a : Option Argument) : encodeArgument a = orNull (·.encode) a := by
  cases a <;> rfl

end Lists

theorem SqlValue.recovers_range (low high : SqlValue) :
    Recovers limit (fun y => match y with
      | .array [low, high] => do
        return Argument.range (← SqlValue.decode? low) (← SqlValue.decode? high)
      | _ => none) (.array [low.encode, high.encode]) (.range low high) := by
  cases limit with
  | zero => simp [Recovers]
  | succ limit =>
    have first : Recovers limit _ _ _ := low.recovers
    have second : Recovers limit _ _ _ := high.recovers
    simp only [Recovers] at *
    simp [first, second, ite_bind, ite_and]

mutual

theorem Expression.recovers : ∀ (x : Expression) {limit fuel : Nat}, Fits limit fuel x.encode →
    Recovers limit (Expression.decodeWithin fuel) x.encode x
  | ⟨entity, property, column, operator, argument, functions, label, connective, negated, sort,
      children⟩, _, _, fits => by
    apply recovers_within (fun _ => rfl) _ fits
    intro limit fuel inside
    simp only [List.forall_mem_cons] at inside
    obtain ⟨_, _, _, _, argumentFits, _, _, _, _, _, childrenFit, _⟩ := inside
    have column : Recovers limit (fun y => optional? ColumnRef.decode? (some y))
        (orNull ColumnRef.encode column) column :=
      recovers_optional (fun c _ => c.recovers) fun _ _ => received_object_ne_null _
    have operator := recovers_optional_name limit Operator.ofName?_name operator
    have argument := recovers_argument argument argumentFits
    have functions : Recovers limit (list? Function.decode?)
        (.array (functions.map Function.encode)) functions :=
      recovers_list fun _ _ f _ => f.recovers
    have label : Recovers limit (fun y => optional? text? (some y)) (orNull .string label) label :=
      recovers_optional (fun s _ => recovers_text s) fun _ _ => by simp
    have connective := recovers_optional_name limit Connective.ofName?_name connective
    have sort := recovers_optional_name limit SortOrder.ofName?_name sort
    have children : Recovers limit (list? (Expression.decodeWithin fuel))
        (.array (encodeExpressions children)) children := by
      rw [encodeExpressions_eq] at childrenFit ⊢
      exact recovers_items (fun _ => expressions_recover children) childrenFit
    simp only [Recovers] at *
    rw [Expression.decodeWithin, fields?_received (by decide) (by rfl)]
    simp [text?, bool?, column, operator, argument, functions, label, connective, sort, children,
      ite_bind, ite_and]

theorem expressions_recover : ∀ (xs : List Expression) {limit fuel : Nat},
    (∀ x ∈ xs, Fits limit fuel x.encode) →
      ∀ x ∈ xs, Recovers limit (Expression.decodeWithin fuel) x.encode x
  | [], _, _, _ => nofun
  | x :: xs, _, _, fits => List.forall_mem_cons.2
    ⟨x.recovers (fits x List.mem_cons_self),
      expressions_recover xs fun other there => fits other (List.mem_cons_of_mem x there)⟩

theorem recovers_argument : ∀ (a : Option Argument) {limit fuel : Nat},
    Fits limit fuel (encodeArgument a) →
      Recovers limit (fun y => optional? (Argument.decodeWithin fuel) (some y)) (encodeArgument a) a
  | none, _, _, _ => by simp [Recovers, encodeArgument, optional?]
  | some a, limit, fuel, fits => by
    have read := a.recovers fits
    have apart : a.encode.received limit ≠ .null := by
      cases a <;> exact received_object_ne_null _
    rw [encodeArgument_eq]
    apply recovers_optional
    · rintro _ ⟨⟩
      exact read
    · rintro _ ⟨⟩
      exact apart

theorem Argument.recovers : ∀ (a : Argument) {limit fuel : Nat}, Fits limit fuel a.encode →
    Recovers limit (Argument.decodeWithin fuel) a.encode a
  | .value v, _, _, fits => recovers_variant_within
    (fun _ _ _ => v.recovers.map Argument.value) (fun _ _ => rfl) (fun _ => rfl) fits
  | .range low high, _, _, fits => by
    apply recovers_variant_within (fun _ _ _ => low.recovers_range high) _ (fun _ => rfl) fits
    intro rest y
    -- only an array of two items is a range
    rcases y with _ | _ | _ | _ | _ | (_ | ⟨_, _ | ⟨_, _ | ⟨_, _⟩⟩⟩) | _ | _ <;> rfl
  | .list operands, _, _, fits => by
    apply recovers_variant_within _ (fun _ _ => rfl) (fun _ => rfl) fits
    intro below rest inside
    rw [encodeOperands_eq] at inside ⊢
    exact (recovers_items (fun _ => operands_recover operands) inside).map Argument.list
  | .property other, _, _, fits => recovers_variant_within
    (fun _ _ inside => (other.recovers inside).map Argument.property) (fun _ _ => rfl) (fun _ => rfl)
    fits

theorem operands_recover : ∀ (os : List Operand) {limit fuel : Nat},
    (∀ o ∈ os, Fits limit fuel o.encode) →
      ∀ o ∈ os, Recovers limit (Operand.decodeWithin fuel) o.encode o
  | [], _, _, _ => nofun
  | o :: os, _, _, fits => List.forall_mem_cons.2
    ⟨o.recovers (fits o List.mem_cons_self),
      operands_recover os fun other there => fits other (List.mem_cons_of_mem o there)⟩

theorem Operand.recovers : ∀ (o : Operand) {limit fuel : Nat}, Fits limit fuel o.encode →
    Recovers limit (Operand.decodeWithin fuel) o.encode o
  | .value v, _, _, fits => recovers_variant_within
    (fun _ _ _ => v.recovers.map Operand.value) (fun _ _ => rfl) (fun _ => rfl) fits
  | .subQuery q, _, _, fits => recovers_variant_within
    (fun _ _ inside => (q.recovers inside).map Operand.subQuery) (fun _ _ => rfl) (fun _ => rfl) fits

theorem SubQuery.recovers : ∀ (q : SubQuery) {limit fuel : Nat}, Fits limit fuel q.encode →
    Recovers limit (SubQuery.decodeWithin fuel) q.encode q
  | .command c, _, _, fits => recovers_variant_within
    (fun _ _ _ => c.recovers.map SubQuery.command) (fun _ _ => rfl) (fun _ => rfl) fits
  | .deferred q, _, _, fits => recovers_variant_within
    (fun _ _ inside => (q.recovers inside).map SubQuery.deferred) (fun _ _ => rfl) (fun _ => rfl) fits

theorem Query.recovers : ∀ (q : Query) {limit fuel : Nat}, Fits limit fuel q.encode →
    Recovers limit (Query.decodeWithin fuel) q.encode q
  | ⟨calls, page⟩, _, _, fits => by
    apply recovers_within (fun _ => rfl) _ fits
    intro limit fuel inside
    simp only [List.forall_mem_cons] at inside
    obtain ⟨queueFits, _⟩ := inside
    have page : Recovers limit _ _ _ := recovers_page page
    cases limit with
    | zero =>
      rw [Recovers, Query.decodeWithin, fields?_received (by decide) (by rfl)]
      simp [fields?]
    | succ limit =>
      have callsFit : Fits limit fuel (.array (encodeCalls calls)) := queueFits.above _ List.mem_cons_self
      have calls : Recovers limit (list? (RecordedCall.decodeWithin fuel))
          (.array (encodeCalls calls)) calls := by
        rw [encodeCalls_eq] at callsFit ⊢
        exact recovers_items (fun _ => calls_recover calls) callsFit
      simp only [Recovers] at *
      rw [Query.decodeWithin, fields?_received (by decide) (by rfl)]
      simp only [List.map_cons, List.map_nil]
      rw [fields?_received (by decide) (by rfl)]
      simp [calls, page, ite_bind, ite_and]

theorem calls_recover : ∀ (cs : List RecordedCall) {limit fuel : Nat},
    (∀ c ∈ cs, Fits limit fuel c.encode) →
      ∀ c ∈ cs, Recovers limit (RecordedCall.decodeWithin fuel) c.encode c
  | [], _, _, _ => nofun
  | c :: cs, _, _, fits => List.forall_mem_cons.2
    ⟨c.recovers (fits c List.mem_cons_self),
      calls_recover cs fun other there => fits other (List.mem_cons_of_mem c there)⟩

theorem RecordedCall.recovers : ∀ (c : RecordedCall) {limit fuel : Nat}, Fits limit fuel c.encode →
    Recovers limit (RecordedCall.decodeWithin fuel) c.encode c
  | ⟨method, typeArguments, arguments⟩, _, _, fits => by
    apply recovers_within (fun _ => rfl) _ fits
    intro limit fuel inside
    simp only [List.forall_mem_cons] at inside
    obtain ⟨_, _, argumentsFit, _⟩ := inside
    have entities : Recovers limit (list? text?) (.array (typeArguments.map .string)) typeArguments :=
      recovers_list fun _ _ s _ => recovers_text s
    have arguments : Recovers limit (list? (CallArgument.decodeWithin fuel))
        (.array (encodeCallArguments arguments)) arguments := by
      rw [encodeCallArguments_eq] at argumentsFit ⊢
      exact recovers_items (fun _ => callArguments_recover arguments) argumentsFit
    simp only [Recovers] at *
    rw [RecordedCall.decodeWithin, fields?_received (by decide) (by rfl)]
    simp [entities, arguments, ite_bind, ite_and]

theorem callArguments_recover : ∀ (as : List CallArgument) {limit fuel : Nat},
    (∀ a ∈ as, Fits limit fuel a.encode) →
      ∀ a ∈ as, Recovers limit (CallArgument.decodeWithin fuel) a.encode a
  | [], _, _, _ => nofun
  | a :: as, _, _, fits => List.forall_mem_cons.2
    ⟨a.recovers (fits a List.mem_cons_self),
      callArguments_recover as fun other there => fits other (List.mem_cons_of_mem a there)⟩

theorem CallArgument.recovers : ∀ (a : CallArgument) {limit fuel : Nat}, Fits limit fuel a.encode →
    Recovers limit (CallArgument.decodeWithin fuel) a.encode a
  | .properties xs, _, _, fits => by
    apply recovers_variant_within _ (fun _ _ => rfl) (fun _ => rfl) fits
    intro below rest inside
    rw [encodeExpressions_eq] at inside ⊢
    exact (recovers_items (fun _ => expressions_recover xs) inside).map CallArgument.properties
  | .predicate x, _, _, fits => recovers_variant_within
    (fun _ _ inside => (x.recovers inside).map CallArgument.predicate) (fun _ _ => rfl) (fun _ => rfl)
    fits
  | .values row, _, _, fits => recovers_variant_within
    (fun _ _ _ => (recovers_list fun _ _ v _ => v.recovers).map CallArgument.values) (fun _ _ => rfl)
    (fun _ => rfl) fits
  | .record entries, _, _, fits => recovers_variant_within
    (fun _ _ _ => (Record.recovers entries).map CallArgument.record) (fun _ _ => rfl) (fun _ => rfl)
    fits
  | .limit n, _, _, fits => recovers_variant_within
    (fun _ _ _ => (recovers_u64 n).map CallArgument.limit) (fun _ _ => rfl) (fun _ => rfl) fits
  | .joinKind kind, _, _, fits => recovers_variant_within
    (fun _ _ _ => (recovers_named kind.ofName?_name).map CallArgument.joinKind) (fun _ _ => rfl)
    (fun _ => rfl) fits
  | .assignment x operation, _, _, fits => by
    apply recovers_within (fun _ => rfl) _ fits
    intro limit fuel inside
    have pairFits := inside _ (List.mem_singleton.2 rfl)
    cases limit with
    | zero =>
      simp [Recovers, CallArgument.decodeWithin, variant?, fields?]
    | succ limit =>
      have property : Recovers limit (Expression.decodeWithin fuel) x.encode x :=
        x.recovers (pairFits.above _ List.mem_cons_self)
      have operation : Recovers limit _ _ _ := operation.recovers
      simp only [Recovers] at *
      rw [received_object]
      simp only [List.map_cons, List.map_nil, CallArgument.decodeWithin, variant?]
      rw [fields?_received (by decide) (by rfl)]
      simp [property, operation, ite_bind, ite_and]

end

end DmlCompiler
