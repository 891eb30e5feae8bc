import DmlCompiler.Proofs.Json.Reading
import DmlCompiler.Proofs.Results
import DmlCompiler.Transport.Decoding

/-! # What arrives

A reader gets of a document what its text holds and what does not lie too deep. `Recovers` says that
it gets back the value behind the document if the whole of it arrives, and nothing otherwise. There is
one rule for each way of reading, so that a reader of records is read off its fields. -/
namespace DmlCompiler
namespace Json

variable {limit : Nat}

/-- What a reader of the text gets of a document that it follows `limit` levels down. -/
def received (limit : Nat) (x : Json) : Json := x.written.within limit

/-- Whether the text holds more than null for the leaf. -/
def survives : Json → Bool
  | .float x => x.isFinite
  | .unreadable => false
  | _ => true

/-- No number is lost in the text, and nothing lies too deep. -/
def Arrives (limit : Nat) (x : Json) : Prop :=
  x.depth ≤ limit ∧ x.AllLeaves (·.survives = true)

instance (x : Json) : Decidable (x.Arrives limit) := inferInstanceAs (Decidable (_ ∧ ∀ leaf ∈ x.leaves, _))

section Received

theorem writtenItems_eq (items : List Json) : writtenItems items = items.map written := by
  induction items with
  | nil => rfl
  | cons x xs ih => rw [writtenItems, ih, List.map_cons]

theorem writtenFields_eq (fields : List (String × Json)) :
    writtenFields fields = fields.map fun field => (field.1, field.2.written) := by
  induction fields with
  | nil => rfl
  | cons field fields ih => rw [writtenFields, ih, List.map_cons]

theorem withinItems_eq (items : List Json) : withinItems limit items = items.map (within limit) := by
  induction items with
  | nil => rfl
  | cons x xs ih => rw [withinItems, ih, List.map_cons]

theorem withinFields_eq (fields : List (String × Json)) :
    withinFields limit fields = fields.map fun field => (field.1, field.2.within limit) := by
  induction fields with
  | nil => rfl
  | cons field fields ih => rw [withinFields, ih, List.map_cons]

@[simp] theorem received_null : Json.null.received limit = .null := by simp [received, written, within]

@[simp] theorem received_bool (b : Bool) : (Json.bool b).received limit = .bool b := by
  simp [received, written, within]

@[simp] theorem received_integer (n : Int) : (Json.integer n).received limit = .integer n := by
  simp [received, written, within]

@[simp] theorem received_string (s : String) : (Json.string s).received limit = .string s := by
  simp [received, written, within]

theorem received_float (x : Binary64) :
    (Json.float x).received limit = if x.isFinite then .float x else .null := by
  rw [received, written]
  split <;> simp [within]

@[simp] theorem received_array_zero (items : List Json) :
    (Json.array items).received 0 = .unreadable := by
  simp [received, written, within]

@[simp] theorem received_object_zero (fields : List (String × Json)) :
    (Json.object fields).received 0 = .unreadable := by
  simp [received, written, within]

@[simp] theorem received_array (items : List Json) :
    (Json.array items).received (limit + 1) = .array (items.map (received limit)) := by
  simp [received, written, within, writtenItems_eq, withinItems_eq, Function.comp_def]

@[simp] theorem received_object (fields : List (String × Json)) :
    (Json.object fields).received (limit + 1) =
      .object (fields.map fun field => (field.1, field.2.received limit)) := by
  simp [received, written, within, writtenFields_eq, withinFields_eq, Function.comp_def]

end Received

section Arrives

theorem depthItems_le {items : List Json} : depthItems items ≤ limit ↔ ∀ x ∈ items, x.depth ≤ limit := by
  induction items with
  | nil => simp [depthItems]
  | cons x xs ih => rw [depthItems, Nat.max_le, ih, List.forall_mem_cons]

theorem depthFields_le {fields : List (String × Json)} :
    depthFields fields ≤ limit ↔ ∀ field ∈ fields, field.2.depth ≤ limit := by
  induction fields with
  | nil => simp [depthFields]
  | cons field fields ih => rw [depthFields, Nat.max_le, ih, List.forall_mem_cons]

@[simp] theorem arrives_null : Json.null.Arrives limit := by simp [Arrives, depth, survives]

@[simp] theorem arrives_bool (b : Bool) : (Json.bool b).Arrives limit := by
  simp [Arrives, depth, survives]

@[simp] theorem arrives_integer (n : Int) : (Json.integer n).Arrives limit := by
  simp [Arrives, depth, survives]

@[simp] theorem arrives_string (s : String) : (Json.string s).Arrives limit := by
  simp [Arrives, depth, survives]

theorem arrives_float {x : Binary64} : (Json.float x).Arrives limit ↔ x.isFinite = true := by
  simp [Arrives, depth, survives]

@[simp] theorem not_arrives_array (items : List Json) : ¬ (Json.array items).Arrives 0 := by
  simp [Arrives, depth]

@[simp] theorem not_arrives_object (fields : List (String × Json)) :
    ¬ (Json.object fields).Arrives 0 := by
  simp [Arrives, depth]

@[simp] theorem arrives_array {items : List Json} :
    (Json.array items).Arrives (limit + 1) ↔ ∀ x ∈ items, x.Arrives limit := by
  rw [Arrives, depth, Nat.add_le_add_iff_right, depthItems_le, allLeaves_array]
  exact forall₂_and.symm

@[simp] theorem arrives_object {fields : List (String × Json)} :
    (Json.object fields).Arrives (limit + 1) ↔ ∀ field ∈ fields, field.2.Arrives limit := by
  rw [Arrives, depth, Nat.add_le_add_iff_right, depthFields_le, allLeaves_object]
  exact forall₂_and.symm

end Arrives

section Whole

variable {x : Json}

theorem written_of_survives : x.AllLeaves (·.survives = true) → x.written = x := by
  induction x using by_parts with
  | null | bool | integer | string => exact fun _ => rfl
  | float x =>
    intro all
    exact if_pos (allLeaves_float.1 all)
  | unreadable =>
    intro all
    cases allLeaves_unreadable.1 all
  | array items ih =>
    intro all
    have each : items.map written = items.map id :=
      List.map_congr_left fun x there => ih x there (allLeaves_array.1 all x there)
    rw [written, writtenItems_eq, each, List.map_id]
  | object fields ih =>
    intro all
    have each : fields.map (fun field => (field.1, field.2.written)) = fields.map id :=
      List.map_congr_left fun field there =>
        congrArg (Prod.mk field.1) (ih field there (allLeaves_object.1 all field there))
    rw [written, writtenFields_eq, each, List.map_id]

theorem Arrives.received_eq (h : x.Arrives limit) : x.received limit = x := by
  rw [received, written_of_survives h.2, within_of_depth_le x h.1]

theorem readableItems_eq (items : List Json) : readableItems items = items.all isReadable := by
  induction items with
  | nil => rfl
  | cons x xs ih => rw [readableItems, ih, List.all_cons]

theorem readableFields_eq (fields : List (String × Json)) :
    readableFields fields = fields.all (·.2.isReadable) := by
  induction fields with
  | nil => rfl
  | cons field fields ih => rw [readableFields, ih, List.all_cons]

/-- A reader that takes everything readable takes a document if the whole of it arrives. -/
theorem isReadable_received (all : x.AllLeaves (·.survives = true)) :
    (x.received limit).isReadable = true ↔ x.Arrives limit := by
  induction x using by_parts generalizing limit with
  | null | bool | integer | string => simp [isReadable]
  | float x =>
    have finite : x.isFinite = true := allLeaves_float.1 all
    simp [received_float, arrives_float, finite, isReadable]
  | unreadable => cases allLeaves_unreadable.1 all
  | array items ih =>
    cases limit with
    | zero => simp [isReadable]
    | succ limit =>
      rw [received_array, isReadable, readableItems_eq, arrives_array, List.all_map, List.all_eq_true]
      exact forall₂_congr fun x there => ih x there (allLeaves_array.1 all x there)
  | object fields ih =>
    cases limit with
    | zero => simp [isReadable]
    | succ limit =>
      rw [received_object, isReadable, readableFields_eq, arrives_object, List.all_map,
        List.all_eq_true]
      exact forall₂_congr fun field there => ih field there (allLeaves_object.1 all field there)

/-- Every leaf of a free document survives. -/
theorem survives_document (d : JsonDocument) : d.value.AllLeaves (·.survives = true) := by
  have normal := normalize_leaves d.value
  rw [d.normal] at normal
  refine normal.imp fun leaf same => ?_
  cases leaf with
  | float x =>
    by_contra infinite
    simp_all [normalize, survives]
  | unreadable => cases same
  | _ => rfl

end Whole

variable {α β : Type} {read : Json → Option α} {x : Json} {a : α}

/-- The reader gets the value if its document arrives, and nothing otherwise. -/
def Recovers (limit : Nat) (read : Json → Option α) (x : Json) (a : α) : Prop :=
  read (x.received limit) = if x.Arrives limit then some a else none

section Rules

theorem recovers_text (s : String) : Recovers limit text? (.string s) s := by
  simp [Recovers, text?]

theorem recovers_bool (b : Bool) : Recovers limit bool? (.bool b) b := by
  simp [Recovers, bool?]

theorem recovers_integer {low high n : Int} (lower : low ≤ n) (upper : n ≤ high) :
    Recovers limit (integer? low high) (.integer n) n := by
  simp [Recovers, integer?, lower, upper]

/-- A number that is not finite is read as null, which is no number. -/
theorem recovers_number (x : Binary64) : Recovers limit number? (.float x) x := by
  unfold Recovers
  rw [received_float]
  simp only [arrives_float]
  split <;> rfl

theorem Recovers.map (h : Recovers limit read x a) (f : α → β) :
    Recovers limit (fun y => (read y).map f) x (f a) := by
  unfold Recovers at *
  dsimp only
  rw [h]
  split <;> rfl

theorem Recovers.map_to {f : α → β} {b : β} (h : Recovers limit read x a) (back : f a = b) :
    Recovers limit (fun y => (read y).map f) x b :=
  back ▸ h.map f

theorem recovers_natural {bound n : Nat} (small : n < bound) :
    Recovers limit (natural? bound) (ofNat n) n := by
  have lower : (0 : Int) ≤ n := Int.natCast_nonneg n
  have upper : (n : Int) ≤ bound - 1 := by omega
  exact (recovers_integer lower upper).map Int.toNat

/-- What the value is made of is read back in a second step. -/
theorem Recovers.bind {f : α → Option β} {b : β} (h : Recovers limit read x a) (back : f a = some b) :
    Recovers limit (fun y => (read y).bind f) x b := by
  unfold Recovers at *
  dsimp only
  rw [h]
  split
  · exact back
  · rfl

theorem recovers_variant {name : String} {decode : Json → Option α}
    (h : ∀ below, limit = below + 1 → Recovers below read x a)
    (opens : ∀ y, decode (.object [(name, y)]) = read y) (closed : decode .unreadable = none) :
    Recovers limit decode (variant name x) a := by
  cases limit with
  | zero => simp [Recovers, variant, closed]
  | succ below =>
    have payload := h below rfl
    simpa [Recovers, variant, opens] using payload

@[simp] theorem named?_string {ofName? : String → Option α} {name : String} :
    named? ofName? (.string name) = ofName? name := rfl

theorem recovers_named {ofName? : String → Option α} {name : String} (back : ofName? name = some a) :
    Recovers limit (named? ofName?) (.string name) a := by
  simp [Recovers, back]

theorem ite_bind {p : Prop} [Decidable p] {f : α → Option β} :
    (if p then some a else none).bind f = if p then f a else none := by
  split <;> rfl

theorem mapM_received {encode : α → Json} {xs : List α}
    (h : ∀ a ∈ xs, Recovers limit read (encode a) a) :
    (xs.map fun a => (encode a).received limit).mapM read =
      if ∀ a ∈ xs, (encode a).Arrives limit then some xs else none := by
  induction xs with
  | nil => simp
  | cons a xs ih =>
    obtain ⟨here, behind⟩ := List.forall_mem_cons.1 h
    rw [List.map_cons, List.mapM_cons, here, ih behind]
    simp only [Option.bind_eq_bind, ite_bind, List.forall_mem_cons, ite_and]
    rfl

theorem recovers_list {encode : α → Json} {xs : List α}
    (h : ∀ below, limit = below + 1 → ∀ a ∈ xs, Recovers below read (encode a) a) :
    Recovers limit (list? read) (.array (xs.map encode)) xs := by
  cases limit with
  | zero => simp [Recovers, list?]
  | succ below =>
    have items := mapM_received (h below rfl)
    simpa [Recovers, list?, Function.comp_def] using items

theorem received_object_ne_null (fields : List (String × Json)) :
    (Json.object fields).received limit ≠ .null := by
  cases limit <;> simp

/-- An absent part is null, and no part that is there becomes null on the way. -/
theorem recovers_optional {encode : α → Json} {o : Option α}
    (h : ∀ a, o = some a → Recovers limit read (encode a) a)
    (apart : ∀ a, o = some a → (encode a).received limit ≠ .null) :
    Recovers limit (fun y => optional? read (some y)) (orNull encode o) o := by
  cases o with
  | none => simp [Recovers, orNull, optional?]
  | some a =>
    have present := (h a rfl).map some
    unfold Recovers at *
    rw [orNull, ← present]
    dsimp only
    unfold optional?
    split
    · next eq => cases eq
    · next eq => exact (apart a rfl (Option.some.inj eq)).elim
    · next eq =>
      cases eq
      rfl

theorem unique?_of_mem {fields : List (String × Json)} {name : String} {x : Json}
    (distinct : (fields.map Prod.fst).Nodup) (mem : (name, x) ∈ fields) :
    unique? name fields = some (some x) := by
  have one : fields.filter (·.1 == name) = [(name, x)] := by
    induction fields with
    | nil => cases mem
    | cons field fields ih =>
      rw [List.map_cons, List.nodup_cons] at distinct
      rcases List.mem_cons.1 mem with rfl | mem
      · have others : fields.filter (·.1 == name) = [] := by
          rw [List.filter_eq_nil_iff]
          intro other found same
          have repeated := List.mem_map_of_mem (f := Prod.fst) found
          rw [eq_of_beq same] at repeated
          exact distinct.1 repeated
        simp [others]
      · have other : (field.1 == name) = false := by
          rw [beq_eq_false_iff_ne]
          intro same
          exact distinct.1 (same ▸ List.mem_map_of_mem mem)
        rw [List.filter_cons, other]
        exact ih distinct.2 mem
  rw [unique?, one]

theorem fields?_received {names : List String} {fields : List (String × Json)}
    (distinct : names.Nodup) (named : fields.map Prod.fst = names) :
    fields? names ((Json.object fields).received (limit + 1)) =
      some (fields.map fun field => some (field.2.received limit)) := by
  let arrived (field : String × Json) : String × Json := (field.1, field.2.received limit)
  have there : ((fields.map arrived).map Prod.fst).Nodup := by
    rw [List.map_map]
    rw [← named] at distinct
    exact distinct
  have each : ∀ part : List (String × Json), part ⊆ fields →
      (part.map Prod.fst).mapM (unique? · (fields.map arrived)) =
        some (part.map fun field => some (field.2.received limit)) := by
    intro part sub
    induction part with
    | nil => rfl
    | cons field part ih =>
      obtain ⟨here, behind⟩ := List.cons_subset.1 sub
      have read : unique? field.1 (fields.map arrived) = some (some (field.2.received limit)) :=
        unique?_of_mem there (List.mem_map_of_mem (f := arrived) here)
      rw [List.map_cons, List.mapM_cons, read, ih behind]
      rfl
  rw [received_object, fields?, ← named]
  exact each fields (List.Subset.refl _)

end Rules
end Json
end DmlCompiler
