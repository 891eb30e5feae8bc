import DmlCompiler.Proofs.Timestamp
import DmlCompiler.Proofs.Transport.Arrival
import DmlCompiler.Proofs.Uuid

/-! # Values and commands arrive

Whatever is written for a value, a record of values or a finished command is read back as it was, or
not at all. -/
namespace DmlCompiler

open Json

variable {limit : Nat}

section Kinds

@[simp] theorem ColumnType.ofName?_name (t : ColumnType) : ofName? t.name = some t :=
  find?_name (by cases t <;> decide) (by decide)

@[simp] theorem StatementKind.ofName?_name (k : StatementKind) : ofName? k.name = some k :=
  find?_name (by cases k <;> decide) (by decide)

@[simp] theorem FunctionKind.ofName?_name (k : FunctionKind) : ofName? k.name = some k :=
  find?_name (by cases k <;> decide) (by decide)

@[simp] theorem Operator.ofName?_name (o : Operator) : ofName? o.name = some o :=
  find?_name (by cases o <;> decide) (by decide)

@[simp] theorem Connective.ofName?_name (c : Connective) : ofName? c.name = some c :=
  find?_name (by cases c <;> decide) (by decide)

@[simp] theorem SortOrder.ofName?_name (s : SortOrder) : ofName? s.name = some s :=
  find?_name (by cases s <;> decide) (by decide)

@[simp] theorem JoinKind.ofName?_name (k : JoinKind) : ofName? k.name = some k :=
  find?_name (by cases k <;> decide) (by decide)

@[simp] theorem Method.ofName?_name (m : Method) : ofName? m.name = some m :=
  find?_name (by cases m <;> decide) (by decide)

end Kinds

section Words

theorem recovers_u8 (n : UInt8) : Recovers limit u8? (ofNat n.toNat) n :=
  (recovers_natural n.toNat_lt).map_to UInt8.ofNat_toNat

theorem recovers_u32 (n : UInt32) : Recovers limit u32? (ofNat n.toNat) n :=
  (recovers_natural n.toNat_lt).map_to UInt32.ofNat_toNat

theorem recovers_u64 (n : UInt64) : Recovers limit u64? (ofNat n.toNat) n :=
  (recovers_natural n.toNat_lt).map_to UInt64.ofNat_toNat

theorem recovers_size (size : Option UInt32) :
    Recovers limit (fun y => optional? u32? (some y)) (sizeJson size) size :=
  recovers_optional (fun n _ => recovers_u32 n) fun _ _ => by simp [ofNat]

end Words

/-- A free document is taken if the whole of it arrives. -/
theorem recovers_document (d : JsonDocument) :
    Recovers limit (fun y => if y.isReadable then some (JsonDocument.of y) else none) d.value d := by
  have readable : (d.value.received limit).isReadable = true ↔ d.value.Arrives limit :=
    isReadable_received (survives_document d)
  unfold Recovers
  dsimp only
  by_cases arrives : d.value.Arrives limit
  · rw [if_pos (readable.2 arrives), if_pos arrives, arrives.received_eq, JsonDocument.of_value]
  · rw [if_neg fun taken => arrives (readable.1 taken), if_neg arrives]

namespace SqlValue

theorem recovers_variant {name : String} {x : Json} {v : SqlValue} {read : Json → Option SqlValue}
    (h : ∀ limit, Recovers limit read x v) (opens : ∀ y, decode? (.object [(name, y)]) = read y) :
    Recovers limit decode? (variant name x) v :=
  Json.recovers_variant (fun _ _ => h _) opens rfl

theorem recovers (v : SqlValue) : Recovers limit decode? v.encode v := by
  cases v with
  | null => simp [Recovers, encode, decode?, variant?]
  | boolean b => exact recovers_variant (fun _ => (recovers_bool b).map boolean) fun _ => rfl
  | smallInt n =>
    exact recovers_variant (fun _ => (recovers_integer n.minValue_le_toInt n.toInt_le).map_to
      (congrArg smallInt n.ofInt_toInt)) fun _ => rfl
  | integer n =>
    exact recovers_variant (fun _ => (recovers_integer n.minValue_le_toInt n.toInt_le).map_to
      (congrArg integer n.ofInt_toInt)) fun _ => rfl
  | bigInt n =>
    exact recovers_variant (fun _ => (recovers_integer n.minValue_le_toInt n.toInt_le).map_to
      (congrArg bigInt n.ofInt_toInt)) fun _ => rfl
  | float x => exact recovers_variant (fun _ => (recovers_number x).map float) fun _ => rfl
  | text s => exact recovers_variant (fun _ => (recovers_text s).map text) fun _ => rfl
  | uuid u =>
    exact recovers_variant (fun _ => ((recovers_text _).bind u.ofText?_text).map uuid) fun _ => rfl
  | timestamp t =>
    exact recovers_variant (fun _ => ((recovers_text _).bind t.ofText?_text).map timestamp)
      fun _ => rfl
  | decimal s => exact recovers_variant (fun _ => (recovers_text s).map decimal) fun _ => rfl
  | json d =>
    apply recovers_variant fun _ => (recovers_document d).map json
    intro y
    by_cases readable : y.isReadable = true <;> simp [decode?, variant?, readable]
  | bytes b =>
    exact recovers_variant
      (fun _ => (recovers_list fun _ _ byte _ => recovers_u8 byte).map bytes) fun _ => rfl

end SqlValue

theorem Record.recovers_entry (entry : String × SqlValue) :
    Recovers limit decodeEntry? (.array [.string entry.1, entry.2.encode]) entry := by
  cases limit with
  | zero => simp [Recovers, decodeEntry?]
  | succ limit =>
    have value : Recovers limit SqlValue.decode? entry.2.encode entry.2 := entry.2.recovers
    unfold Recovers at *
    simp [text?, value, ite_bind, decodeEntry?]

theorem Record.recovers (r : Record) : Recovers limit Record.decode? (Record.encode r) r :=
  recovers_list fun _ _ entry _ => recovers_entry entry

theorem Permissions.recovers (p : Permissions) :
    Recovers limit Permissions.decode? p.encode p := by
  cases limit with
  | zero => simp [Recovers, encode, decode?, fields?]
  | succ limit =>
    unfold Recovers
    rw [decode?, encode, fields?_received (by decide) (by rfl)]
    simp [bool?]

theorem ColumnType.recovers (t : ColumnType) : Recovers limit ColumnType.decode? t.encode t :=
  recovers_named t.ofName?_name

theorem ColumnRef.recovers (c : ColumnRef) : Recovers limit ColumnRef.decode? c.encode c := by
  cases limit with
  | zero => simp [Recovers, encode, decode?, fields?]
  | succ limit =>
    have type : Recovers limit _ _ _ := c.type.recovers
    have size : Recovers limit _ _ _ := recovers_size c.size
    have permissions : Recovers limit _ _ _ := c.permissions.recovers
    simp only [Recovers] at *
    rw [decode?, encode, fields?_received (by decide) (by rfl)]
    simp [text?, type, size, permissions, ite_bind, ite_and]

theorem Page.recovers (p : Page) : Recovers limit Page.decode? p.encode p := by
  cases limit with
  | zero => simp [Recovers, encode, decode?, fields?]
  | succ limit =>
    have bound (n : Option UInt64) : Recovers limit (fun y => optional? u64? (some y))
        (orNull (fun n => ofNat n.toNat) n) n :=
      recovers_optional (fun n _ => recovers_u64 n) fun _ _ => by simp [ofNat]
    simp only [Recovers] at *
    rw [decode?, encode, fields?_received (by decide) (by rfl)]
    simp [bound, ite_bind, ite_and]

theorem recovers_page (p : Option Page) :
    Recovers limit (fun y => optional? Page.decode? (some y)) (orNull Page.encode p) p :=
  recovers_optional (fun p _ => p.recovers) fun _ _ => received_object_ne_null _

theorem Parameter.recovers (p : Parameter) : Recovers limit Parameter.decode? p.encode p := by
  cases limit with
  | zero => simp [Recovers, encode, decode?, fields?]
  | succ limit =>
    have value : Recovers limit _ _ _ := p.value.recovers
    have type : Recovers limit (fun y => optional? ColumnType.decode? (some y))
        (orNull ColumnType.encode p.type) p.type :=
      recovers_optional (fun t _ => t.recovers) fun t _ => by simp [ColumnType.encode]
    have size : Recovers limit _ _ _ := recovers_size p.size
    simp only [Recovers] at *
    rw [decode?, encode, fields?_received (by decide) (by rfl)]
    simp [text?, bare?, variant?, guard, value, type, size, ite_bind, ite_and]

theorem Command.recovers (c : Command) : Recovers limit Command.decode? c.encode c := by
  cases limit with
  | zero => simp [Recovers, encode, decode?, fields?]
  | succ limit =>
    have parameters : Recovers limit (list? Parameter.decode?)
        (.array (c.parameters.map Parameter.encode)) c.parameters :=
      recovers_list fun _ _ p _ => p.recovers
    have page : Recovers limit _ _ _ := recovers_page c.page
    simp only [Recovers] at *
    rw [decode?, encode, fields?_received (by decide) (by rfl)]
    simp [text?, parameters, page, ite_bind, ite_and]

theorem Function.recovers (f : Function) : Recovers limit Function.decode? f.encode f := by
  cases limit with
  | zero => simp [Recovers, encode, decode?, fields?]
  | succ limit =>
    have params : Recovers limit (list? SqlValue.decode?)
        (.array (f.params.map SqlValue.encode)) f.params :=
      recovers_list fun _ _ v _ => v.recovers
    simp only [Recovers] at *
    rw [decode?, encode, fields?_received (by decide) (by rfl)]
    simp [params, ite_bind]

theorem UpdateOperation.recovers (o : UpdateOperation) :
    Recovers limit UpdateOperation.decode? o.encode o := by
  cases o with
  | set v => exact recovers_variant (fun _ _ => v.recovers.map set) (fun _ => rfl) rfl
  | increment v => exact recovers_variant (fun _ _ => v.recovers.map increment) (fun _ => rfl) rfl
  | decrement v => exact recovers_variant (fun _ _ => v.recovers.map decrement) (fun _ => rfl) rfl
  | multiply v => exact recovers_variant (fun _ _ => v.recovers.map multiply) (fun _ => rfl) rfl
  | divide v => exact recovers_variant (fun _ _ => v.recovers.map divide) (fun _ => rfl) rfl

end DmlCompiler
