import DmlCompiler.Mapping
import DmlCompiler.Proofs.Results

/-! # What attributes say

The attributes of a struct and of its fields are read entry by entry, over what was said before.
What they say in the end is told here from the entries as a whole: the last text under a key holds,
and a flag holds if it stands anywhere. A struct is accepted exactly if all entries are known where
they stand and the names that come out are identifiers. -/
namespace DmlCompiler

/-- The two rules for names accept the same names and refuse the others for the same cause. -/
theorem MappedName.check_eq (name : String) : MappedName.check name = Identifier.check name := by
  have words : MappedName.isReserved name = Identifier.isReserved name := rfl
  have limit : Identifier.maxLength = 63 := rfl
  unfold MappedName.check Identifier.check Identifier.checkShape
  rw [words]
  cases eq : name.toList with
  | nil =>
    rw [if_pos (String.isEmpty_iff.2 (String.toList_eq_nil_iff.1 eq))]
    rfl
  | cons first rest =>
    have nonempty : ¬ name.isEmpty = true := by
      intro empty
      rw [String.isEmpty_iff.1 empty] at eq
      cases eq
    have begins : (!Text.isLetter first && first != '_') = !(Text.isLetter first || first == '_') :=
      (Bool.not_or _ _).symm
    have word : Text.isWord first =
        (Text.isLetter first || first == '_' || Text.isDigit first) := by
      rw [Text.isWord, Bool.or_right_comm]
    simp only [nonempty, limit, begins, List.head?_cons, List.all_cons, word]
    generalize (Text.isLetter first || first == '_') = start
    by_cases long : 63 < name.utf8ByteSize
    · simp [long, bind, Except.bind]
    · cases start <;> by_cases all : rest.all Text.isWord = true <;>
        simp [long, all, bind, Except.bind]

namespace AttributeEntry

def textFor? (key : String) : AttributeEntry → Option String
  | .text other value => if other = key then some value else none
  | _ => none

def numberFor? (key : String) : AttributeEntry → Option Int
  | .number other n => if other = key then some n else none
  | _ => none

inductive IsForField : AttributeEntry → Prop
  | name (value : String) : IsForField (.text "name" value)
  | property (value : String) : IsForField (.text "property" value)
  | size {n : Int} (isWord : 0 ≤ n ∧ n < UInt32.size) : IsForField (.number "size" n)
  | primaryKey : IsForField (.flag "primary_key")
  | readOnly : IsForField (.flag "readonly")
  | skip : IsForField (.flag "skip")

inductive IsForStruct : AttributeEntry → Prop
  | table (value : String) : IsForStruct (.text "table" value)
  | readOnly : IsForStruct (.flag "read_only")
  | deny {flags : List String} (some : flags ≠ [])
      (areOperations : ∀ flag ∈ flags, flag ∈ deniable.map StatementKind.keyword) :
      IsForStruct (.list "deny" flags)

def operation? (flag : String) : Option StatementKind := deniable.find? (·.keyword == flag)

def denies : AttributeEntry → List StatementKind
  | .list key flags => if key = "deny" then flags.filterMap operation? else []
  | _ => []

variable {entry : AttributeEntry}

theorem eq_text {key value : String} (is : entry.key = key) (read : entry.asText = .ok value) :
    entry = .text key value := by
  cases entry with
  | text other value =>
    cases is
    cases read
    rfl
  | _ => cases read

theorem eq_flag {key : String} (is : entry.key = key) (read : entry.asFlag = .ok ()) :
    entry = .flag key := by
  cases entry with
  | flag other =>
    cases is
    rfl
  | _ => cases read

theorem asSize_eq_ok {size : UInt32} : entry.asSize = .ok size ↔
    ∃ n : Int, entry = .number entry.key n ∧ (0 ≤ n ∧ n < UInt32.size) ∧ .ofNat n.toNat = size := by
  cases entry with
  | number other n =>
    simp only [key, AttributeEntry.number.injEq, true_and, exists_eq_left']
    rw [asSize]
    split
    · next negative => exact ⟨nofun, fun h => absurd h.1.1 (Int.not_le.2 negative)⟩
    · next low =>
      split
      · next high =>
        exact ⟨fun h => ⟨⟨Int.not_lt.1 low, high⟩, Except.ok.inj h⟩, fun h => congrArg _ h.2⟩
      · next large => exact ⟨nofun, fun h => absurd h.1.2 large⟩
  | _ => simp [asSize]

theorem operation_eq_ok {flag : String} {kind : StatementKind} :
    operation flag = .ok kind ↔ operation? flag = some kind := by
  unfold operation operation?
  cases deniable.find? (·.keyword == flag) <;> simp

theorem isSome_operation? {flag : String} :
    (operation? flag).isSome = true ↔ flag ∈ deniable.map StatementKind.keyword := by
  simp [operation?]

theorem operations_eq_ok {flags : List String} {kinds : List StatementKind} :
    flags.mapM operation = .ok kinds ↔
      (∀ flag ∈ flags, flag ∈ deniable.map StatementKind.keyword) ∧
        flags.filterMap operation? = kinds := by
  induction flags generalizing kinds with
  | nil => simp [pure, Except.pure]
  | cons flag flags ih =>
    rw [List.mapM_cons, List.forall_mem_cons, bind_eq_ok, ← isSome_operation?,
      Option.isSome_iff_exists]
    constructor
    · rintro ⟨kind, first, h⟩
      obtain ⟨rest, later, eq⟩ := bind_eq_ok.1 h
      obtain ⟨all, rfl⟩ := ih.1 later
      rw [operation_eq_ok] at first
      exact ⟨⟨⟨kind, first⟩, all⟩, by rw [List.filterMap_cons_some first, Except.ok.inj eq]⟩
    · rintro ⟨⟨⟨kind, first⟩, all⟩, rfl⟩
      refine ⟨kind, operation_eq_ok.2 first, bind_eq_ok.2 ⟨_, ih.2 ⟨all, rfl⟩, ?_⟩⟩
      rw [List.filterMap_cons_some first]
      rfl

theorem isForField_of_readEntry {m m' : ColumnMapping} (h : m.readEntry entry = .ok m') :
    entry.IsForField := by
  unfold ColumnMapping.readEntry at h
  split at h
  case h_1 is =>
    obtain ⟨value, text, _⟩ := bind_eq_ok.1 h
    obtain rfl := eq_text is text
    exact .name value
  case h_2 is =>
    obtain ⟨value, text, _⟩ := bind_eq_ok.1 h
    obtain rfl := eq_text is text
    exact .property value
  case h_3 is =>
    obtain ⟨_, number, _⟩ := bind_eq_ok.1 h
    obtain ⟨n, isNumber, isWord, _⟩ := asSize_eq_ok.1 number
    rw [isNumber, is]
    exact .size isWord
  case h_4 is =>
    obtain ⟨_, flag, _⟩ := bind_eq_ok.1 h
    obtain rfl := eq_flag is flag
    exact .primaryKey
  case h_5 is =>
    obtain ⟨_, flag, _⟩ := bind_eq_ok.1 h
    obtain rfl := eq_flag is flag
    exact .readOnly
  case h_6 is =>
    obtain ⟨_, flag, _⟩ := bind_eq_ok.1 h
    obtain rfl := eq_flag is flag
    exact .skip
  case h_7 => cases h

theorem isForStruct_of_readEntry {m m' : TableMapping} {atEnd : Bool}
    (h : m.readEntry atEnd entry = .ok m') : entry.IsForStruct := by
  unfold TableMapping.readEntry at h
  split at h
  case h_1 is =>
    obtain ⟨value, text, _⟩ := bind_eq_ok.1 h
    obtain rfl := eq_text is text
    exact .table value
  case h_2 is =>
    obtain ⟨_, flag, _⟩ := bind_eq_ok.1 h
    obtain rfl := eq_flag is flag
    exact .readOnly
  case h_3 is =>
    obtain ⟨kinds, list, _⟩ := bind_eq_ok.1 h
    cases entry with
    | list key flags =>
      obtain rfl : key = "deny" := is
      cases flags with
      | nil => cases list
      | cons flag flags => exact .deny (List.cons_ne_nil _ _) (operations_eq_ok.1 list).1
    | _ => cases list
  case h_4 => cases h

end AttributeEntry

namespace Attribute

variable (done : Attribute) (entry : AttributeEntry)

def last? {α : Type} (entries : Attribute) (read : AttributeEntry → Option α) : Option α :=
  (entries.filterMap read).getLast?

def has (entries : Attribute) (key : String) : Bool := entries.any (· == .flag key)

@[simp] theorem last?_concat {α : Type} (read : AttributeEntry → Option α) :
    last? (done ++ [entry]) read = (read entry).or (last? done read) := by
  rw [last?, List.filterMap_append, List.getLast?_append]
  cases eq : read entry <;> simp [last?, eq]

@[simp] theorem has_concat (key : String) :
    has (done ++ [entry]) key = (has done key || entry == .flag key) := by
  simp [has]

end Attribute

namespace FieldDescription

variable {f : FieldDescription} {done : Attribute} {m : ColumnMapping}

def after (f : FieldDescription) (entries : Attribute) : ColumnMapping where
  field := f.name
  property := (entries.last? (·.textFor? "property")).getD f.name
  column := (entries.last? (·.textFor? "name")).getD f.name
  type := ColumnMapping.compactType f.type
  size := (entries.last? (·.numberFor? "size")).map fun n => .ofNat n.toNat
  primaryKey := entries.has "primary_key"
  readOnly := entries.has "readonly"
  skip := entries.has "skip"

/-- An entry that fields know is read, and what it says is said of the entries as a whole. -/
theorem readEntry_after {entry : AttributeEntry} (known : entry.IsForField) :
    (f.after done).readEntry entry = .ok (f.after (done ++ [entry])) := by
  cases known with
  | @size n isWord =>
    have size : (AttributeEntry.number "size" n).asSize = .ok (.ofNat n.toNat) :=
      AttributeEntry.asSize_eq_ok.2 ⟨n, rfl, isWord, rfl⟩
    simp [ColumnMapping.readEntry, after, AttributeEntry.key, size, AttributeEntry.textFor?,
      AttributeEntry.numberFor?, pure, bind, Except.pure, Except.bind]
  | _ =>
    simp [ColumnMapping.readEntry, after, AttributeEntry.key, AttributeEntry.asText,
      AttributeEntry.asFlag, AttributeEntry.textFor?, AttributeEntry.numberFor?, pure, bind,
      Except.pure, Except.bind]

theorem readEntries_after {entries : Attribute} :
    entries.foldlM ColumnMapping.readEntry (f.after done) = .ok m ↔
      (∀ entry ∈ entries, entry.IsForField) ∧ f.after (done ++ entries) = m := by
  induction entries generalizing done with
  | nil => simp [pure, Except.pure]
  | cons entry entries ih =>
    rw [List.foldlM_cons, bind_eq_ok, List.forall_mem_cons]
    constructor
    · rintro ⟨_, read, rest⟩
      have known := AttributeEntry.isForField_of_readEntry read
      cases (readEntry_after known).symm.trans read
      obtain ⟨all, rfl⟩ := ih.1 rest
      exact ⟨⟨known, all⟩, by simp⟩
    · rintro ⟨⟨known, all⟩, rfl⟩
      exact ⟨_, readEntry_after known, ih.2 ⟨all, by simp⟩⟩

def entries (f : FieldDescription) : Attribute := f.attributes.flatten

def mapping (f : FieldDescription) : ColumnMapping := f.after f.entries

def property (f : FieldDescription) : String :=
  (f.entries.last? (·.textFor? "property")).getD f.name

def columnName (f : FieldDescription) : String :=
  (f.entries.last? (·.textFor? "name")).getD f.name

def isSkipped (f : FieldDescription) : Bool := f.entries.has "skip"

structure IsMappable (f : FieldDescription) : Prop where
  entries : ∀ entry ∈ f.entries, entry.IsForField
  names : f.isSkipped = false → Identifier.check f.columnName = .ok () ∧ f.property ≠ ""

end FieldDescription

theorem ColumnMapping.check_eq_ok {m : ColumnMapping} : m.check = .ok () ↔
    (m.skip = false → Identifier.check m.column = .ok () ∧ m.property ≠ "") := by
  unfold check
  rw [MappedName.check_eq]
  cases m.skip with
  | true => simp
  | false =>
    cases checked : Identifier.check m.column with
    | error cause => simp
    | ok => simp

theorem ColumnMapping.ofField_eq_ok {f : FieldDescription} {m : ColumnMapping} :
    ofField f = .ok m ↔ f.IsMappable ∧ f.mapping = m := by
  have run : ofField f = f.entries.foldlM readEntry (f.after []) >>= fun m => do
      m.check
      return m := rfl
  rw [run, bind_eq_ok]
  constructor
  · rintro ⟨_, read, h⟩
    obtain ⟨known, rfl⟩ := FieldDescription.readEntries_after.1 read
    obtain ⟨_, checked, eq⟩ := bind_eq_ok.1 h
    exact ⟨⟨known, check_eq_ok.1 checked⟩, Except.ok.inj eq⟩
  · rintro ⟨⟨known, named⟩, rfl⟩
    exact ⟨_, FieldDescription.readEntries_after.2 ⟨known, rfl⟩,
      bind_eq_ok.2 ⟨(), check_eq_ok.2 named, rfl⟩⟩

theorem ColumnMapping.repeated?_eq_none {ms : List ColumnMapping} {seen : List String} :
    repeated? ms seen = none ↔
      (ms.map (·.property)).Nodup ∧ ∀ m ∈ ms, m.property ∉ seen := by
  induction ms generalizing seen with
  | nil => simp [repeated?]
  | cons m ms ih =>
    rw [repeated?, List.map_cons, List.nodup_cons, List.forall_mem_cons]
    split
    · next again => simp_all
    · next new =>
      have other : m.property ∉ ms.map (·.property) ↔ ∀ m' ∈ ms, m'.property ≠ m.property := by
        simp
      have fresh : m.property ∉ seen := by simpa using new
      simp only [ih, List.mem_cons, not_or, forall_and, other, fresh, not_false_eq_true, true_and]
      exact ⟨fun ⟨distinct, new, rest⟩ => ⟨⟨new, distinct⟩, rest⟩,
        fun ⟨⟨new, distinct⟩, rest⟩ => ⟨distinct, new, rest⟩⟩

namespace StructDescription

variable {d : StructDescription} {done : Attribute} {m : TableMapping}

def after (d : StructDescription) (entries : Attribute) : TableMapping where
  name := d.name
  table := (entries.last? (·.textFor? "table")).getD d.name
  readOnly := entries.has "read_only"
  denied := entries.flatMap (·.denies)

theorem readEntry_after {entry : AttributeEntry} {atEnd : Bool} (known : entry.IsForStruct) :
    (d.after done).readEntry atEnd entry = .ok (d.after (done ++ [entry])) := by
  cases known with
  | @deny flags some areOperations =>
    have read : (AttributeEntry.list "deny" flags).asOperations atEnd =
        .ok (flags.filterMap AttributeEntry.operation?) := by
      cases flags with
      | nil => exact absurd rfl some
      | cons flag flags => exact AttributeEntry.operations_eq_ok.2 ⟨areOperations, rfl⟩
    simp [TableMapping.readEntry, after, AttributeEntry.key, read, AttributeEntry.textFor?,
      AttributeEntry.denies, pure, bind, Except.pure, Except.bind]
  | _ =>
    simp [TableMapping.readEntry, after, AttributeEntry.key, AttributeEntry.asText,
      AttributeEntry.asFlag, AttributeEntry.textFor?, AttributeEntry.denies, pure, bind,
      Except.pure, Except.bind]

theorem readAttribute_after {entries : Attribute} :
    (d.after done).readAttribute entries = .ok m ↔
      (∀ entry ∈ entries, entry.IsForStruct) ∧ d.after (done ++ entries) = m := by
  induction entries generalizing done with
  | nil => simp [TableMapping.readAttribute]
  | cons entry entries ih =>
    rw [TableMapping.readAttribute, bind_eq_ok, List.forall_mem_cons]
    constructor
    · rintro ⟨_, read, rest⟩
      have known := AttributeEntry.isForStruct_of_readEntry read
      cases (readEntry_after known).symm.trans read
      obtain ⟨all, rfl⟩ := ih.1 rest
      exact ⟨⟨known, all⟩, by simp⟩
    · rintro ⟨⟨known, all⟩, rfl⟩
      exact ⟨_, readEntry_after known, ih.2 ⟨all, by simp⟩⟩

theorem readAttributes_after {attributes : List Attribute} :
    attributes.foldlM TableMapping.readAttribute (d.after done) = .ok m ↔
      (∀ entry ∈ attributes.flatten, entry.IsForStruct) ∧
        d.after (done ++ attributes.flatten) = m := by
  induction attributes generalizing done with
  | nil => simp [pure, Except.pure]
  | cons entries attributes ih =>
    rw [List.foldlM_cons, bind_eq_ok, List.flatten_cons, List.forall_mem_append,
      ← List.append_assoc]
    constructor
    · rintro ⟨_, read, rest⟩
      obtain ⟨known, rfl⟩ := readAttribute_after.1 read
      obtain ⟨all, rfl⟩ := ih.1 rest
      exact ⟨⟨known, all⟩, rfl⟩
    · rintro ⟨⟨known, all⟩, rfl⟩
      exact ⟨_, readAttribute_after.2 ⟨known, rfl⟩, ih.2 ⟨all, rfl⟩⟩

def entries (d : StructDescription) : Attribute := d.attributes.flatten

def tableName (d : StructDescription) : String :=
  (d.entries.last? (·.textFor? "table")).getD d.name

def mappedFields (d : StructDescription) : List FieldDescription :=
  d.fields.filter (!·.isSkipped)

theorem table_eq_ok : d.table = .ok m ↔ (∀ entry ∈ d.entries, entry.IsForStruct) ∧
    Identifier.check d.tableName = .ok () ∧ d.after d.entries = m := by
  have read {m : TableMapping} :
      d.attributes.foldlM TableMapping.readAttribute (d.after []) = .ok m ↔
        (∀ entry ∈ d.entries, entry.IsForStruct) ∧ d.after d.entries = m := readAttributes_after
  have named : (d.after d.entries).table = d.tableName := rfl
  have start : (⟨d.name, d.name, false, []⟩ : TableMapping) = d.after [] := rfl
  unfold table
  rw [start, bind_eq_ok]
  constructor
  · rintro ⟨_, entries, h⟩
    obtain ⟨known, rfl⟩ := read.1 entries
    rw [MappedName.check_eq, named] at h
    cases accepted : Identifier.check d.tableName with
    | ok =>
      rw [accepted] at h
      exact ⟨known, rfl, Except.ok.inj h⟩
    | error cause =>
      rw [accepted] at h
      cases h
  · rintro ⟨known, accepted, rfl⟩
    refine ⟨_, read.2 ⟨known, rfl⟩, ?_⟩
    rw [MappedName.check_eq, named, accepted]
    rfl

theorem mem_mappedFields {f : FieldDescription} :
    f ∈ d.mappedFields ↔ f ∈ d.fields ∧ f.isSkipped = false := by
  simp [mappedFields]

theorem filter_mapping :
    (d.fields.map (·.mapping)).filter (!·.skip) = d.mappedFields.map (·.mapping) := by
  rw [List.filter_map]
  rfl

theorem columns_eq_ok {ms : List ColumnMapping} : d.columns = .ok ms ↔
    d.shape = .named ∧ (∀ f ∈ d.fields, f.IsMappable) ∧
      (d.mappedFields.map (·.property)).Nodup ∧ d.fields.map (·.mapping) = ms := by
  have distinct : ColumnMapping.repeated? ((d.fields.map (·.mapping)).filter (!·.skip)) [] = none ↔
      (d.mappedFields.map (·.property)).Nodup := by
    rw [ColumnMapping.repeated?_eq_none, filter_mapping, List.map_map]
    exact and_iff_left fun _ _ => List.not_mem_nil
  have fields {ms : List ColumnMapping} : d.fields.mapM ColumnMapping.ofField = .ok ms ↔
      (∀ f ∈ d.fields, f.IsMappable) ∧ d.fields.map (·.mapping) = ms :=
    mapM_eq_ok_iff fun _ _ => ColumnMapping.ofField_eq_ok
  unfold columns
  by_cases named : d.shape = .named
  · rw [if_neg (not_not.2 named), bind_eq_ok]
    constructor
    · rintro ⟨_, read, h⟩
      obtain ⟨mappable, rfl⟩ := fields.1 read
      split at h
      · cases h
      · next once => exact ⟨named, mappable, distinct.1 once, Except.ok.inj h⟩
    · rintro ⟨_, mappable, different, rfl⟩
      refine ⟨_, fields.2 ⟨mappable, rfl⟩, ?_⟩
      rw [distinct.2 different]
      rfl
  · rw [if_pos named]
    exact ⟨nofun, fun h => absurd h.1 named⟩

structure IsAcceptable (d : StructDescription) : Prop where
  isNamed : d.shape = .named
  entries : ∀ entry ∈ d.entries, entry.IsForStruct
  table : Identifier.check d.tableName = .ok ()
  fields : ∀ f ∈ d.fields, f.IsMappable
  distinct : (d.mappedFields.map (·.property)).Nodup

def mapping (d : StructDescription) : EntityMapping :=
  ⟨d.after d.entries, d.fields.map (·.mapping)⟩

end StructDescription

/-- A struct is mapped exactly if it is acceptable, and to what its attributes say as a whole. -/
theorem EntityMapping.ofStruct_eq_ok {d : StructDescription} {m : EntityMapping} :
    ofStruct d = .ok m ↔ d.IsAcceptable ∧ d.mapping = m := by
  have run : ofStruct d = d.table >>= fun table => d.columns >>= fun columns =>
      pure ⟨table, columns⟩ := rfl
  rw [run, bind_eq_ok]
  constructor
  · rintro ⟨table, isTable, h⟩
    obtain ⟨columns, areColumns, eq⟩ := bind_eq_ok.1 h
    obtain ⟨entries, named, rfl⟩ := StructDescription.table_eq_ok.1 isTable
    obtain ⟨shape, fields, distinct, rfl⟩ := StructDescription.columns_eq_ok.1 areColumns
    exact ⟨⟨shape, entries, named, fields, distinct⟩, Except.ok.inj eq⟩
  · rintro ⟨h, rfl⟩
    exact ⟨_, StructDescription.table_eq_ok.2 ⟨h.entries, h.table, rfl⟩, bind_eq_ok.2
      ⟨_, StructDescription.columns_eq_ok.2 ⟨h.isNamed, h.fields, h.distinct, rfl⟩, rfl⟩⟩

end DmlCompiler
