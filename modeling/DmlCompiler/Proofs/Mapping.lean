import DmlCompiler.Mapping.Record
import DmlCompiler.Proofs.Attributes
import DmlCompiler.Proofs.Mapping.Reading
import DmlCompiler.Proofs.Registration

/-! # The entity of a struct

Whatever the attributes of a struct say, in whatever order and how often: if the struct is accepted,
its entity can be registered and used. Every field that is not skipped has a column, its property
leads to this column and to no other one, and the records of the struct hold its value under the
same property. -/
namespace DmlCompiler

def FieldDescription.toColumn (f : FieldDescription) : Column :=
  let type := FieldType.columnType (ColumnMapping.compactType f.type)
  { property := f.property
    column := f.columnName
    type := type
    size := (f.entries.last? (·.numberFor? "size")).map (fun n => .ofNat n.toNat) <|> type.width?
    permissions :=
      { insert := !f.entries.has "readonly"
        update := !f.entries.has "readonly" && !f.entries.has "primary_key" }
    primaryKey := f.entries.has "primary_key" }

/-- The entity can be registered and used for values of the struct. -/
structure EntityMapping.IsUsableFor (m : EntityMapping) (d : StructDescription) : Prop where
  /-- A registry takes the entity, also if it validates, and then gives it for the struct's name. -/
  registered : ∀ r : Registry,
    ∃ r', r.register m.entity = .ok r' ∧ r'.entity d.name = .ok m.entity
  table : m.entity.table = d.tableName
  columns : m.entity.columns = d.mappedFields.map (·.toColumn)
  /-- Each property leads to the column of its own field. -/
  found : ∀ f ∈ d.mappedFields, m.entity.column? f.property = some f.toColumn
  /-- The description that is generated for the struct says what the entity is. -/
  described : Code.Tells .description (Code.entityImplementation d.name m.entity) (d.name, m.entity)
  /-- The conversion is generated from the fields alone. -/
  fields : d.columns = .ok m.columns
  /-- It pairs the properties of the entity with the values of their fields. -/
  pairs : Code.recordPairs m.columns = d.mappedFields.map fun f =>
    (f.property, Code.fieldValue f.name (ColumnMapping.compactType f.type))
  /-- The generated conversion says these pairs, and which values are converted directly. -/
  converted : Code.Tells .conversion (Code.recordImplementation d.name m.columns)
    (d.name, d.mappedFields.map fun f =>
      (f.property, f.name, FieldType.isDirect (ColumnMapping.compactType f.type)))
  properties : (Code.recordPairs m.columns).map Prod.fst = m.entity.columns.map (·.property)
  /-- The records of struct values have the same properties, with the values of the fields. -/
  records : ∀ value, m.record? value = d.mappedFields.mapM fun f =>
    (FieldType.value? (ColumnMapping.compactType f.type) ((value.get? f.name).getD .null)).map
      (f.property, ·)

namespace StructDescription

variable {d : StructDescription}

theorem mapping_columns : d.mapping.entity.columns = d.mappedFields.map (·.toColumn) := by
  have columns : d.mapping.entity.columns =
      ((d.fields.map (·.mapping)).filter (!·.skip)).map ColumnMapping.toColumn := rfl
  rw [columns, filter_mapping, List.map_map]
  rfl

theorem mapping_pairs : Code.recordPairs d.mapping.columns = d.mappedFields.map fun f =>
    (f.property, Code.fieldValue f.name (ColumnMapping.compactType f.type)) := by
  have pairs : Code.recordPairs d.mapping.columns =
      ((d.fields.map (·.mapping)).filter (!·.skip)).map fun m =>
        (m.property, Code.fieldValue m.field m.type) := rfl
  rw [pairs, filter_mapping, List.map_map]
  rfl

theorem mapping_converted : Code.Tells .conversion
    (Code.recordImplementation d.name d.mapping.columns) (d.name, d.mappedFields.map fun f =>
      (f.property, f.name, FieldType.isDirect (ColumnMapping.compactType f.type))) := by
  have told := Code.recordImplementation_tells d.name d.mapping.columns
  have columns : d.mapping.columns = d.fields.map (·.mapping) := rfl
  rw [columns, filter_mapping, List.map_map] at told
  exact told

theorem mapping_records (value : Json) : d.mapping.record? value = d.mappedFields.mapM fun f =>
    (FieldType.value? (ColumnMapping.compactType f.type) ((value.get? f.name).getD .null)).map
      (f.property, ·) := by
  have records : d.mapping.record? value =
      ((d.fields.map (·.mapping)).filter (!·.skip)).mapM fun m =>
        FieldType.value? m.type ((value.get? m.field).getD .null) >>= fun v =>
          some (m.property, v) := rfl
  have field (f : FieldDescription) :
      (FieldType.value? f.mapping.type ((value.get? f.mapping.field).getD .null) >>= fun v =>
        some (f.mapping.property, v)) =
      (FieldType.value? (ColumnMapping.compactType f.type) ((value.get? f.name).getD .null)).map
        (f.property, ·) := Option.map_eq_bind.symm
  rw [records, filter_mapping, List.mapM_map]
  exact congrArg (List.mapM · d.mappedFields) (funext field)

theorem IsAcceptable.isValid (h : d.IsAcceptable) : d.mapping.entity.IsValid where
  table := h.table
  columns := by
    rw [mapping_columns]
    intro c mem
    obtain ⟨f, mapped, rfl⟩ := List.mem_map.1 mem
    obtain ⟨listed, kept⟩ := mem_mappedFields.1 mapped
    exact ((h.fields f listed).names kept).1

theorem IsAcceptable.registered (h : d.IsAcceptable) (r : Registry) :
    r.register d.mapping.entity = .ok (r.replacing d.mapping.entity) := by
  obtain ⟨_, run⟩ | ⟨_, inadmissible, _⟩ := Registry.enter_cases r d.mapping.entity
  · rw [Registry.register, run]
  · exact absurd (.inr h.isValid) inadmissible

theorem IsAcceptable.found (h : d.IsAcceptable) {f : FieldDescription}
    (mapped : f ∈ d.mappedFields) : d.mapping.entity.column? f.property = some f.toColumn := by
  have listed : f.toColumn ∈ d.mapping.entity.columns := by
    rw [mapping_columns]
    exact List.mem_map_of_mem mapped
  have distinct : (d.mapping.entity.columns.map (·.property)).Nodup := by
    rw [mapping_columns, List.map_map]
    exact h.distinct
  have own : d.mapping.entity.columns.find? (·.property == f.property) = some f.toColumn :=
    find?_name listed distinct
  rw [Entity.column?, own]
  rfl

theorem IsAcceptable.isUsable (h : d.IsAcceptable) : d.mapping.IsUsableFor d where
  registered r :=
    ⟨_, h.registered r, Registry.entity_eq_ok.2 (r.entity?_replacing_self d.mapping.entity)⟩
  table := rfl
  columns := mapping_columns
  found _ mapped := h.found mapped
  described := Code.entityImplementation_tells d.name d.mapping.entity
  fields := columns_eq_ok.2 ⟨h.isNamed, h.fields, h.distinct, rfl⟩
  pairs := mapping_pairs
  converted := mapping_converted
  properties := by
    rw [mapping_pairs, mapping_columns, List.map_map, List.map_map]
    rfl
  records := mapping_records

end StructDescription

/-- A struct is accepted exactly if its attributes are known and its names identifiers, its
properties not empty and no two alike. Then its entity is usable; and a bad name of the table or of
a column is always refused. -/
theorem derived_metadata_usable (d : StructDescription) :
    ((∃ m, EntityMapping.ofStruct d = .ok m) ↔ d.IsAcceptable) ∧
      (∀ m, EntityMapping.ofStruct d = .ok m → m.IsUsableFor d) ∧
      (Identifier.check d.tableName ≠ .ok () ∨
          (∃ f ∈ d.mappedFields, Identifier.check f.columnName ≠ .ok ()) →
        ∃ e, EntityMapping.ofStruct d = .error e) := by
  refine ⟨?_, ?_, ?_⟩
  · exact ⟨fun ⟨_, h⟩ => (EntityMapping.ofStruct_eq_ok.1 h).1,
      fun h => ⟨_, EntityMapping.ofStruct_eq_ok.2 ⟨h, rfl⟩⟩⟩
  · intro m h
    obtain ⟨acceptable, rfl⟩ := EntityMapping.ofStruct_eq_ok.1 h
    exact acceptable.isUsable
  · intro bad
    cases result : EntityMapping.ofStruct d with
    | error e => exact ⟨e, rfl⟩
    | ok m =>
      obtain ⟨acceptable, _⟩ := EntityMapping.ofStruct_eq_ok.1 result
      obtain table | ⟨f, mapped, column⟩ := bad
      · exact absurd acceptable.table table
      · obtain ⟨listed, kept⟩ := StructDescription.mem_mappedFields.1 mapped
        exact absurd ((acceptable.fields f listed).names kept).1 column

def productStruct : StructDescription where
  name := "Product"
  shape := .named
  attributes := [[.flag "read_only"], [.text "table" "Select"], [.text "table" "Products"]]
  fields := [⟨"_price", "f64", [[.text "name" "OldPrice"]]⟩,
    ⟨"price", "f64", [[.text "property" "Price", .text "name" "1"], [.text "name" "UnitPrice"]]⟩,
    ⟨"order", "i32", [[.flag "skip"]]⟩]

theorem derived_metadata_usable_product :
    (∃ m, EntityMapping.ofStruct productStruct = .ok m ∧ m.IsUsableFor productStruct) ∧
      productStruct.mappedFields.map (fun f => (f.property, f.columnName)) =
        [("_price", "OldPrice"), ("Price", "UnitPrice")] ∧
      ∃ e, EntityMapping.ofStruct { productStruct with attributes := [[.text "table" "Select"]] } =
        .error e := by
  have accepted : EntityMapping.ofStruct productStruct = .ok productStruct.mapping := by
    decide +kernel
  exact ⟨⟨_, accepted, (derived_metadata_usable productStruct).2.1 _ accepted⟩, by decide +kernel,
    (derived_metadata_usable _).2.2 (.inl (by decide +kernel))⟩

end DmlCompiler
