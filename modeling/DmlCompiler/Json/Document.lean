import DmlCompiler.Json

/-! # Free documents

A document that a value carries: the fields of every object are sorted by name and every name
stands once. `Json.normalize` brings any JSON value into this form, a later field winning over an
earlier one of its name, and changes nothing that has the form already.
-/
namespace DmlCompiler
namespace Json

def insertField (name : String) (value : Json) : List (String × Json) → List (String × Json)
  | [] => [(name, value)]
  | (other, held) :: rest =>
    if name < other then (name, value) :: (other, held) :: rest
    else if name = other then (name, value) :: rest
    else (other, held) :: insertField name value rest

def sortFields (fields : List (String × Json)) : List (String × Json) :=
  fields.foldl (fun sorted field => insertField field.1 field.2 sorted) []

def inWord (n : Int) : Bool := -2 ^ 63 ≤ n && n < 2 ^ 64

mutual

def normalize : Json → Json
  | .integer n => if inWord n then .integer n else .null
  | .float x => if x.isFinite then .float x else .null
  | .array items => .array (normalizeItems items)
  | .object fields => .object (sortFields (normalizeFields fields))
  | .null | .unreadable => .null
  | .bool b => .bool b
  | .string s => .string s

def normalizeItems : List Json → List Json
  | [] => []
  | x :: xs => x.normalize :: normalizeItems xs

def normalizeFields : List (String × Json) → List (String × Json)
  | [] => []
  | (name, x) :: xs => (name, x.normalize) :: normalizeFields xs

end

def Sorted (fields : List (String × Json)) : Prop := fields.Pairwise fun a b => a.1 < b.1

theorem mem_insertField {name : String} {value : Json} {field : String × Json} :
    ∀ {fields : List (String × Json)}, field ∈ insertField name value fields →
      field = (name, value) ∨ field ∈ fields
  | [], h => by simpa [insertField] using h
  | (other, held) :: rest, h => by
    simp only [insertField] at h
    split at h
    · simpa using h
    · split at h
      · rcases List.mem_cons.1 h with h | h <;> simp [h]
      · rcases List.mem_cons.1 h with h | h
        · simp [h]
        · rcases mem_insertField h with h | h <;> simp [h]

theorem sorted_insertField {name : String} {value : Json} :
    ∀ {fields : List (String × Json)}, Sorted fields → Sorted (insertField name value fields)
  | [], _ => by simp [insertField, Sorted]
  | (other, held) :: rest, h => by
    obtain ⟨first, tail⟩ := List.pairwise_cons.1 h
    simp only [insertField]
    split
    · next lt =>
      refine List.pairwise_cons.2 ⟨fun field mem => ?_, h⟩
      rcases List.mem_cons.1 mem with rfl | mem
      · exact lt
      · exact String.lt_trans lt (first field mem)
    · next notLt =>
      split
      · next eq => exact List.pairwise_cons.2 ⟨fun field mem => eq ▸ first field mem, tail⟩
      · next ne =>
        refine List.pairwise_cons.2 ⟨fun field mem => ?_, sorted_insertField tail⟩
        rcases mem_insertField mem with rfl | mem
        · exact String.not_le.1 fun le => ne (String.le_antisymm le (String.not_lt.1 notLt))
        · exact first field mem

theorem insertField_append {name : String} {value : Json} :
    ∀ {fields : List (String × Json)}, (∀ field ∈ fields, field.1 < name) →
      insertField name value fields = fields ++ [(name, value)]
  | [], _ => rfl
  | (other, held) :: rest, h => by
    have lt : other < name := h (other, held) (by simp)
    have notLt : ¬ name < other := fun gt => String.lt_irrefl _ (String.lt_trans gt lt)
    have ne : name ≠ other := fun eq => by subst eq; exact notLt lt
    have tail : ∀ field ∈ rest, field.1 < name := fun field mem =>
      h field (List.mem_cons_of_mem _ mem)
    simp [insertField, notLt, ne, insertField_append tail]

theorem foldl_insertField_of_sorted : ∀ (fields done : List (String × Json)),
    Sorted (done ++ fields) →
      fields.foldl (fun sorted field => insertField field.1 field.2 sorted) done = done ++ fields
  | [], done, _ => by simp
  | (name, value) :: rest, done, h => by
    have before : ∀ field ∈ done, field.1 < name := fun field mem =>
      (List.pairwise_append.1 h).2.2 field mem (name, value) (by simp)
    rw [List.foldl_cons, insertField_append before,
      foldl_insertField_of_sorted rest (done ++ [(name, value)]) (by simpa using h)]
    simp

/-- Sorting changes nothing that is sorted. -/
theorem sortFields_of_sorted {fields : List (String × Json)} (h : Sorted fields) :
    sortFields fields = fields :=
  (foldl_insertField_of_sorted fields [] (by simpa using h)).trans (by simp)

theorem foldl_insertField_facts (fields : List (String × Json)) :
    ∀ done : List (String × Json), Sorted done →
      Sorted (fields.foldl (fun sorted field => insertField field.1 field.2 sorted) done) ∧
      ∀ field ∈ fields.foldl (fun sorted field => insertField field.1 field.2 sorted) done,
        field ∈ done ∨ field ∈ fields := by
  induction fields with
  | nil => intro done h; exact ⟨h, fun _ mem => .inl mem⟩
  | cons field rest ih =>
    intro done h
    obtain ⟨sorted, mem⟩ := ih _ (@sorted_insertField field.1 field.2 _ h)
    refine ⟨sorted, fun other found => ?_⟩
    rcases mem other found with found | found
    · rcases mem_insertField found with rfl | found <;> simp_all
    · simp [found]

theorem sorted_sortFields (fields : List (String × Json)) : Sorted (sortFields fields) :=
  (foldl_insertField_facts fields [] (by simp [Sorted])).1

theorem mem_of_mem_sortFields {fields : List (String × Json)} {field : String × Json}
    (h : field ∈ sortFields fields) : field ∈ fields := by
  simpa using (foldl_insertField_facts fields [] (by simp [Sorted])).2 field h

theorem normalizeFields_of_forall {fields : List (String × Json)}
    (h : ∀ field ∈ fields, field.2.normalize = field.2) : normalizeFields fields = fields := by
  induction fields with
  | nil => rfl
  | cons field rest ih =>
    obtain ⟨name, x⟩ := field
    have head : x.normalize = x := h (name, x) (by simp)
    rw [normalizeFields, head, ih fun field mem => h field (by simp [mem])]

mutual

/-- What is normal stays as it is. -/
theorem normalize_normalize : ∀ x : Json, x.normalize.normalize = x.normalize
  | .integer n => by by_cases h : inWord n <;> simp [normalize, h]
  | .float x => by by_cases h : x.isFinite <;> simp [normalize, h]
  | .array items => by simp [normalize, normalizeItems_normalizeItems items]
  | .object fields => by
    have values : normalizeFields (sortFields (normalizeFields fields)) =
        sortFields (normalizeFields fields) :=
      normalizeFields_of_forall fun field mem =>
        normalize_of_mem fields field (mem_of_mem_sortFields mem)
    simp only [normalize, values, sortFields_of_sorted (sorted_sortFields _)]
  | .null | .unreadable => rfl
  | .bool _ => rfl
  | .string _ => rfl

theorem normalizeItems_normalizeItems : ∀ xs : List Json,
    normalizeItems (normalizeItems xs) = normalizeItems xs
  | [] => rfl
  | x :: xs => by
    simp [normalizeItems, normalize_normalize x, normalizeItems_normalizeItems xs]

theorem normalize_of_mem : ∀ (fields : List (String × Json)) (field : String × Json),
    field ∈ normalizeFields fields → field.2.normalize = field.2
  | [], _, h => by simp [normalizeFields] at h
  | (name, x) :: xs, field, h => by
    rcases List.mem_cons.1 h with rfl | h
    · exact normalize_normalize x
    · exact normalize_of_mem xs field h

end

end Json

structure JsonDocument where
  value : Json
  normal : value.normalize = value
deriving DecidableEq

namespace JsonDocument

def of (value : Json) : JsonDocument := ⟨value.normalize, value.normalize_normalize⟩

/-- A document is the normal form of itself. -/
theorem of_value (d : JsonDocument) : of d.value = d := by
  cases d with
  | mk value normal => simp [of, normal]

instance : Inhabited JsonDocument := ⟨of .null⟩

instance : Repr JsonDocument := ⟨fun d n => reprPrec d.value n⟩

end JsonDocument
end DmlCompiler
