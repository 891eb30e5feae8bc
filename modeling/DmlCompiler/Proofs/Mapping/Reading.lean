import DmlCompiler.Mapping.Code
import DmlCompiler.Proofs.Digits
import DmlCompiler.Proofs.Results
import Mathlib.Data.List.Infix

/-! # Generated code read back

The generated text is a row of tokens. What is read from these is what the code was generated for:
the description says all that the entity is made of, and the conversion says which property is
paired with which field, and how. -/
namespace DmlCompiler.Code

open Text (digits1 digitsValue hexValue?)

/-- The text has these tokens in a row, each of them with at most one blank behind it. -/
inductive Spells : Tokens → List Char → Prop where
  | nil : Spells [] []
  | beside {token : String} {tokens : Tokens} {text : List Char} (rest : Spells tokens text) :
      Spells (token :: tokens) (token.toList ++ text)
  | apart {token : String} {tokens : Tokens} {text : List Char} (rest : Spells tokens text) :
      Spells (token :: tokens) (token.toList ++ ' ' :: text)

theorem spells_text (tokens : Tokens) : Spells tokens (text tokens).toList := by
  induction tokens with
  | nil => exact .nil
  | cons token rest ih =>
    cases rest with
    | nil =>
      have last : Spells [token] (token.toList ++ []) := .beside .nil
      rwa [List.append_nil] at last
    | cons next rest =>
      rw [text, String.toList_append]
      split
      · exact .beside ih
      · rw [String.toList_append, List.append_assoc]
        exact .apart ih

abbrev Reader := StateT Tokens Option

namespace Reader

variable {α β : Type}

def expect (tokens : Tokens) : Reader Unit := fun there =>
  (tokens.isPrefixOf? there).map ((), ·)

def token (read : String → Option α) : Reader α
  | [] => none
  | first :: rest => (read first).map (·, rest)

def oneOf (all : List α) (name : α → String) : Reader α :=
  token fun spelled => all.find? (name · == spelled)

def flag : Reader Bool := oneOf [true, false] toString

def escapes : List (Char × Char) :=
  [('"', '"'), ('\\', '\\'), ('t', '\t'), ('r', '\r'), ('n', '\n'), ('0', '\x00')]

/-- The characters of a literal behind its first quote. Inside of a numbered one the number is that
of the digits so far. -/
def characters : Option Nat → List Char → Option (List Char)
  | some n, '\x7d' :: rest => (characters none rest).map (.ofNat n :: ·)
  | some n, digit :: rest => do characters (some (n * 16 + (← hexValue? digit))) rest
  | some _, [] => none
  | none, ['"'] => some []
  | none, '\\' :: 'u' :: '\x7b' :: rest => characters (some 0) rest
  | none, '\\' :: c :: rest => do
    let c ← escapes.lookup c
    (characters none rest).map (c :: ·)
  | none, c :: rest => if c = '"' then none else (characters none rest).map (c :: ·)
  | none, [] => none

def string : Reader String :=
  token fun spelled => match spelled.toList with
    | '"' :: rest => (characters none rest).map String.ofList
    | _ => none

def number : Reader UInt32 :=
  token fun spelled => match digits1 spelled.toList with
    | some (digits, ['u', '3', '2']) =>
      if digitsValue digits < UInt32.size then some (.ofNat (digitsValue digits)) else none
    | _ => none

def path (names : List String) : Reader Unit := expect (Code.path names)

def inside (opening closing : String) (r : Reader α) : Reader α :=
  expect [opening] *> r <* expect [closing]

def field (name : String) (r : Reader α) : Reader α := expect [name, ":"] *> r <* expect [","]

def items (r : Reader α) : Nat → Reader (List α)
  | 0 => failure
  | n + 1 => (expect ["]"] *> pure []) <|>
    (List.cons <$> r <*> ((expect [","] *> items r n) <|> (expect ["]"] *> pure [])))

def list (r : Reader α) : Reader (List α) := do
  expect ["["]
  items r (← get).length

def permissions : Reader Permissions :=
  path ["queryhaus", "query_core", "metadata", "Permissions"] *> inside "\x7b" "\x7d"
    (Permissions.mk <$> field "select" flag <*> field "insert" flag <*> field "update" flag <*>
      field "delete" flag <*> field "truncate" flag)

def size : Reader (Option UInt32) :=
  (some <$> (path ["core", "option", "Option", "Some"] *> inside "(" ")" number)) <|>
    (path ["core", "option", "Option", "None"] *> pure none)

def column : Reader Column :=
  path ["queryhaus", "query_core", "metadata", "ColumnMeta"] *> inside "\x7b" "\x7d"
    (Column.mk <$> field "property" string <*> field "column" string <*>
      field "db_type" (path ["queryhaus", "type_mapping", "DbType"] *> expect ["::"] *>
        oneOf ColumnType.all ColumnType.name) <*>
      field "size" size <*> field "permissions" permissions <*> field "primary_key" flag)

def entity : Reader Entity :=
  path ["queryhaus", "query_core", "metadata", "EntityMeta"] *> inside "\x7b" "\x7d"
    (Entity.mk <$> field "name" string <*> field "table" string <*>
      field "kind" (path ["queryhaus", "query_core", "metadata", "EntityKind"] *> expect ["::"] *>
        oneOf [EntityKind.table, .queryResult] EntityKind.name) <*>
      field "permissions" permissions <*> field "columns" (expect ["&"] *> list column))

/-- The struct, and the entity that the implementation for it describes. -/
def description : Reader (String × Entity) :=
  Prod.mk <$> (expect ["impl"] *> path ["queryhaus", "query_core", "metadata", "Entity"] *>
      expect ["for"] *> token some) <*> inside "\x7b" "\x7d"
    (expect ["fn", "metadata", "(", ")", "->", "&", "'static"] *>
      path ["queryhaus", "query_core", "metadata", "EntityMeta"] *> inside "\x7b" "\x7d"
        (expect ["static", "META", ":"] *>
          path ["queryhaus", "query_core", "metadata", "EntityMeta"] *> expect ["="] *>
          entity <* expect [";", "&", "META"]))

def value : Reader (String × Bool) :=
  let own : Reader String := inside "(" ")" (expect ["&", "self", "."] *> token some)
  ((·, true) <$> (path ["queryhaus", "type_mapping", "SqlValue", "from"] *> inside "(" ")"
    (path ["core", "clone", "Clone", "clone"] *> own))) <|>
  ((·, false) <$> (path ["queryhaus", "type_mapping", "SqlValue", "json_of"] *> own))

def pair : Reader (String × String × Bool) :=
  inside "(" ")" (Prod.mk <$> string <*> (expect [","] *> value))

/-- The struct, and the pairs of the implementation that converts it. -/
def conversion : Reader (String × List (String × String × Bool)) :=
  Prod.mk <$> (expect ["impl"] *> path ["queryhaus", "type_mapping", "ToSqlRecord"] *>
      expect ["for"] *> token some) <*> inside "\x7b" "\x7d"
    (expect ["fn", "to_sql_record", "(", "&", "self", ")", "->"] *>
      (path ["std", "vec", "Vec"] *> expect ["<", "(", "&", "'static", "str", ","] *>
        path ["queryhaus", "type_mapping", "SqlValue"] *> expect [")", ">"]) *>
      inside "\x7b" "\x7d" (path ["std", "vec"] *> expect ["!"] *> list pair))

end Reader

/-- The tokens are read as the value, whatever stands behind them. -/
def Reads {α : Type} (r : Reader α) (tokens : Tokens) (a : α) : Prop :=
  ∀ rest, r.run (tokens ++ rest) = some (a, rest)

def Fails {α : Type} (r : Reader α) (tokens : Tokens) : Prop :=
  ∀ rest, r.run (tokens ++ rest) = none

section Rules

variable {α β : Type} {r : Reader α} {r' : Reader β} {f : Reader (α → β)} {tokens tokens' : Tokens}
  {a : α} {b : β} {g : α → β}

theorem Reads.map (g : α → β) (h : Reads r tokens a) : Reads (g <$> r) tokens (g a) := by
  intro rest
  rw [StateT.run_map, h rest]
  rfl

theorem Reads.seq (h : Reads f tokens g) (h' : Reads r tokens' a) :
    Reads (f <*> r) (tokens ++ tokens') (g a) := by
  intro rest
  rw [StateT.run_seq, List.append_assoc, h]
  show (fun p => (g p.1, p.2)) <$> r.run (tokens' ++ rest) = _
  rw [h']
  rfl

theorem Reads.seqRight (h : Reads r tokens a) (h' : Reads r' tokens' b) :
    Reads (r *> r') (tokens ++ tokens') b := by
  intro rest
  rw [StateT.run_seqRight, List.append_assoc, h]
  exact h' rest

theorem Reads.seqLeft (h : Reads r tokens a) (h' : Reads r' tokens' b) :
    Reads (r <* r') (tokens ++ tokens') a := by
  intro rest
  rw [StateT.run_seqLeft, List.append_assoc, h]
  show (r'.run (tokens' ++ rest) >>= fun p => pure (a, p.2)) = _
  rw [h']
  rfl

theorem reads_pure (a : α) : Reads (pure a) [] a := fun _ => rfl

theorem Reads.orElse_left {r' : Reader α} (h : Reads r tokens a) : Reads (r <|> r') tokens a := by
  intro rest
  show (r.run (tokens ++ rest) <|> _) = _
  rw [h]
  rfl

theorem Reads.orElse_right {r' : Reader α} (failed : Fails r tokens) (h : Reads r' tokens a) :
    Reads (r <|> r') tokens a := by
  intro rest
  show (r.run (tokens ++ rest) <|> r'.run (tokens ++ rest)) = _
  rw [failed, h]
  rfl

theorem Fails.map (g : α → β) (h : Fails r tokens) : Fails (g <$> r) tokens := by
  intro rest
  rw [StateT.run_map, h]
  rfl

theorem Fails.seqRight (h : Fails r tokens) : Fails (r *> r') tokens := by
  intro rest
  rw [StateT.run_seqRight, h]
  rfl

theorem Reads.of_eq (eq : tokens = tokens') (h : Reads r tokens a) : Reads r tokens' a := eq ▸ h

theorem Fails.append (h : Fails r tokens) (tokens' : Tokens) : Fails r (tokens ++ tokens') := by
  intro rest
  rw [List.append_assoc, h]

theorem reads_expect (tokens : Tokens) : Reads (Reader.expect tokens) tokens () := by
  intro rest
  have front : tokens.isPrefixOf? (tokens ++ rest) = some rest :=
    List.isPrefixOf?_eq_some_iff_append_eq.2 rfl
  exact congrArg (Option.map ((), ·)) front

theorem fails_expect {wanted : Tokens}
    (other : ∀ rest, wanted.isPrefixOf (tokens ++ rest) = false) :
    Fails (Reader.expect wanted) tokens := by
  intro rest
  have front : wanted.isPrefixOf? (tokens ++ rest) = none := by
    rw [← Option.not_isSome_iff_eq_none, List.isSome_isPrefixOf?_eq_isPrefixOf, other]
    exact Bool.false_ne_true
  exact congrArg (Option.map ((), ·)) front

theorem reads_token {read : String → Option α} {spelled : String} (h : read spelled = some a) :
    Reads (Reader.token read) [spelled] a := fun rest => congrArg (Option.map (·, rest)) h

theorem reads_name (name : String) : Reads (Reader.token some) [name] name := reads_token rfl

theorem reads_oneOf {all : List α} {name : α → String} (listed : a ∈ all)
    (distinct : (all.map name).Nodup) : Reads (Reader.oneOf all name) [name a] a :=
  reads_token (find?_name listed distinct)

theorem reads_path (names : List String) :
    Reads (Reader.path names) (path names) () := reads_expect _

theorem Reads.inside (opening closing : String) (h : Reads r tokens a) :
    Reads (.inside opening closing r) (opening :: tokens ++ [closing]) a :=
  ((reads_expect [opening]).seqRight h).seqLeft (reads_expect [closing])

theorem Reads.field (name : String) (h : Reads r tokens a) :
    Reads (.field name r) (entry name tokens) a :=
  ((reads_expect [name, ":"]).seqRight h).seqLeft (reads_expect [","])

end Rules

section Leaves

theorem reads_flag (b : Bool) : Reads .flag (boolean b) b :=
  reads_oneOf (by cases b <;> decide) (by decide)

theorem characters_number {digits : List Char} {n m : Nat}
    (read : digits.foldlM (fun n c => (hexValue? c).map (n * 16 + ·)) n = some m)
    (rest : List Char) :
    Reader.characters (some n) (digits ++ '\x7d' :: rest) =
      (Reader.characters none rest).map (.ofNat m :: ·) := by
  induction digits generalizing n with
  | nil =>
    cases read
    rfl
  | cons digit digits ih =>
    have brace : digit ≠ '\x7d' := by
      rintro rfl
      cases read
    rw [List.foldlM_cons] at read
    obtain ⟨next, first, later⟩ := Option.bind_eq_some_iff.1 read
    obtain ⟨value, digitRead, rfl⟩ := Option.map_eq_some_iff.1 first
    rw [List.cons_append, Reader.characters, digitRead]
    · exact ih later
    · exact brace

theorem characters_escapeChar (c : Char) (rest : List Char) :
    Reader.characters none (escapeChar c ++ rest) = (Reader.characters none rest).map (c :: ·) := by
  unfold escapeChar
  split_ifs with quote backslash tab carriage line null control
  · subst quote
    rfl
  · subst backslash
    rfl
  · subst tab
    rfl
  · subst carriage
    rfl
  · subst line
    rfl
  · subst null
    rfl
  · have all : ∀ n < 128, (Nat.toDigits 16 n).foldlM
        (fun n c => (hexValue? c).map (n * 16 + ·)) 0 = some n := by decide +kernel
    have number := characters_number (all c.toNat (by omega)) rest
    rw [Char.ofNat_toNat] at number
    rw [List.append_assoc, List.append_assoc]
    exact number
  · rw [List.singleton_append, Reader.characters, if_neg quote]
    · exact fun last => absurd last quote
    · exact fun _ first => absurd first backslash
    · exact fun _ _ first => absurd first backslash

theorem reads_string (s : String) : Reads .string (literal s) s := by
  have body (letters : List Char) :
      Reader.characters none (letters.flatMap escapeChar ++ ['"']) = some letters := by
    induction letters with
    | nil => rfl
    | cons c letters ih =>
      rw [List.flatMap_cons, List.append_assoc, characters_escapeChar, ih]
      rfl
  refine reads_token ?_
  rw [String.toList_ofList, List.cons_append]
  show (Reader.characters none _).map String.ofList = some s
  rw [body, Option.map_some, String.ofList_toList]

theorem reads_number (n : UInt32) : Reads .number [s!"{n.toNat}u32"] n := by
  have digits : digits1 (s!"{n.toNat}u32").toList =
      some (Nat.toDigits 10 n.toNat, ['u', '3', '2']) := by
    have letters : (s!"{n.toNat}u32").toList = Nat.toDigits 10 n.toNat ++ ['u', '3', '2'] := by
      simp [toString]
    rw [letters]
    exact Text.digits1_append (fun _ => Text.isDigit_of_toDigits) Nat.toDigits_ne_nil
      (.cons (by decide))
  refine reads_token ?_
  simp only [digits, Text.digitsValue_toDigits, if_pos n.toNat_lt, UInt32.ofNat_toNat]

end Leaves

section Lists

variable {α β : Type} {r : Reader β} {write : α → Tokens} {read : α → β} {xs : List α}

theorem commaSeparated_singleton (item : Tokens) : commaSeparated [item] = item := by
  simp [commaSeparated]

theorem commaSeparated_cons_cons (first next : Tokens) (rest : List Tokens) :
    commaSeparated (first :: next :: rest) = first ++ [","] ++ commaSeparated (next :: rest) := by
  simp [commaSeparated]

theorem length_commaSeparated (items : List Tokens) :
    items.length ≤ (commaSeparated items).length + 1 := by
  induction items with
  | nil => exact Nat.zero_le 1
  | cons first rest ih =>
    cases rest with
    | nil => simp
    | cons next rest =>
      rw [commaSeparated_cons_cons]
      simp only [List.length_cons, List.length_append] at ih ⊢
      omega

/-- Items that do not begin with the bracket are read one after the other. -/
theorem reads_items (each : ∀ x ∈ xs, Reads r (write x) (read x))
    (begins : ∀ x ∈ xs, Fails (.expect ["]"]) (write x)) {n : Nat}
    (enough : xs.length ≤ n) (positive : 0 < n) :
    Reads (.items r n) (commaSeparated (xs.map write) ++ ["]"]) (xs.map read) := by
  have done : Reads (Reader.expect ["]"] *> pure ([] : List β)) ["]"] [] :=
    (reads_expect ["]"]).seqRight (reads_pure [])
  have noComma : Fails (.expect [","]) ["]"] := fails_expect fun rest => by simp [List.isPrefixOf]
  induction xs generalizing n with
  | nil =>
    obtain ⟨n, rfl⟩ := Nat.exists_eq_succ_of_ne_zero positive.ne'
    exact .orElse_left done
  | cons x xs ih =>
    obtain ⟨n, rfl⟩ := Nat.exists_eq_succ_of_ne_zero positive.ne'
    obtain ⟨own, others⟩ := List.forall_mem_cons.1 each
    obtain ⟨opening, begins⟩ := List.forall_mem_cons.1 begins
    cases xs with
    | nil =>
      have last : Reads ((Reader.expect [","] *> .items r n) <|> (Reader.expect ["]"] *> pure []))
          ["]"] [] := .orElse_right noComma.seqRight done
      refine .of_eq ?_ (.orElse_right (opening.append _).seqRight ((own.map List.cons).seq last))
      rw [List.map_singleton, commaSeparated_singleton]
    | cons y ys =>
      have enough : (y :: ys).length ≤ n := Nat.le_of_succ_le_succ enough
      have later := ih others begins enough (Nat.lt_of_lt_of_le ys.length.succ_pos enough)
      have more : Reads ((Reader.expect [","] *> .items r n) <|> (Reader.expect ["]"] *> pure []))
          ([","] ++ (commaSeparated ((y :: ys).map write) ++ ["]"])) ((y :: ys).map read) :=
        .orElse_left ((reads_expect [","]).seqRight later)
      have both := (own.map List.cons).seq more
      refine .of_eq ?_ (.orElse_right (opening.append _).seqRight both)
      show _ = commaSeparated (write x :: write y :: ys.map write) ++ ["]"]
      rw [commaSeparated_cons_cons, List.append_assoc, List.append_assoc]
      rfl

theorem reads_list (each : ∀ x ∈ xs, Reads r (write x) (read x))
    (begins : ∀ x ∈ xs, Fails (.expect ["]"]) (write x)) :
    Reads (.list r) (brackets (commaSeparated (xs.map write))) (xs.map read) := by
  intro rest
  let there := commaSeparated (xs.map write) ++ ["]"] ++ rest
  have enough : xs.length ≤ there.length := by
    have least := length_commaSeparated (xs.map write)
    simp only [there, List.length_append, List.length_singleton, List.length_map] at least ⊢
    omega
  have positive : 0 < there.length := by simp [there]
  have inner := reads_items each begins enough positive rest
  exact inner

end Lists

theorem reads_metadataPath (name : String) :
    Reads (.path ["queryhaus", "query_core", "metadata", name]) (metadataPath ++ [name]) () :=
  reads_path _

theorem reads_valuePath (name : String) :
    Reads (.path ["queryhaus", "type_mapping", name]) (valuePath ++ [name]) () :=
  reads_path _

theorem reads_permissions (p : Permissions) : Reads .permissions (permissions p) p := by
  have select := (reads_flag p.select).field "select"
  have insert := (reads_flag p.insert).field "insert"
  have update := (reads_flag p.update).field "update"
  have delete := (reads_flag p.delete).field "delete"
  have truncate := (reads_flag p.truncate).field "truncate"
  have fields := ((((select.map Permissions.mk).seq insert).seq update).seq delete).seq truncate
  exact (reads_metadataPath "Permissions").seqRight (fields.inside "\x7b" "\x7d")

theorem reads_size (n : Option UInt32) : Reads .size (size n) n := by
  cases n with
  | some n =>
    have sized := (reads_path ["core", "option", "Option", "Some"]).seqRight
      ((reads_number n).inside "(" ")")
    exact .orElse_left (sized.map some)
  | none =>
    have other : Fails (.path ["core", "option", "Option", "Some"])
        (path ["core", "option", "Option", "None"]) := fails_expect fun _ => rfl
    have unsized := (reads_path ["core", "option", "Option", "None"]).seqRight
      (reads_pure (none : Option UInt32))
    exact .orElse_right (other.seqRight.map some) unsized

theorem reads_column (c : Column) : Reads .column (column c) c := by
  have listed : c.type ∈ ColumnType.all := by cases c.type <;> decide
  have named := reads_oneOf listed (by decide : (ColumnType.all.map ColumnType.name).Nodup)
  have property := (reads_string c.property).field "property"
  have name := (reads_string c.column).field "column"
  have type := (((reads_valuePath "DbType").seqRight (reads_expect ["::"])).seqRight named).field
    "db_type"
  have size := (reads_size c.size).field "size"
  have permissions := (reads_permissions c.permissions).field "permissions"
  have key := (reads_flag c.primaryKey).field "primary_key"
  have fields := (((((property.map Column.mk).seq name).seq type).seq size).seq permissions).seq key
  exact (reads_metadataPath "ColumnMeta").seqRight (fields.inside "\x7b" "\x7d")

theorem reads_entity (e : Entity) : Reads .entity (entityValue e) e := by
  have listed : e.kind ∈ [EntityKind.table, .queryResult] := by cases e.kind <;> decide
  have named := reads_oneOf listed
    (by decide : ([EntityKind.table, .queryResult].map EntityKind.name).Nodup)
  have name := (reads_string e.name).field "name"
  have table := (reads_string e.table).field "table"
  have kind := (((reads_metadataPath "EntityKind").seqRight (reads_expect ["::"])).seqRight
    named).field "kind"
  have permissions := (reads_permissions e.permissions).field "permissions"
  have begins : ∀ c ∈ e.columns, Fails (.expect ["]"]) (column c) := fun c _ =>
    fails_expect fun _ => rfl
  have listed := reads_list (fun c (_ : c ∈ e.columns) => reads_column c) begins
  rw [List.map_id'] at listed
  have columns := ((reads_expect ["&"]).seqRight listed).field "columns"
  have fields := ((((name.map Entity.mk).seq table).seq kind).seq permissions).seq columns
  exact (reads_metadataPath "EntityMeta").seqRight (fields.inside "\x7b" "\x7d")

theorem reads_value (name type : String) :
    Reads .value (fieldValue name type) (name, FieldType.isDirect type) := by
  have own : Reads (.inside "(" ")" (Reader.expect ["&", "self", "."] *> Reader.token some))
      (parentheses ["&", "self", ".", name]) name :=
    ((reads_expect ["&", "self", "."]).seqRight (reads_token rfl)).inside "(" ")"
  unfold fieldValue
  cases direct : FieldType.isDirect type with
  | true =>
    have cloned := ((reads_path ["core", "clone", "Clone", "clone"]).seqRight own).inside "(" ")"
    have converted := (reads_path ["queryhaus", "type_mapping", "SqlValue", "from"]).seqRight cloned
    exact .orElse_left (converted.map (·, true))
  | false =>
    have other : Fails (.path ["queryhaus", "type_mapping", "SqlValue", "from"])
        (path ["queryhaus", "type_mapping", "SqlValue", "json_of"] ++
          parentheses ["&", "self", ".", name]) := fails_expect fun _ => rfl
    have converted := (reads_path ["queryhaus", "type_mapping", "SqlValue", "json_of"]).seqRight own
    exact .orElse_right (other.seqRight.map (·, true)) (converted.map (·, false))

theorem reads_pair (property name type : String) :
    Reads .pair (pair (property, fieldValue name type))
      (property, name, FieldType.isDirect type) := by
  have entry := ((reads_string property).map Prod.mk).seq
    ((reads_expect [","]).seqRight (reads_value name type))
  exact entry.inside "(" ")"

/-- What is read from the tokens of the text, when all of them are read. -/
def Tells {α : Type} (r : Reader α) (code : String) (a : α) : Prop :=
  ∃ tokens, Spells tokens code.toList ∧ r.run tokens = some (a, [])

theorem Reads.tells {α : Type} {r : Reader α} {tokens : Tokens} {a : α} (h : Reads r tokens a) :
    Tells r (text tokens) a := by
  refine ⟨tokens, spells_text tokens, ?_⟩
  have whole := h []
  rwa [List.append_nil] at whole

/-- The description that is generated for an entity says what the entity is. -/
theorem entityImplementation_tells (struct : String) (e : Entity) :
    Tells .description (entityImplementation struct e) (struct, e) := by
  have header := (((reads_expect ["impl"]).seqRight (reads_metadataPath "Entity")).seqRight
    (reads_expect ["for"])).seqRight (reads_name struct)
  have static := ((((reads_expect ["static", "META", ":"]).seqRight
    (reads_metadataPath "EntityMeta")).seqRight (reads_expect ["="])).seqRight
    (reads_entity e)).seqLeft (reads_expect [";", "&", "META"])
  have function := ((reads_expect ["fn", "metadata", "(", ")", "->", "&", "'static"]).seqRight
    (reads_metadataPath "EntityMeta")).seqRight (static.inside "\x7b" "\x7d")
  exact ((header.map Prod.mk).seq (function.inside "\x7b" "\x7d")).tells

/-- The conversion that is generated pairs the properties with the fields that are not skipped. -/
theorem recordImplementation_tells (struct : String) (columns : List ColumnMapping) :
    Tells .conversion (recordImplementation struct columns)
      (struct, (columns.filter (!·.skip)).map fun m =>
        (m.property, m.field, FieldType.isDirect m.type)) := by
  have header := (((reads_expect ["impl"]).seqRight (reads_valuePath "ToSqlRecord")).seqRight
    (reads_expect ["for"])).seqRight (reads_name struct)
  have begins : ∀ m ∈ columns.filter (!·.skip),
      Fails (.expect ["]"]) (pair (m.property, fieldValue m.field m.type)) := fun m _ =>
    fails_expect fun _ => rfl
  have listed := reads_list (fun m _ => reads_pair m.property m.field m.type) begins
  have body := (((reads_path ["std", "vec"]).seqRight (reads_expect ["!"])).seqRight listed).inside
    "\x7b" "\x7d"
  have result := ((((reads_path ["std", "vec", "Vec"])).seqRight
    (reads_expect ["<", "(", "&", "'static", "str", ","])).seqRight
    (reads_valuePath "SqlValue")).seqRight (reads_expect [")", ">"])
  have function := ((reads_expect ["fn", "to_sql_record", "(", "&", "self", ")", "->"]).seqRight
    result).seqRight body
  have whole := ((header.map Prod.mk).seq (function.inside "\x7b" "\x7d")).tells
  unfold recordImplementation
  rw [recordPairs, List.map_map]
  exact whole

end DmlCompiler.Code
