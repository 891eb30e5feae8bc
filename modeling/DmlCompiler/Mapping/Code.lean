import DmlCompiler.Mapping

/-! # Generated code

The text of the implementations that a mapping generates for its struct: the description of the
entity, and the conversion of a struct value into a record. The text is a sequence of tokens with
one space between them, except inside of parentheses and brackets.
-/
namespace DmlCompiler.Code

abbrev Tokens := List String

def path (names : List String) : Tokens := names.flatMap fun name => ["::", name]

def escapeChar (c : Char) : List Char :=
  if c = '"' then ['\\', '"']
  else if c = '\\' then ['\\', '\\']
  else if c = '\t' then ['\\', 't']
  else if c = '\r' then ['\\', 'r']
  else if c = '\n' then ['\\', 'n']
  else if c = '\x00' then ['\\', '0']
  else if c.toNat < 0x20 ∨ c.toNat = 0x7F then
    ['\\', 'u', '\x7b'] ++ Nat.toDigits 16 c.toNat ++ ['\x7d']
  else [c]

def literal (s : String) : Tokens :=
  [String.ofList ('"' :: s.toList.flatMap escapeChar ++ ['"'])]

def parentheses (inner : Tokens) : Tokens := "(" :: inner ++ [")"]

def brackets (inner : Tokens) : Tokens := "[" :: inner ++ ["]"]

def braces (inner : Tokens) : Tokens := "\x7b" :: inner ++ ["\x7d"]

def commaSeparated (items : List Tokens) : Tokens := [","].intercalate items

def isOpening (token : String) : Bool := token = "(" || token = "["

def isClosing (token : String) : Bool := token = ")" || token = "]"

def text : Tokens → String
  | [] => ""
  | [token] => token
  | token :: next :: rest =>
    (if isOpening token || isClosing next then token else token ++ " ") ++ text (next :: rest)

def entry (name : String) (value : Tokens) : Tokens := [name, ":"] ++ value ++ [","]

def boolean (b : Bool) : Tokens := [toString b]

def metadataPath : Tokens := path ["queryhaus", "query_core", "metadata"] ++ ["::"]

def valuePath : Tokens := path ["queryhaus", "type_mapping"] ++ ["::"]

def permissions (p : Permissions) : Tokens :=
  metadataPath ++ ["Permissions"] ++ braces (entry "select" (boolean p.select) ++
    entry "insert" (boolean p.insert) ++ entry "update" (boolean p.update) ++
    entry "delete" (boolean p.delete) ++ entry "truncate" (boolean p.truncate))

def size : Option UInt32 → Tokens
  | some n => path ["core", "option", "Option", "Some"] ++ parentheses [s!"{n.toNat}u32"]
  | none => path ["core", "option", "Option", "None"]

def column (c : Column) : Tokens :=
  metadataPath ++ ["ColumnMeta"] ++ braces (entry "property" (literal c.property) ++
    entry "column" (literal c.column) ++
    entry "db_type" (valuePath ++ ["DbType", "::", c.type.name]) ++ entry "size" (size c.size) ++
    entry "permissions" (permissions c.permissions) ++
    entry "primary_key" (boolean c.primaryKey))

def entityValue (e : Entity) : Tokens :=
  metadataPath ++ ["EntityMeta"] ++ braces (entry "name" (literal e.name) ++
    entry "table" (literal e.table) ++
    entry "kind" (metadataPath ++ ["EntityKind", "::", e.kind.name]) ++
    entry "permissions" (permissions e.permissions) ++
    entry "columns" ("&" :: brackets (commaSeparated (e.columns.map column))))

def entityImplementation (struct : String) (e : Entity) : String :=
  text (["impl"] ++ metadataPath ++ ["Entity", "for", struct] ++ braces
    (["fn", "metadata"] ++ parentheses [] ++ ["->", "&", "'static"] ++ metadataPath ++
      ["EntityMeta"] ++ braces
        (["static", "META", ":"] ++ metadataPath ++ ["EntityMeta", "="] ++ entityValue e ++
          [";", "&", "META"])))

def fieldValue (name type : String) : Tokens :=
  let field : Tokens := ["&", "self", ".", name]
  valuePath ++ ["SqlValue", "::"] ++
    if FieldType.isDirect type then
      "from" :: parentheses (path ["core", "clone", "Clone", "clone"] ++ parentheses field)
    else "json_of" :: parentheses field

def recordPairs (columns : List ColumnMapping) : List (String × Tokens) :=
  (columns.filter (!·.skip)).map fun m => (m.property, fieldValue m.field m.type)

def pair (entry : String × Tokens) : Tokens := parentheses (literal entry.1 ++ [","] ++ entry.2)

def recordImplementation (struct : String) (columns : List ColumnMapping) : String :=
  text (["impl"] ++ valuePath ++ ["ToSqlRecord", "for", struct] ++ braces
    (["fn", "to_sql_record"] ++ parentheses ["&", "self"] ++ ["->"] ++ path ["std", "vec", "Vec"] ++
      ["<"] ++ parentheses (["&", "'static", "str", ","] ++ valuePath ++ ["SqlValue"]) ++ [">"] ++
      braces (path ["std", "vec"] ++ ["!"] ++
        brackets (commaSeparated ((recordPairs columns).map pair)))))

end DmlCompiler.Code
