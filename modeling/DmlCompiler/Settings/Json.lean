import DmlCompiler.Settings
import DmlCompiler.Transport.Decoding

/-! # Settings in JSON

The JSON form of settings, under the names of their TOML entries.
-/
namespace DmlCompiler

namespace Json

def u16? (value : Json) : Option UInt16 := (value.natural? UInt16.size).map .ofNat

def entry? {α : Type} (name : String) (read : Json → Option α) (default : α) (value : Json) :
    Option α :=
  match value.get? name with
  | none => some default
  | some held => read held

end Json

def DatabaseSettings.encode (s : DatabaseSettings) : Json :=
  .object [("host", .string s.host), ("port", .ofNat s.port.toNat),
    ("database", .string s.database), ("username", .string s.username),
    ("password", .string s.password), ("min_connections", .ofNat s.minConnections.toNat),
    ("max_connections", .ofNat s.maxConnections.toNat),
    ("connection_timeout_seconds", .ofNat s.connectionTimeoutSeconds.toNat),
    ("idle_timeout_seconds", .ofNat s.idleTimeoutSeconds.toNat),
    ("max_lifetime_seconds", .ofNat s.maxLifetimeSeconds.toNat)]

def DatabaseSettings.decode? (value : Json) : Option DatabaseSettings := do
  return {
    host := ← (← value.get? "host").text?
    port := ← (← value.get? "port").u16?
    database := ← (← value.get? "database").text?
    username := ← (← value.get? "username").text?
    password := ← (← value.get? "password").text?
    minConnections := ← (← value.get? "min_connections").u32?
    maxConnections := ← (← value.get? "max_connections").u32?
    connectionTimeoutSeconds := ← (← value.get? "connection_timeout_seconds").u64?
    idleTimeoutSeconds := ← (← value.get? "idle_timeout_seconds").u64?
    maxLifetimeSeconds := ← (← value.get? "max_lifetime_seconds").u64? }

def CompilerSettings.encode (s : CompilerSettings) : Json :=
  .object [("dialect", .string s.dialect), ("cache_select_statements", .bool s.cachesSelectLists),
    ("max_parameters", .ofNat s.maxParameters.toNat),
    ("validate_identifiers", .bool s.validatesIdentifiers)]

def CompilerSettings.decode? (value : Json) : Option CompilerSettings := do
  return {
    dialect := ← value.entry? "dialect" Json.text? "standard"
    cachesSelectLists := ← value.entry? "cache_select_statements" Json.bool? true
    maxParameters := ← value.entry? "max_parameters" Json.u64? 0
    validatesIdentifiers := ← value.entry? "validate_identifiers" Json.bool? true }

def Settings.encode (s : Settings) : Json :=
  .object [("database", s.database.encode), ("compiler", s.compiler.encode)]

end DmlCompiler
