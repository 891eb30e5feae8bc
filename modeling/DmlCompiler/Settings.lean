import DmlCompiler.Toml.Reader
import DmlCompiler.Draft

/-! # Settings

The settings of the database connection and of the compiler, read from TOML and then checked. The
first check that fails gives the error.
-/
namespace DmlCompiler

structure DatabaseSettings where
  host : String
  port : UInt16
  database : String
  username : String
  password : String
  minConnections : UInt32
  maxConnections : UInt32
  connectionTimeoutSeconds : UInt64
  idleTimeoutSeconds : UInt64
  maxLifetimeSeconds : UInt64
deriving DecidableEq, Repr

structure CompilerSettings where
  dialect : String := "standard"
  cachesSelectLists : Bool := true
  maxParameters : UInt64 := 0
  validatesIdentifiers : Bool := true
deriving DecidableEq, Repr

structure Settings where
  database : DatabaseSettings
  compiler : CompilerSettings
deriving DecidableEq, Repr

inductive InvalidSetting where
  | emptyHost
  | zeroPort
  | emptyDatabase
  | emptyUsername
  | zeroMinConnections
  | zeroMaxConnections
  | minAboveMax
  | zeroTimeout
  | unknownDialect (name : String)
deriving DecidableEq, Repr

inductive SettingsError where
  | malformed
  | invalid (cause : InvalidSetting)
deriving DecidableEq, Repr

def InvalidSetting.message : InvalidSetting → String
  | .emptyHost => "Database host cannot be empty"
  | .zeroPort => "Database port cannot be zero"
  | .emptyDatabase => "Database name cannot be empty"
  | .emptyUsername => "Database username cannot be empty"
  | .zeroMinConnections => "Database min_connections must be greater than 0"
  | .zeroMaxConnections => "Database max_connections must be greater than 0"
  | .minAboveMax => "Database min_connections cannot be greater than max_connections"
  | .zeroTimeout => "Database connection_timeout_seconds must be greater than 0"
  | .unknownDialect name =>
    s!"Unknown compiler dialect '{name}': expected one of " ++
      ", ".intercalate (Dialect.all.map Dialect.name)

def SettingsError.message : SettingsError → String
  | .malformed => "TOML parsing error"
  | .invalid cause => s!"Invalid configuration: {cause.message}"

namespace DatabaseSettings

def connectionString (s : DatabaseSettings) : String :=
  s!"postgresql://{s.username}:{s.password}@{s.host}:{s.port.toNat}/{s.database}"

def validate (s : DatabaseSettings) : Except SettingsError Unit :=
  let check (fails : Bool) (cause : InvalidSetting) : Except SettingsError Unit :=
    if fails then .error (.invalid cause) else .ok ()
  do
    check s.host.isEmpty .emptyHost
    check (s.port == 0) .zeroPort
    check s.database.isEmpty .emptyDatabase
    check s.username.isEmpty .emptyUsername
    check (s.minConnections == 0) .zeroMinConnections
    check (s.maxConnections == 0) .zeroMaxConnections
    check (s.maxConnections < s.minConnections) .minAboveMax
    check (s.connectionTimeoutSeconds == 0) .zeroTimeout

def ofToml? (t : Toml) : Option DatabaseSettings := do
  return {
    host := ← (← t.get? "host").text?
    port := .ofNat (← (← t.get? "port").natural? UInt16.size)
    database := ← (← t.get? "database").text?
    username := ← (← t.get? "username").text?
    password := ← (← t.get? "password").text?
    minConnections := .ofNat (← (← t.get? "min_connections").natural? UInt32.size)
    maxConnections := .ofNat (← (← t.get? "max_connections").natural? UInt32.size)
    connectionTimeoutSeconds :=
      .ofNat (← (← t.get? "connection_timeout_seconds").natural? UInt64.size)
    idleTimeoutSeconds := .ofNat (← (← t.get? "idle_timeout_seconds").natural? UInt64.size)
    maxLifetimeSeconds := .ofNat (← (← t.get? "max_lifetime_seconds").natural? UInt64.size) }

end DatabaseSettings

namespace CompilerSettings

def validate (s : CompilerSettings) : Except SettingsError Unit :=
  if (Dialect.ofName? s.dialect).isSome then .ok ()
  else .error (.invalid (.unknownDialect s.dialect))

def dialect? (s : CompilerSettings) : Except QueryError Dialect :=
  match Dialect.ofName? s.dialect with
  | some d => .ok d
  | none => .error (.unknownDialect s.dialect)

def options (s : CompilerSettings) : Options :=
  ⟨s.cachesSelectLists, s.maxParameters, s.validatesIdentifiers⟩

def ofToml? (t : Toml) : Option CompilerSettings := do
  let entry {α : Type} (key : String) (read : Toml → Option α) (default : α) : Option α :=
    match t.get? key with
    | none => some default
    | some held => read held
  match t with
  | .table _ _ =>
    return {
      dialect := ← entry "dialect" Toml.text? "standard"
      cachesSelectLists := ← entry "cache_select_statements" Toml.boolean? true
      maxParameters := .ofNat (← entry "max_parameters" (Toml.natural? UInt64.size) 0)
      validatesIdentifiers := ← entry "validate_identifiers" Toml.boolean? true }
  | _ => none

end CompilerSettings

namespace Settings

def ofToml? (t : Toml) : Option Settings := do
  let database ← DatabaseSettings.ofToml? (← t.get? "database")
  match t.get? "compiler" with
  | none => return ⟨database, {}⟩
  | some held => return ⟨database, ← CompilerSettings.ofToml? held⟩

/-- The database is checked before the compiler. -/
def validate (s : Settings) : Except SettingsError Unit := do
  s.database.validate
  s.compiler.validate

def ofText (text : String) : Except SettingsError Settings := do
  match (Toml.parse? text).bind ofToml? with
  | some s => do
    s.validate
    return s
  | none => throw .malformed

end Settings
end DmlCompiler
