import DmlCompiler.Query.Compilation
import DmlCompiler.Settings

/-! # The compiler

A compiler holds a dialect, its options and the registered entities, and compiles queries for a
provider that runs them. The PostgreSQL provider takes only commands of its own dialect, which it
tells by the names of their parameters.
-/
namespace DmlCompiler

inductive CompilerError where
  | query (cause : QueryError)
  | settings (cause : SettingsError)
  | unsupportedProvider (dialect : Dialect)
  | dialectMismatch (expected : Dialect) (parameter : String)
deriving DecidableEq, Repr

def CompilerError.message : CompilerError → String
  | .query cause => cause.message
  | .settings cause => s!"Configuration error: {cause.message}"
  | .unsupportedProvider dialect =>
    s!"No storage provider available for the {dialect.name} dialect"
  | .dialectMismatch expected parameter =>
    s!"Parameter {parameter} was not compiled for the {expected.name} dialect"

structure Provider where
  dialect : Dialect
  run : Command → Except CompilerError Nat

structure Compiler where
  dialect : Dialect
  options : Options
  registry : Registry

namespace Compiler

def new (dialect : Dialect) (options : Options := {}) : Compiler :=
  ⟨dialect, options, .new options.validatesIdentifiers⟩

def ofSettings (s : CompilerSettings) : Except CompilerError Compiler := do
  s.validate.mapError .settings
  return new (← s.dialect?.mapError .query) s.options

def register (c : Compiler) (e : Entity) : Except CompilerError Compiler := do
  return { c with registry := ← (c.registry.register e).mapError .query }

def draft (c : Compiler) (cache : SelectCache) : Draft := .new c.dialect c.registry c.options cache

def compile (c : Compiler) (cache : SelectCache) (q : Query) :
    Except CompilerError Command × SelectCache :=
  let (result, draft) := (c.draft cache).compile q
  (result.mapError .query, draft.cache)

def checkConnection (c : Compiler) (s : DatabaseSettings) : Except CompilerError Unit :=
  if c.dialect = .postgres then s.validate.mapError .settings
  else .error (.unsupportedProvider c.dialect)

def execute (c : Compiler) (cache : SelectCache) (p : Provider) (q : Query) :
    Except CompilerError Nat × SelectCache :=
  if p.dialect = c.dialect then
    let (result, cache) := c.compile cache q
    (result.bind p.run, cache)
  else (.error (.unsupportedProvider p.dialect), cache)

end Compiler

namespace Postgres

def isPositional (name : String) : Bool :=
  match name.toList with
  | '$' :: digits => !digits.isEmpty && digits.all Text.isDigit
  | _ => false

/-- Refuses a command by its first parameter of a foreign name. -/
def checkCommand (c : Command) : Except CompilerError Unit :=
  match c.parameters.find? fun p => !isPositional p.name with
  | some p => .error (.dialectMismatch .postgres p.name)
  | none => .ok ()

end Postgres
end DmlCompiler
