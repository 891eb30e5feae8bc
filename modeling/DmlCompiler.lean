import DmlCompiler.Compiler
import DmlCompiler.Expression.Fluent
import DmlCompiler.Mapping.Code
import DmlCompiler.Mapping.Record
import DmlCompiler.Query.Levels
import DmlCompiler.Settings.Json
import DmlCompiler.Transport.Decoding
import DmlCompiler.Proofs.Results
import DmlCompiler.Proofs.Build.Mirrors
import DmlCompiler.Proofs.Values
import DmlCompiler.Proofs.Values.Fragments
import DmlCompiler.Proofs.Values.Calls
import DmlCompiler.Proofs.Values.Queries
import DmlCompiler.Proofs.ValueIndependence
import DmlCompiler.Proofs.Build.Keeps
import DmlCompiler.Proofs.Frame
import DmlCompiler.Proofs.Replay
import DmlCompiler.Proofs.Lexing
import DmlCompiler.Proofs.Renaming
import DmlCompiler.Proofs.Rendering.Fragments
import DmlCompiler.Proofs.Rendering.Calls
import DmlCompiler.Proofs.Rendering.Queries
import DmlCompiler.Proofs.Build.Programs
import DmlCompiler.Proofs.Programs
import DmlCompiler.Proofs.Build.Exchange
import DmlCompiler.Proofs.SelectLists.Calls
import DmlCompiler.Proofs.SelectLists.Histories
import DmlCompiler.Proofs.Grammar.Sentences
import DmlCompiler.Proofs.Grammar
import DmlCompiler.Proofs.SelectLists
import DmlCompiler.Proofs.SelectLists.Valid
import DmlCompiler.Proofs.Compiled
import DmlCompiler.Proofs.Placeholders
import DmlCompiler.Proofs.Balance
import DmlCompiler.Proofs.Build.Yields
import DmlCompiler.Proofs.Conditions.Grammar
import DmlCompiler.Proofs.Conditions.Reading
import DmlCompiler.Proofs.Conditions.Sequences
import DmlCompiler.Proofs.Conditions.Clauses
import DmlCompiler.Proofs.Conditions.Shapes
import DmlCompiler.Proofs.Conditions.Expressions
import DmlCompiler.Proofs.Conditions.Statements
import DmlCompiler.Proofs.Conditions
import DmlCompiler.Proofs.Build.Couples
import DmlCompiler.Proofs.SubQueries
import DmlCompiler.Proofs.Coupling.Expressions
import DmlCompiler.Proofs.Coupling.Calls
import DmlCompiler.Proofs.Coupling.Lists
import DmlCompiler.Proofs.Coupling.Commands
import DmlCompiler.Proofs.Template
import DmlCompiler.Proofs.Inlining.Shift
import DmlCompiler.Proofs.Inlining
import DmlCompiler.Proofs.Coupling.Dialects
import DmlCompiler.Proofs.Dialects
import DmlCompiler.Proofs.Digits
import DmlCompiler.Proofs.Json.Leaves
import DmlCompiler.Proofs.Json.Tokens
import DmlCompiler.Proofs.Json.Reading
import DmlCompiler.Proofs.Uuid
import DmlCompiler.Proofs.Timestamp
import DmlCompiler.Proofs.Timestamp.Instants
import DmlCompiler.Proofs.Timestamp.Rfc3339
import DmlCompiler.Proofs.RecordFields
import DmlCompiler.Proofs.Transport.Arrival
import DmlCompiler.Proofs.Transport.Values
import DmlCompiler.Proofs.Transport.Queries
import DmlCompiler.Proofs.Transport.Carried
import DmlCompiler.Proofs.Transport
import DmlCompiler.Proofs.Parentheses
import DmlCompiler.Proofs.Kinds.Calls
import DmlCompiler.Proofs.Kinds
import DmlCompiler.Proofs.Nodes
import DmlCompiler.Proofs.Permissions
import DmlCompiler.Proofs.Names.Vocabulary
import DmlCompiler.Proofs.Names.Expressions
import DmlCompiler.Proofs.Names.Statements
import DmlCompiler.Proofs.Names
import DmlCompiler.Proofs.Registration
import DmlCompiler.Proofs.Observation
import DmlCompiler.Proofs.Composition
import DmlCompiler.Proofs.Alphabet
import DmlCompiler.Proofs.Nesting
import DmlCompiler.Proofs.Authority
import DmlCompiler.Proofs.Bindings
import DmlCompiler.Proofs.Build.Steps
import DmlCompiler.Proofs.Records
import DmlCompiler.Proofs.ConditionCalls
import DmlCompiler.Proofs.Comparisons
import DmlCompiler.Proofs.Combination
import DmlCompiler.Proofs.Failure
import DmlCompiler.Proofs.Build.Stays
import DmlCompiler.Proofs.Histories
import DmlCompiler.Proofs.Provider
import DmlCompiler.Proofs.Coupling.Kept
import DmlCompiler.Proofs.Traversal
import DmlCompiler.Proofs.Build.Caps
import DmlCompiler.Proofs.Operands
import DmlCompiler.Proofs.Dispatch.Reading
import DmlCompiler.Proofs.Dispatch
import DmlCompiler.Proofs.Rows
import DmlCompiler.Proofs.ParameterLimit
import DmlCompiler.Proofs.Selections
import DmlCompiler.Proofs.SelectLists.Defaults
import DmlCompiler.Proofs.Endings
import DmlCompiler.Proofs.RowLimits
import DmlCompiler.Proofs.Attributes
import DmlCompiler.Proofs.Mapping.Reading
import DmlCompiler.Proofs.Mapping
import DmlCompiler.Proofs.Connection
import DmlCompiler.Proofs.Renaming.Occurrences
import DmlCompiler.Proofs.Renaming.Substitution
