import GraphQL.Cancellation
import GraphQL.Coercion.Arguments
import GraphQL.Coercion.Error
import GraphQL.Coercion.Literal
import GraphQL.Coercion.Position
import GraphQL.Coercion.Request
import GraphQL.Coercion.Value
import GraphQL.Coercion.Variables
import GraphQL.Decimal.Binary
import GraphQL.Decimal.Bounds
import GraphQL.Decimal.Layout
import GraphQL.Decimal.Reading
import GraphQL.Decimal.Shortest
import GraphQL.Document.Basic
import GraphQL.Document.Literal
import GraphQL.Document.LiteralValue
import GraphQL.Document.Parser
import GraphQL.Document.Printer
import GraphQL.Document.Token
import GraphQL.Execution.Collect
import GraphQL.Execution.Engine
import GraphQL.Execution.Field
import GraphQL.Execution.Introspection
import GraphQL.Execution.Level
import GraphQL.Execution.Operation
import GraphQL.Execution.Request
import GraphQL.Execution.Resolver
import GraphQL.Execution.Subscription
import GraphQL.Execution.Tree
import GraphQL.FieldValue
import GraphQL.Ini.Reader
import GraphQL.Json.Basic
import GraphQL.Json.Reader
import GraphQL.Json.Relaxed
import GraphQL.Json.Writer
import GraphQL.Named
import GraphQL.Response.Error
import GraphQL.Response.Result
import GraphQL.Ron.Reader
import GraphQL.Schema.Build
import GraphQL.Schema.Description
import GraphQL.Schema.Directives
import GraphQL.Schema.Meta
import GraphQL.Schema.Registry
import GraphQL.Schema.Scalars
import GraphQL.Schema.TypeRef
import GraphQL.Schema.Types
import GraphQL.Settings.Basic
import GraphQL.Settings.Duration
import GraphQL.Settings.Load
import GraphQL.Settings.Logging
import GraphQL.Settings.Options
import GraphQL.Settings.Tree
import GraphQL.Text.Blank
import GraphQL.Text.Digits
import GraphQL.Text.Lines
import GraphQL.Text.Printable
import GraphQL.Text.Reading
import GraphQL.Toml.Reader
import GraphQL.Toml.Scalar
import GraphQL.Validation.FieldSets
import GraphQL.Validation.Plan
import GraphQL.Validation.Request
import GraphQL.Validation.Rule
import GraphQL.Validation.Rules.Directives
import GraphQL.Validation.Rules.Fields
import GraphQL.Validation.Rules.Fragments
import GraphQL.Validation.Rules.Names
import GraphQL.Validation.Rules.Overlap
import GraphQL.Validation.Rules.Subscriptions
import GraphQL.Validation.Rules.Variables
import GraphQL.Validation.Tour
import GraphQL.Validation.Usages
import GraphQL.Validation.Visit
import GraphQL.Validation.Walk
import GraphQL.Yaml.Block
import GraphQL.Yaml.Cursor
import GraphQL.Yaml.Document
import GraphQL.Yaml.Node
import GraphQL.Yaml.Plain
import GraphQL.Yaml.Quoted
import GraphQL.Yaml.Scalar
import GraphQL.Yaml.Tag
import GraphQL.Yaml.Token
import GraphQL.Proofs.Document.Nesting
import GraphQL.Proofs.Execution.Collection
import GraphQL.Proofs.Execution.Completion
import GraphQL.Proofs.Execution.Executor
import GraphQL.Proofs.Execution.Tokens
import GraphQL.Proofs.Execution.Schedule
import GraphQL.Proofs.Execution.Failures
import GraphQL.Proofs.Execution.Evaluation
import GraphQL.Proofs.Execution.Refinement
import GraphQL.Proofs.Execution.Interpretation
import GraphQL.Proofs.Execution.Conformance
import GraphQL.Proofs.Document.Positions
import GraphQL.Proofs.Schema.Registration
import GraphQL.Proofs.Validation.Comparisons
import GraphQL.Proofs.Validation.Memory
import GraphQL.Proofs.Validation.Descent
import GraphQL.Proofs.Validation.Calls
import GraphQL.Proofs.Validation.Overlap
import GraphQL.Proofs.Document.Reading
import GraphQL.Proofs.Schema.Possible
import GraphQL.Proofs.Execution.Merged
import GraphQL.Proofs.Execution.Expansion
import GraphQL.Proofs.Execution.Log
import GraphQL.Proofs.Execution.Serial
import GraphQL.Proofs.Fallible
import GraphQL.Proofs.Coercion.DryRun
import GraphQL.Proofs.Coercion.Variables
import GraphQL.Proofs.Coercion.Checked
import GraphQL.Proofs.Execution.Arguments
import GraphQL.Proofs.Document.Objects
import GraphQL.Proofs.Validation.Dispatch
import GraphQL.Proofs.Schema.Acceptance
import GraphQL.Proofs.Schema.Coherence
import GraphQL.Proofs.Execution.Dispatching
import GraphQL.Proofs.Execution.Supervision
import GraphQL.Proofs.Execution.Attendance
import GraphQL.Proofs.Execution.Cancellation
import GraphQL.Proofs.Execution.Subscription
import GraphQL.Proofs.Execution.Recording
import GraphQL.Proofs.Coercion.Conformance
import GraphQL.Proofs.Coercion.Relation
import GraphQL.Proofs.Coercion.Inline
import GraphQL.Proofs.Coercion.InputTypes
import GraphQL.Proofs.Coercion.Agreement
import GraphQL.Proofs.Coercion.Promotion
import GraphQL.Proofs.Coercion.Substitution
import GraphQL.Proofs.Validation.Tour
import GraphQL.Proofs.Validation.Outline
import GraphQL.Proofs.Validation.Typing
import GraphQL.Proofs.Execution.Outcomes
import GraphQL.Proofs.Execution.MetaFields
import GraphQL.Proofs.Execution.Introspection
import GraphQL.Proofs.Execution.Faithfulness
import GraphQL.Proofs.Coercion.Untyped
import GraphQL.Proofs.Validation.Directives
import GraphQL.Proofs.Execution.Meeting
import GraphQL.Proofs.Execution.Conditions
import GraphQL.Proofs.Validation.CycleWalks
import GraphQL.Proofs.Validation.Discovery
import GraphQL.Proofs.Validation.Occurrences
import GraphQL.Proofs.Validation.Following
import GraphQL.Proofs.Document.Places
import GraphQL.Proofs.Execution.Nodes
import GraphQL.Proofs.Execution.Inlining
import GraphQL.Proofs.Validation.RootFields
import GraphQL.Proofs.Validation.Spreads
import GraphQL.Proofs.Response.Errors
import GraphQL.Proofs.Coercion.Printing
import GraphQL.Proofs.Coercion.ArgumentObjects
import GraphQL.Proofs.Coercion.Idempotence
import GraphQL.Proofs.Coercion.ErrorPaths
import GraphQL.Proofs.Coercion.VariableOutcomes
import GraphQL.Proofs.Schema.Subtypes
import GraphQL.Proofs.Execution.TokenFamilies
import GraphQL.Proofs.Execution.Walks
import GraphQL.Proofs.Execution.Representation
import GraphQL.Proofs.Execution.Termination
