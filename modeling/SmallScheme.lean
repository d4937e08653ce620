import SmallScheme.Arity
import SmallScheme.Datum.Basic
import SmallScheme.Datum.Printer
import SmallScheme.Decimal.Shortest
import SmallScheme.Decimal.Reading
import SmallScheme.Decimal.RealText
import SmallScheme.Evaluation.Application
import SmallScheme.Evaluation.Direct
import SmallScheme.Evaluation.Form
import SmallScheme.Evaluation.Machine
import SmallScheme.Evaluation.SpecialForm
import SmallScheme.Host.Sample
import SmallScheme.Number
import SmallScheme.Primitive.Basic
import SmallScheme.Primitive.Numeric
import SmallScheme.Primitive.Operation
import SmallScheme.Primitive.Sequential
import SmallScheme.Primitive.Signature
import SmallScheme.Primitive.Structural
import SmallScheme.Proofs.BoundOperands
import SmallScheme.Proofs.DynamicContext
import SmallScheme.Proofs.Escapes
import SmallScheme.Proofs.Excerpts
import SmallScheme.Proofs.Handlers
import SmallScheme.Proofs.Host
import SmallScheme.Proofs.Limit
import SmallScheme.Proofs.MacroAssignment
import SmallScheme.Proofs.Macroexpansion
import SmallScheme.Proofs.Moment.Basic
import SmallScheme.Proofs.Moment.Event
import SmallScheme.Proofs.Moment.Guarded
import SmallScheme.Proofs.Moment.Life
import SmallScheme.Proofs.Moment.Orderly
import SmallScheme.Proofs.Moment.Origin
import SmallScheme.Proofs.Moment.Rebinding
import SmallScheme.Proofs.Moment.Respect
import SmallScheme.Proofs.Moment.Surroundings
import SmallScheme.Proofs.Moment.Trace
import SmallScheme.Proofs.Moment.Unwinding
import SmallScheme.Proofs.Moment.Waiting
import SmallScheme.Proofs.NativeFunctions
import SmallScheme.Proofs.Nesting
import SmallScheme.Proofs.PatternInstances
import SmallScheme.Proofs.Quotations
import SmallScheme.Proofs.Reader.Acceptance
import SmallScheme.Proofs.WrittenData
import SmallScheme.Proofs.Reader.Dispatch
import SmallScheme.Proofs.Reader.Literal
import SmallScheme.Proofs.Reader.Recovery
import SmallScheme.Proofs.Realm.Action
import SmallScheme.Proofs.Realm.Basic
import SmallScheme.Proofs.Realm.Construct
import SmallScheme.Proofs.Realm.Dynamic
import SmallScheme.Proofs.Realm.Filling
import SmallScheme.Proofs.Realm.Matching
import SmallScheme.Proofs.Realm.Primitive
import SmallScheme.Proofs.Realm.Rebinding
import SmallScheme.Proofs.Realm.Run
import SmallScheme.Proofs.Realm.Script
import SmallScheme.Proofs.Realm.Special
import SmallScheme.Proofs.Realm.Store
import SmallScheme.Proofs.Rebinding
import SmallScheme.Proofs.Root
import SmallScheme.Proofs.Script.Conduct
import SmallScheme.Proofs.Script.Construct
import SmallScheme.Proofs.Script.Indifference
import SmallScheme.Proofs.Script.Law
import SmallScheme.Proofs.Script.Sequence
import SmallScheme.Proofs.Script.Special
import SmallScheme.Proofs.Store.Binding
import SmallScheme.Proofs.Store.Growth
import SmallScheme.Proofs.Store.Lexical
import SmallScheme.Proofs.Store.Outline
import SmallScheme.Proofs.Store.Primitive
import SmallScheme.Proofs.Store.Likeness
import SmallScheme.Proofs.Tails
import SmallScheme.Proofs.TemplateNames
import SmallScheme.Proofs.Transformer.Binders
import SmallScheme.Proofs.Transformer.Completeness
import SmallScheme.Proofs.Transformer.Copy
import SmallScheme.Proofs.Transformer.Filling
import SmallScheme.Proofs.Transformer.Instance
import SmallScheme.Proofs.Transformer.Matching
import SmallScheme.Proofs.Transformer.Overlay
import SmallScheme.Proofs.Transformer.Settling
import SmallScheme.Proofs.Unlimited
import SmallScheme.Proofs.Winds
import SmallScheme.Reader.Basic
import SmallScheme.Reader.ReadError
import SmallScheme.Reader.Token
import SmallScheme.Regex.Engine
import SmallScheme.Regex.Pattern
import SmallScheme.Regex.Reading
import SmallScheme.Regex.Search
import SmallScheme.Script.Basic
import SmallScheme.Session.Basic
import SmallScheme.Session.Library
import SmallScheme.Special.Binding
import SmallScheme.Special.Control
import SmallScheme.Special.Dynamic
import SmallScheme.Special.Quasiquotation
import SmallScheme.Special.Template
import SmallScheme.Special.Transforming
import SmallScheme.Store.Basic
import SmallScheme.Store.Chain
import SmallScheme.Store.Equality
import SmallScheme.Store.Form
import SmallScheme.Store.Formals
import SmallScheme.Store.Load
import SmallScheme.Store.Report
import SmallScheme.Store.Scope
import SmallScheme.Store.View
import SmallScheme.Text.CodeRange
import SmallScheme.Text.Quoted
import SmallScheme.Text.WordCharacter
import SmallScheme.Transformer.Basic
import SmallScheme.Transformer.Capture
import SmallScheme.Transformer.Pattern
import SmallScheme.Transformer.Template
import SmallScheme.Value.Basic
import SmallScheme.Value.Fault
import SmallScheme.Word
import SmallScheme.Proofs.ClosedMacros
import SmallScheme.Proofs.JoinedTexts
import SmallScheme.Proofs.LineByLine
import SmallScheme.Proofs.NestingLimit
import SmallScheme.Proofs.ScopeReference
import SmallScheme.Proofs.Application
import SmallScheme.Proofs.WholeDivision
import SmallScheme.Proofs.FailedBinding
import SmallScheme.Proofs.ArityFaults
import SmallScheme.Proofs.Store.Refusal
import SmallScheme.Proofs.Store.Loading
import SmallScheme.Proofs.Serving
import SmallScheme.Proofs.TailPosition
import SmallScheme.Proofs.ProcedureForms
import SmallScheme.Proofs.InitialScope
import SmallScheme.Proofs.Programs
import SmallScheme.Proofs.TailLoops
import SmallScheme.Proofs.Reals
import SmallScheme.Proofs.ExactArithmetic
import SmallScheme.Proofs.Membership
import SmallScheme.Store.Comparison
import SmallScheme.Proofs.Store.Parts
import SmallScheme.Proofs.Equality
import SmallScheme.Proofs.LoadedLibrary
import SmallScheme.Proofs.Store.Race
import SmallScheme.Proofs.Chains
import SmallScheme.Proofs.WrittenLists
import SmallScheme.Proofs.Quasiquotation.Meaning
import SmallScheme.Proofs.Quasiquotation.Reading
import SmallScheme.Proofs.Quasiquotation.Filling
import SmallScheme.Proofs.Quasiquotation.Quoting
import SmallScheme.Proofs.Quasiquotation.Spelling
import SmallScheme.Proofs.Quasiquotation
import SmallScheme.Proofs.Folds
import SmallScheme.Proofs.Mutation
import SmallScheme.Proofs.InsertedBlanks
import SmallScheme.Proofs.MatchResults
import SmallScheme.Proofs.CircularLists
import SmallScheme.Proofs.ReadingEnds
import SmallScheme.Proofs.Quasiquotation.Serving
