import Eventful.Main
import Eventful.Proofs.Clock
import Eventful.Proofs.Host.History
import Eventful.Proofs.Page.Listeners
import Eventful.Proofs.Page.Roll
import Eventful.Proofs.Page.Chain
import Eventful.Proofs.Page.TreeEdits
import Eventful.Proofs.Page.Way
import Eventful.Proofs.Binding.Runtime
import Eventful.Proofs.Host.Books
import Eventful.Proofs.Host.Contract
import Eventful.Proofs.Host.ListenerBooks
import Eventful.Proofs.Host.EntryBooks
import Eventful.Proofs.Host.TimerBooks
import Eventful.Proofs.Host.Onward
import Eventful.Proofs.Host.Upkeep
import Eventful.Proofs.Host.Withdrawing
import Eventful.Proofs.Host.Registering
import Eventful.Proofs.Host.Keeping
import Eventful.Proofs.Directive.Plan
import Eventful.Proofs.Directive.Order
import Eventful.Proofs.Host.Calling
import Eventful.Proofs.Host.Firing
import Eventful.Proofs.Host.Conduct
import Eventful.Proofs.Host.Consistency
import Eventful.Proofs.Host.Unbinding
import Eventful.Proofs.Host.Guards
import Eventful.Proofs.Host.Once
import Eventful.Proofs.Host.Edits
import Eventful.Proofs.Host.Ringing
import Eventful.Proofs.Host.Debounce
import Eventful.Proofs.Host.Tending
import Eventful.Proofs.Host.Calls
import Eventful.Proofs.Host.Rounds
import Eventful.Proofs.Host.Order
import Eventful.Proofs.Host.Sharing
import Eventful.Proofs.Host.Runs
import Eventful.Proofs.Host.Sweep
import Eventful.Proofs.Host.Strokes
import Eventful.Proofs.Host.Passage
import Eventful.Proofs.Host.Timekeeping
import Eventful.Proofs.Page.Subtree
import Eventful.Proofs.Page.Leaving
import Eventful.Proofs.Host.Removals
import Eventful.Proofs.Host.Watching
import Eventful.Proofs.Host.Tearing
import Eventful.Proofs.Host.Teardown
import Eventful.Proofs.Expr.Lexing
import Eventful.Proofs.Expr.Numbering
import Eventful.Proofs.Expr.Parsing
import Eventful.Proofs.Expr.Printing
import Eventful.Proofs.Expr.RoundTrip
import Eventful.Proofs.Expr.Scanning
import Eventful.Proofs.Expr.Tiling
import Eventful.Proofs.Expr.Spelling
import Eventful.Proofs.Expr.Walking
import Eventful.Proofs.Expr.WellFormed
import Eventful.Proofs.Host.Subscribers
import Eventful.Proofs.Host.Callers
import Eventful.Proofs.Host.Walks
import Eventful.Proofs.Directive.Chain
import Eventful.Proofs.Host.Pipeline
import Eventful.Proofs.Host.Outside
import Eventful.Proofs.Binding.Evaluators
import Eventful.Proofs.Host.Mirroring
import Eventful.Proofs.Host.Faithful
import Eventful.Proofs.Host.Isolation
import Eventful.Proofs.Expr.Caching
import Eventful.Proofs.Host.Quiet
import Eventful.Proofs.Host.Carrying
import Eventful.Proofs.Host.Idle
import Eventful.Proofs.Host.Replaying
import Eventful.Proofs.Host.Caching
import Eventful.Proofs.Host.Dropping
import Eventful.Proofs.Text
import Eventful.Proofs.Page.Attributes
import Eventful.Proofs.Page.Reached
import Eventful.Proofs.Host.Documents
import Eventful.Proofs.Page.Loops
import Eventful.Proofs.Page.Lookups
import Eventful.Proofs.Page.Rewriting
import Eventful.Proofs.Host.Growing
import Eventful.Proofs.Host.Checkboxes
import Eventful.Proofs.Host.Answering
import Eventful.Proofs.Host.Attempts
import Eventful.Proofs.Host.Draining
import Eventful.Proofs.Host.Subsiding
import Eventful.Proofs.Host.Deadlines
import Eventful.Proofs.Expr.Reading
import Eventful.Proofs.Host.Assigning
import Eventful.Proofs.Host.Setting
import Eventful.Proofs.Host.Reporting
import Eventful.Proofs.Host.Standing
import Eventful.Proofs.Scope.Access
import Eventful.Proofs.Expr.Paths
import Eventful.Proofs.Host.Refusing
import Eventful.Proofs.Host.Compound
import Eventful.Proofs.Expr.Shadowing
import Eventful.Proofs.Host.Shadowing
import Eventful.Proofs.Expr.Visiting
import Eventful.Proofs.Host.Surfacing
import Eventful.Proofs.Directive.Places
import Eventful.Proofs.Expr.Dotted
import Eventful.Proofs.Binding.Shortcut
import Eventful.Proofs.Text.Casing
import Eventful.Proofs.Directive.Naming
import Eventful.Proofs.Number.Digits
import Eventful.Proofs.Directive.Known
import Eventful.Proofs.Number.Doubles
import Eventful.Proofs.Number.Integers
import Eventful.Proofs.Expr.NumberKeys
import Eventful.Proofs.Expr.Lexemes
import Eventful.Proofs.Expr.Leaves
import Eventful.Proofs.Expr.Identifiers
