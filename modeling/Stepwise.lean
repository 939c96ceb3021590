import Stepwise.Arithmetic
import Stepwise.Cli.Arguments
import Stepwise.Cli.Benchmark
import Stepwise.Cli.Command
import Stepwise.Cli.Host
import Stepwise.Cli.Markup
import Stepwise.Cli.Percentile
import Stepwise.Cli.Report
import Stepwise.Cli.Run
import Stepwise.Cli.Table
import Stepwise.Decimal.Binary
import Stepwise.Decimal.Layout
import Stepwise.Decimal.Reader
import Stepwise.Decimal.Shortest
import Stepwise.Expr.Fault
import Stepwise.Expr.Operation
import Stepwise.Expr.Plan
import Stepwise.Expr.Postfix
import Stepwise.Expr.Token
import Stepwise.Http.Request
import Stepwise.Http.Service
import Stepwise.Json.Printer
import Stepwise.Json.Reader
import Stepwise.Json.Value
import Stepwise.Main
import Stepwise.Proofs.Expr.Acceptance
import Stepwise.Proofs.Expr.Faults
import Stepwise.Proofs.Expr.Grammar
import Stepwise.Proofs.Expr.Lexing
import Stepwise.Proofs.Expr.Meaning
import Stepwise.Proofs.Expr.Numbering
import Stepwise.Proofs.Expr.Postorder
import Stepwise.Proofs.Expr.Reordering
import Stepwise.Proofs.Expr.Scanning
import Stepwise.Proofs.Transport.Outcome
import Stepwise.Service.Budget
import Stepwise.Service.Client
import Stepwise.Service.Installation
import Stepwise.Service.Scheduler
import Stepwise.Service.Worker
import Stepwise.Settings
import Stepwise.Text.Blank
import Stepwise.Text.Digit
import Stepwise.Text.Encoding
import Stepwise.Text.Printable
import Stepwise.Text.Quoted
import Stepwise.Text.Width
import Stepwise.Text.Wrap
import Stepwise.Transport.Address
import Stepwise.Transport.Amqp
import Stepwise.Transport.Broker
import Stepwise.Transport.Direct
import Stepwise.Transport.Fault
import Stepwise.Transport.Network
import Stepwise.Transport.Routine
import Stepwise.Transport.Trace
import Stepwise.Wire.Decode
import Stepwise.Wire.Issue
import Stepwise.Wire.Message
import Stepwise.Wire.Timestamp
import Stepwise.Proofs.Service.Story
import Stepwise.Proofs.Service.Table
import Stepwise.Proofs.Service.Routines
import Stepwise.Proofs.Service.Calls
import Stepwise.Proofs.Service.History
import Stepwise.Proofs.Decimal.Bits
import Stepwise.Proofs.Decimal.Rounding
import Stepwise.Proofs.Decimal.Shortest
import Stepwise.Proofs.Json.Number
import Stepwise.Proofs.Json.Text
import Stepwise.Proofs.Json.RoundTrip
import Stepwise.Proofs.Wire.RoundTrip
import Stepwise.Proofs.Service.Reference
import Stepwise.Proofs.Service.Worker
import Stepwise.Proofs.Service.Cluster
import Stepwise.Proofs.Service.Reuse
import Stepwise.Proofs.Service.Intake
import Stepwise.Proofs.Service.Discipline
import Stepwise.Proofs.Service.Concurrency
import Stepwise.Proofs.Transport.Delivery
import Stepwise.Proofs.Service.Punctual
import Stepwise.Proofs.Service.Session
import Stepwise.Proofs.Service.Legible
import Stepwise.Proofs.Transport.Invariant
import Stepwise.Proofs.Service.Course
import Stepwise.Proofs.Service.Stalls
import Stepwise.Proofs.Service.Independence
import Stepwise.Proofs.Service.Clients
import Stepwise.Proofs.Wire.Received
import Stepwise.Proofs.Transport.Traffic
import Stepwise.Proofs.Transport.Accounts
import Stepwise.Proofs.Service.Redelivery
import Stepwise.Proofs.Service.Budget
import Stepwise.Proofs.Service.Terms
import Stepwise.Proofs.Transport.Rules
import Stepwise.Proofs.Service.Sections
import Stepwise.Proofs.Service.Deadlines
import Stepwise.Proofs.Service.Verdict
import Stepwise.Proofs.Service.Unresolved
import Stepwise.Proofs.Service.Duplicates
import Stepwise.Proofs.Service.Aftermath
import Stepwise.Proofs.Transport.Trampoline
import Stepwise.Proofs.Service.Phases
import Stepwise.Proofs.Service.Ledger
import Stepwise.Proofs.Service.Tickets
import Stepwise.Proofs.Decimal.Value
import Stepwise.Proofs.Decimal.Operations
import Stepwise.Proofs.Service.Allotment
import Stepwise.Proofs.Transport.Subscriptions
import Stepwise.Proofs.Service.Naming
import Stepwise.Proofs.Transport.Publisher
import Stepwise.Proofs.Transport.Publishing
import Stepwise.Proofs.Transport.Closing
import Stepwise.Proofs.Cli.Windows
