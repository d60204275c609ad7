import PacketBudget.Total
import PacketBudget.Text.Blank
import PacketBudget.Text.Letter
import PacketBudget.Text.Numeral
import PacketBudget.Text.Terminal
import PacketBudget.Connection
import PacketBudget.Connection.Table
import PacketBudget.Fault
import PacketBudget.Budget
import PacketBudget.Identity
import PacketBudget.Identity.Pool
import PacketBudget.Counters
import PacketBudget.Counters.Exposition
import PacketBudget.Accounts
import PacketBudget.Ledger
import PacketBudget.Policy
import PacketBudget.Config
import PacketBudget.Config.Reader
import PacketBudget.Config.Writer
import PacketBudget.Pattern.Place
import PacketBudget.Pattern.Fault
import PacketBudget.Pattern.Term
import PacketBudget.Pattern.Cursor
import PacketBudget.Pattern.Reader
import PacketBudget.Pattern.Look
import PacketBudget.Pattern.Charset
import PacketBudget.Pattern.Expr
import PacketBudget.Pattern.Texts
import PacketBudget.Pattern.Octets
import PacketBudget.Pattern.Machine
import PacketBudget.Pattern.Machine.Builder
import PacketBudget.Pattern.Machine.Search
import PacketBudget.Pattern.Meaning
import PacketBudget.Pattern
import PacketBudget.Log
import PacketBudget.Notice
import PacketBudget.Service
import PacketBudget.Stream
import PacketBudget.Frame
import PacketBudget.Frame.Assembly
import PacketBudget.Handler
import PacketBudget.Conversation
import PacketBudget.Budget.Race
import PacketBudget.Ledger.Race
import PacketBudget.Host
import PacketBudget.Host.Address
import PacketBudget.Host.Address.Reader
import PacketBudget.Host.Client
import PacketBudget.Program
import PacketBudget.Main
import PacketBudget.Proofs.Table
import PacketBudget.Proofs.Moves
import PacketBudget.Proofs.Registration
import PacketBudget.Proofs.Balance
import PacketBudget.Proofs.Epochs
import PacketBudget.Proofs.Holdings
import PacketBudget.Proofs.Conservation
import PacketBudget.Proofs.Effects
import PacketBudget.Proofs.Framing
import PacketBudget.Proofs.Interleaving
import PacketBudget.Proofs.Leases
import PacketBudget.Proofs.RoundTrip
import PacketBudget.Proofs.Serving
import PacketBudget.Proofs.Ticks
import PacketBudget.Proofs.Counting
import PacketBudget.Proofs.Restoring
import PacketBudget.Proofs.Tasks
import PacketBudget.Proofs.Hosting
import PacketBudget.Proofs.Decisions
import PacketBudget.Proofs.Gauge
import PacketBudget.Proofs.FirstHost
import PacketBudget.Proofs.Locality
import PacketBudget.Proofs.Settling
import PacketBudget.Proofs.Orders
import PacketBudget.Proofs.Ceilings
import PacketBudget.Proofs.Isolation
import PacketBudget.Proofs.Refusals
import PacketBudget.Proofs.Reception
import PacketBudget.Proofs.Callbacks
import PacketBudget.Proofs.LineForms
import PacketBudget.Proofs.LineByLine
import PacketBudget.Proofs.DirectAccess
import PacketBudget.Proofs.Spelling
import PacketBudget.Proofs.ReadBack
import PacketBudget.Proofs.Requalifying
import PacketBudget.Proofs.Timing
import PacketBudget.Proofs.Layout
import PacketBudget.Proofs.Journal
import PacketBudget.Proofs.Shards
import PacketBudget.Proofs.Identities
import PacketBudget.Proofs.Samples
