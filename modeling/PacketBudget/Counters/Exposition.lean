import PacketBudget.Counters
import PacketBudget.Identity
import PacketBudget.Text.Blank
import PacketBudget.Text.Numeral

/-!
Counters and gauges as monitoring text: for each metric a help line, a type line and a sample line
`name{service="id"} value`; and the reader of such text.
-/

namespace PacketBudget.Exposition

/-- One metric, with what is said about it and its value. -/
structure Metric where
  name : String
  help : String
  kind : String
  value : Nat
  deriving DecidableEq, Repr

/-- One sample line. -/
structure Sample where
  name : List Char
  service : List Char
  value : List Char
  deriving DecidableEq, Repr

/-- The eleven metrics, in the order in which they are written. -/
def metrics (c : Counters) (used ceiling : Nat) : List Metric :=
  [ ⟨"servicenet_connections_admitted_total", "Connections admitted", "counter",
      c.connectionsAdmitted.toNat⟩,
    ⟨"servicenet_connections_rejected_total", "Connections rejected", "counter",
      c.connectionsRejected.toNat⟩,
    ⟨"servicenet_active_connections", "Connections currently registered", "gauge",
      c.activeConnections.toNat⟩,
    ⟨"servicenet_packets_admitted_total", "Packets admitted against the budget", "counter",
      c.packetsAdmitted.toNat⟩,
    ⟨"servicenet_packets_rejected_total", "Packets rejected", "counter",
      c.packetsRejected.toNat⟩,
    ⟨"servicenet_budget_exhausted_total", "Rejections caused by budget exhaustion", "counter",
      c.budgetExhausted.toNat⟩,
    ⟨"servicenet_integration_errors_total", "Host ordering or duplicate-id violations", "counter",
      c.integrationErrors.toNat⟩,
    ⟨"servicenet_bytes_reserved_total", "Bytes reserved from the budget", "counter",
      c.bytesReserved.toNat⟩,
    ⟨"servicenet_bytes_released_total", "Bytes released back to the budget", "counter",
      c.bytesReleased.toNat⟩,
    ⟨"servicenet_budget_used_bytes", "Packet memory currently reserved", "gauge", used⟩,
    ⟨"servicenet_budget_ceiling_bytes", "Configured packet memory ceiling", "gauge", ceiling⟩ ]

/-- The sample line of a metric. -/
def Metric.sample (id : Identity) (m : Metric) : String :=
  m.name ++ "\x7bservice=\"" ++ toString id ++ "\"\x7d " ++ toString m.value

/-- The three lines of a metric. -/
def Metric.lines (id : Identity) (m : Metric) : List String :=
  ["# HELP " ++ m.name ++ " " ++ m.help, "# TYPE " ++ m.name ++ " " ++ m.kind, m.sample id]

/-- The whole text; every line ends with a line feed. -/
def render (c : Counters) (id : Identity) (used ceiling : Nat) : String :=
  String.join (((metrics c used ceiling).flatMap (·.lines id)).map (· ++ "\n"))

/-- Reads `name{service="id"} value`. -/
def Sample.read? (line : List Char) : Option Sample := do
  let (name, rest) ← Text.cut? '\x7b' line
  let (label, rest) ← Text.cut? '"' rest
  guard (label = "service=".toList)
  let (service, rest) ← Text.cut? '"' rest
  match rest with
  | '\x7d' :: ' ' :: value => some ⟨name, service, value⟩
  | _ => none

/-- The samples of a text: its lines that are neither empty nor comments, if all of them read. -/
def samples? (text : String) : Option (List Sample) :=
  ((Text.lines text.toList).filter fun l => l ≠ [] ∧ l.head? ≠ some '#').mapM Sample.read?

theorem length_metrics (c : Counters) (used ceiling : Nat) :
    (metrics c used ceiling).length = 11 := rfl

end PacketBudget.Exposition
