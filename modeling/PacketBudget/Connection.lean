/-!
Connections as the accounting sees them: an id given by the host, an entry per registered
connection, and charges, each bound to the registration it was taken on.
-/

namespace PacketBudget

/-- The host's key for a connection. -/
structure ConnId where
  val : UInt64
  deriving DecidableEq, Repr

instance : ToString ConnId := ⟨fun c => toString c.val.toNat⟩

/-- What one registration of a connection holds. Successive registrations of an id differ in
their epoch. -/
structure Entry where
  epoch : UInt64
  overhead : Nat
  packetBytes : Nat := 0
  inFlight : Nat := 0
  total : Nat := 0
  deriving DecidableEq, Repr

namespace Entry

/-- The bytes the entry holds of the budget. -/
def charged (e : Entry) : Nat := e.overhead + e.packetBytes

/-- One more packet of `n` bytes. -/
def charge (e : Entry) (n : Nat) : Entry :=
  { e with packetBytes := e.packetBytes + n, inFlight := e.inFlight + 1, total := e.total + 1 }

/-- One packet fewer in flight, and up to `n` bytes. -/
def credit (e : Entry) (n : Nat) : Entry :=
  { e with packetBytes := e.packetBytes - n, inFlight := e.inFlight - 1 }

theorem charged_charge (e : Entry) (n : Nat) : (e.charge n).charged = e.charged + n := by
  simp only [charged, charge]; omega

theorem charged_credit {e : Entry} {n : Nat} (h : n ≤ e.packetBytes) :
    (e.credit n).charged + n = e.charged := by
  simp only [charged, credit]; omega

end Entry

/-- The bytes of one admitted packet. -/
structure Charge where
  conn : ConnId
  epoch : UInt64
  bytes : Nat
  deriving DecidableEq, Repr

end PacketBudget
