/-!
What a host hands to a service when it takes it up: a name for the log and the admission policy.
-/

namespace PacketBudget

/-- How much a connection costs and may hold. -/
structure Policy where
  /-- Bytes reserved for every admitted connection. -/
  overhead : Nat := 0
  /-- Packet bytes that one connection may have in flight; zero for no cap. -/
  cap : Nat := 0
  deriving DecidableEq, Repr

structure HostContext where
  name : String
  policy : Policy := {}
  deriving DecidableEq, Repr

end PacketBudget
