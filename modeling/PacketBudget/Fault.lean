import PacketBudget.Connection

/-!
Why the service or the operating system refuses something, and the wording of each refusal.
-/

namespace PacketBudget

/-- The kinds of failure of input and output. -/
inductive ErrorKind
  | notFound
  | permissionDenied
  | connectionRefused
  | connectionReset
  | connectionAborted
  | networkUnreachable
  | notConnected
  | addrInUse
  | addrNotAvailable
  | brokenPipe
  | alreadyExists
  | wouldBlock
  | isADirectory
  | notADirectory
  | invalidFilename
  | invalidInput
  | invalidData
  | timedOut
  | writeZero
  | interrupted
  | unsupported
  | unexpectedEof
  | outOfMemory
  | other
  /-- A kind that has no name. -/
  | uncategorized
  deriving DecidableEq, Repr

/-- A failure of input or output. -/
structure IoError where
  kind : ErrorKind
  message : String
  deriving DecidableEq, Repr

/-- Why the service refuses a call. -/
inductive Fault
  /-- An argument of construction is out of range. -/
  | invalidConfiguration (detail : String)
  /-- A call came before initialization. -/
  | notInitialized
  /-- Initialization was asked for again. -/
  | alreadyInitialized
  /-- The id is registered already. -/
  | duplicateConnection (conn : ConnId)
  /-- The request does not fit, with the room there was at that moment. -/
  | budgetExhausted (requested available : Nat)
  /-- The id is not registered. -/
  | unknownConnection (conn : ConnId)
  deriving DecidableEq, Repr

namespace Fault

/-- Whether the host has broken the order of calls, rather than met ordinary backpressure. -/
def isIntegrationBug : Fault → Bool
  | notInitialized | alreadyInitialized | duplicateConnection _ => true
  | _ => false

def isBudgetExhausted : Fault → Bool
  | budgetExhausted .. => true
  | _ => false

def message : Fault → String
  | invalidConfiguration detail => s!"invalid configuration: {detail}"
  | notInitialized => "service not initialized"
  | alreadyInitialized => "service already initialized"
  | duplicateConnection conn => s!"duplicate connection {conn}"
  | budgetExhausted requested available =>
    s!"packet memory budget exhausted: requested {requested} bytes, {available} available"
  | unknownConnection conn => s!"unknown connection {conn}"

/-- The kind of failure a stream reports for the fault. -/
def kind : Fault → ErrorKind
  | budgetExhausted .. => .outOfMemory
  | invalidConfiguration _ => .invalidInput
  | unknownConnection _ => .notFound
  | _ => .other

/-- The fault as a failure of a stream, with the same wording. -/
def toIoError (f : Fault) : IoError := ⟨f.kind, f.message⟩

theorem kind_eq_outOfMemory_iff {f : Fault} : f.kind = .outOfMemory ↔ f.isBudgetExhausted = true := by
  cases f <;> simp [kind, isBudgetExhausted]

theorem not_isIntegrationBug_of_isBudgetExhausted {f : Fault} (h : f.isBudgetExhausted = true) :
    f.isIntegrationBug = false := by
  cases f <;> simp_all [isBudgetExhausted, isIntegrationBug]

end Fault

end PacketBudget
