/-!
The nine counters a service keeps of its decisions. Each is a 64-bit word that wraps. A decision
changes them by a list of ticks, one word at a time, so that the order of the changes is part of
what is said about it.
-/

namespace PacketBudget

/-- The names of the counters. -/
inductive Counter
  | connectionsAdmitted
  | connectionsRejected
  | activeConnections
  | packetsAdmitted
  | packetsRejected
  | budgetExhausted
  | integrationErrors
  | bytesReserved
  | bytesReleased
  deriving DecidableEq, Repr

/-- The values of the counters. -/
structure Counters where
  connectionsAdmitted : UInt64 := 0
  connectionsRejected : UInt64 := 0
  activeConnections : UInt64 := 0
  packetsAdmitted : UInt64 := 0
  packetsRejected : UInt64 := 0
  budgetExhausted : UInt64 := 0
  integrationErrors : UInt64 := 0
  bytesReserved : UInt64 := 0
  bytesReleased : UInt64 := 0
  deriving DecidableEq, Repr

/-- One change of one counter. -/
inductive Tick
  /-- One more. -/
  | incr (c : Counter)
  /-- `n` more. -/
  | add (c : Counter) (n : Nat)
  /-- One fewer, but not below zero. -/
  | decr (c : Counter)
  deriving DecidableEq, Repr

namespace Counters

def get (s : Counters) : Counter → UInt64
  | .connectionsAdmitted => s.connectionsAdmitted
  | .connectionsRejected => s.connectionsRejected
  | .activeConnections => s.activeConnections
  | .packetsAdmitted => s.packetsAdmitted
  | .packetsRejected => s.packetsRejected
  | .budgetExhausted => s.budgetExhausted
  | .integrationErrors => s.integrationErrors
  | .bytesReserved => s.bytesReserved
  | .bytesReleased => s.bytesReleased

def set (s : Counters) (c : Counter) (v : UInt64) : Counters :=
  match c with
  | .connectionsAdmitted => { s with connectionsAdmitted := v }
  | .connectionsRejected => { s with connectionsRejected := v }
  | .activeConnections => { s with activeConnections := v }
  | .packetsAdmitted => { s with packetsAdmitted := v }
  | .packetsRejected => { s with packetsRejected := v }
  | .budgetExhausted => { s with budgetExhausted := v }
  | .integrationErrors => { s with integrationErrors := v }
  | .bytesReserved => { s with bytesReserved := v }
  | .bytesReleased => { s with bytesReleased := v }

def tick (s : Counters) : Tick → Counters
  | .incr c => s.set c (s.get c + 1)
  | .add c n => s.set c (s.get c + UInt64.ofNat n)
  | .decr c => s.set c (if s.get c = 0 then 0 else s.get c - 1)

/-- The ticks in order. -/
def tickAll (s : Counters) (ts : List Tick) : Counters := ts.foldl tick s

theorem get_set (s : Counters) (c k : Counter) (v : UInt64) :
    (s.set c v).get k = if k = c then v else s.get k := by
  cases c <;> cases k <;> rfl

theorem ext_get {s t : Counters} (h : ∀ c, s.get c = t.get c) : s = t := by
  cases s
  cases t
  rw [Counters.mk.injEq]
  exact ⟨h .connectionsAdmitted, h .connectionsRejected, h .activeConnections, h .packetsAdmitted,
    h .packetsRejected, h .budgetExhausted, h .integrationErrors, h .bytesReserved,
    h .bytesReleased⟩

theorem tickAll_append (s : Counters) (ts us : List Tick) :
    s.tickAll (ts ++ us) = (s.tickAll ts).tickAll us :=
  List.foldl_append

end Counters

end PacketBudget
