import PacketBudget.Accounts
import PacketBudget.Counters

/-!
The ledger of a service: its accounts and the counters of what was decided on them. Every
operation takes its step on the accounts first and then makes the ticks that belong to the outcome.
-/

namespace PacketBudget

structure Ledger where
  accounts : Accounts
  counters : Counters := {}
  deriving Repr

/-- A rejection for want of room, or through the host's fault, is counted apart. -/
def Fault.ticks (f : Fault) : List Tick :=
  if f.isBudgetExhausted then [.incr .budgetExhausted]
  else if f.isIntegrationBug then [.incr .integrationErrors]
  else []

namespace Ledger

/-- The ledger of a new service. -/
def ofCeiling (ceiling : Nat) : Ledger := ⟨{ budget := { ceiling } }, {}⟩

/-- The ticks of a connection that was asked to register with an overhead of `n` bytes. -/
def registerTicks (n : Nat) : Except Fault Accounts → List Tick
  | .ok _ => [.incr .connectionsAdmitted, .incr .activeConnections, .add .bytesReserved n]
  | .error f => .incr .connectionsRejected :: f.ticks

/-- The ticks of a packet of `n` bytes that was to be charged. -/
def chargeTicks (n : Nat) : Except Fault (Charge × Accounts) → List Tick
  | .ok _ => [.incr .packetsAdmitted, .add .bytesReserved n]
  | .error f => .incr .packetsRejected :: f.ticks

/-- The ticks of a close that freed `n` bytes. -/
def closeTicks (n : Nat) : List Tick := [.decr .activeConnections, .add .bytesReleased n]

def tickAll (l : Ledger) (ts : List Tick) : Ledger := { l with counters := l.counters.tickAll ts }

/-- Registers a connection. -/
def register (l : Ledger) (id : ConnId) (overhead : Nat) : Except Fault Unit × Ledger :=
  let r := l.accounts.register id overhead
  let counted := l.tickAll (registerTicks overhead r)
  match r with
  | .ok a => (.ok (), { counted with accounts := a })
  | .error f => (.error f, counted)

/-- Charges a packet. -/
def charge (l : Ledger) (id : ConnId) (n cap : Nat) : Except Fault Charge × Ledger :=
  let r := l.accounts.charge id n cap
  let counted := l.tickAll (chargeTicks n r)
  match r with
  | .ok (c, a) => (.ok c, { counted with accounts := a })
  | .error f => (.error f, counted)

/-- Books what a return freed; nothing returned is nothing booked. -/
def book (l : Ledger) : Option (Nat × Accounts) → Nat × Ledger
  | none => (0, l)
  | some (n, a) => (n, { l.tickAll [.add .bytesReleased n] with accounts := a })

/-- Returns a charge; says how many bytes came free. A charge on a registration that has ended
frees nothing, for its close has freed it already. -/
def refund (l : Ledger) (c : Charge) : Nat × Ledger := l.book (l.accounts.refund? c)

/-- Returns up to `n` packet bytes of the current registration of `id`. -/
def release (l : Ledger) (id : ConnId) (n : Nat) : Nat × Ledger :=
  l.book (l.accounts.release? id n)

/-- Ends the registration of `id` and frees all it holds; none if there is no registration. -/
def close (l : Ledger) (id : ConnId) : Option Nat × Ledger :=
  match l.accounts.remove? id with
  | none => (none, l)
  | some (e, a) =>
    let (n, a) := a.free e.charged
    (some n, { l.tickAll (closeTicks n) with accounts := a })

/-- The bytes in use. -/
def used (l : Ledger) : Nat := l.accounts.budget.used

def ceiling (l : Ledger) : Nat := l.accounts.budget.ceiling

def table (l : Ledger) : Table := l.accounts.table

/-- The entry of `id`, if it is registered. -/
def entry? (l : Ledger) (id : ConnId) : Option Entry := l.table.get? id

/-- What a host that owns the ledger itself can do with it. -/
inductive Call
  | register (id : ConnId) (overhead : Nat)
  | charge (id : ConnId) (n cap : Nat)
  | refund (c : Charge)
  | release (id : ConnId) (n : Nat)
  | close (id : ConnId)
  /-- Takes the entry off the table, past the accounting. -/
  | remove (id : ConnId)
  /-- Reserves bytes of the budget, past the accounting. -/
  | reserve (n : Nat)
  /-- Frees bytes of the budget, past the accounting. -/
  | free (n : Nat)
  deriving DecidableEq, Repr

/-- What such a call answers. -/
inductive Answer
  | registered
  | charged (c : Charge)
  | rejected (f : Fault)
  /-- So many bytes came free. -/
  | freed (n : Nat)
  /-- There was no registration to close. -/
  | absent
  | removed (e : Option Entry)
  | reserved (fits : Bool)
  deriving DecidableEq, Repr

def step (l : Ledger) : Call → Answer × Ledger
  | .register id n =>
    match l.register id n with
    | (.ok (), l) => (.registered, l)
    | (.error f, l) => (.rejected f, l)
  | .charge id n cap =>
    match l.charge id n cap with
    | (.ok c, l) => (.charged c, l)
    | (.error f, l) => (.rejected f, l)
  | .refund c =>
    let (n, l) := l.refund c
    (.freed n, l)
  | .release id n =>
    let (n, l) := l.release id n
    (.freed n, l)
  | .close id =>
    match l.close id with
    | (some n, l) => (.freed n, l)
    | (none, l) => (.absent, l)
  | .remove id =>
    match l.accounts.remove? id with
    | some (e, a) => (.removed (some e), { l with accounts := a })
    | none => (.removed none, l)
  | .reserve n =>
    match l.accounts.budget.reserve? n with
    | some b => (.reserved true, { l with accounts.budget := b })
    | none => (.reserved false, l)
  | .free n =>
    let (n, a) := l.accounts.free n
    (.freed n, { l with accounts := a })

theorem accounts_tickAll (l : Ledger) (ts : List Tick) : (l.tickAll ts).accounts = l.accounts := rfl

theorem accounts_register (l : Ledger) (id : ConnId) (n : Nat) :
    (l.register id n).2.accounts = (l.accounts.register id n).toOption.getD l.accounts := by
  cases h : l.accounts.register id n <;>
    simp [register, h, accounts_tickAll, Except.toOption]

theorem accounts_charge (l : Ledger) (id : ConnId) (n cap : Nat) :
    (l.charge id n cap).2.accounts =
      ((l.accounts.charge id n cap).toOption.map Prod.snd).getD l.accounts := by
  rcases h : l.accounts.charge id n cap with f | ⟨c, a⟩ <;>
    simp [charge, h, accounts_tickAll, Except.toOption]

theorem accounts_book (l : Ledger) (r : Option (Nat × Accounts)) :
    (l.book r).2.accounts = (r.map Prod.snd).getD l.accounts := by
  rcases r with _ | ⟨n, a⟩ <;> rfl

/-- Nothing to return leaves the ledger as it is. -/
theorem book_none (l : Ledger) : l.book none = (0, l) := rfl

end Ledger

end PacketBudget
