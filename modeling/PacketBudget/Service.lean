import PacketBudget.Ledger
import PacketBudget.Notice

/-!
A service under a packet memory budget. It is constructed with a ceiling, taken up once by a host
that names it and sets its policy, and then told of connections and packets, each of which it
admits or rejects. Calls and outcomes are data, so that a run is the fold of a list of calls.
-/

namespace PacketBudget

structure Service where
  identity : Identity
  /-- The host that has taken the service up, if one has. -/
  host : Option HostContext := none
  ledger : Ledger
  /-- What was reported to the log, the last report first. -/
  journal : List Notice := []
  deriving Repr

/-- A charge held for as long as the buffer it accounts for. -/
structure Lease where
  holder : Identity
  charge : Charge
  deriving DecidableEq, Repr

/-- The lease as it shows in diagnostics. -/
def Lease.text (l : Lease) : String :=
  "PacketLease \x7b service: ServiceIdentity(" ++ toString l.holder ++
    "), charge: PacketCharge \x7b conn: ConnId(" ++ toString l.charge.conn ++ "), epoch: " ++
    toString l.charge.epoch.toNat ++ ", bytes: " ++ toString l.charge.bytes ++ " \x7d \x7d"

/-- The calls of a host. -/
inductive Call
  | init (host : HostContext)
  /-- A connection has come in. -/
  | connect (conn : ConnId)
  /-- A packet is about to be buffered; the charge is the caller's to return. -/
  | charge (conn : ConnId) (bytes : Nat)
  /-- A packet is about to be buffered; nothing is handed out for it. -/
  | receive (conn : ConnId) (bytes : Nat)
  /-- A packet is about to be buffered under a lease. -/
  | lease (conn : ConnId) (bytes : Nat)
  | refund (charge : Charge)
  /-- The buffer of a lease is gone. -/
  | drop (lease : Lease)
  /-- Bytes of whatever registration the id has now came free. -/
  | release (conn : ConnId) (bytes : Nat)
  /-- A connection has gone. -/
  | close (conn : ConnId)
  deriving DecidableEq, Repr

/-- What a call comes to. -/
inductive Outcome
  | done
  | charged (c : Charge)
  | leased (l : Lease)
  | freed (bytes : Nat)
  | rejected (f : Fault)
  deriving DecidableEq, Repr

namespace Service

/-- A new service with a ceiling of `limit` bytes. A negative limit takes no identity. -/
def create (limit : Int64) (a : Allocator) : Except Fault (Service × Allocator) :=
  if limit < 0 then
    .error (.invalidConfiguration s!"packet memory limit must be >= 0, got {limit.toInt}")
  else
    let (identity, a) := a.assign
    let ceiling := limit.toInt.toNat
    .ok (⟨identity, none, .ofCeiling ceiling, [.constructed identity ceiling]⟩, a)

def note (s : Service) (n : Notice) : Service := { s with journal := n :: s.journal }

/-- Takes out what was reported, oldest first. -/
def takeJournal (s : Service) : List Notice × Service :=
  (s.journal.reverse, { s with journal := [] })

def used (s : Service) : Nat := s.ledger.used

def ceiling (s : Service) : Nat := s.ledger.ceiling

/-- How many connections are registered. -/
def active (s : Service) : Nat := s.ledger.table.size

def entry? (s : Service) (conn : ConnId) : Option Entry := s.ledger.entry? conn

def counters (s : Service) : Counters := s.ledger.counters

def isInitialized (s : Service) : Bool := s.host.isSome

def name (s : Service) : String := (s.host.map (·.name)).getD "uninitialized"

/-- The report that something was refused. -/
def refusal (s : Service) (conn : ConnId) (what : Subject) (f : Fault) : Notice :=
  .refused s.identity conn what f s.used s.ceiling

/-- Counts and reports a call that came before initialization. -/
def tooEarly (s : Service) (conn : ConnId) (what : Subject) (c : Counter) : Service :=
  { s with ledger := s.ledger.tickAll (.incr c :: Fault.notInitialized.ticks) }.note
    (s.refusal conn what .notInitialized)

/-- Takes the service up for a host; only the first host counts. -/
def init (s : Service) (h : HostContext) : Except Fault Unit × Service :=
  match s.host with
  | none => (.ok (), { s with host := some h }.note (.initialized s.identity h s.ceiling))
  | some current =>
    (.error .alreadyInitialized,
      { s with ledger := s.ledger.tickAll Fault.alreadyInitialized.ticks }.note
        (.initRepeated s.identity h.name current.name))

/-- Asks to register a connection. -/
def connect (s : Service) (conn : ConnId) : Except Fault Unit × Service :=
  match s.host with
  | none => (.error .notInitialized, s.tooEarly conn .connection .connectionsRejected)
  | some h =>
    match s.ledger.register conn h.policy.overhead with
    | (.ok (), l) => (.ok (), { s with ledger := l }.note (.connected s.identity conn))
    | (.error f, l) =>
      let s := { s with ledger := l }
      (.error f, s.note (s.refusal conn .connection f))

/-- Asks for a packet of `n` bytes to be charged to a connection. -/
def charge (s : Service) (conn : ConnId) (n : Nat) : Except Fault Charge × Service :=
  match s.host with
  | none => (.error .notInitialized, s.tooEarly conn .packet .packetsRejected)
  | some h =>
    match s.ledger.charge conn n h.policy.cap with
    | (.ok c, l) => (.ok c, { s with ledger := l })
    | (.error f, l) =>
      let s := { s with ledger := l }
      (.error f, s.note (s.refusal conn .packet f))

/-- Asks for a packet to be charged and held by a lease. -/
def lease (s : Service) (conn : ConnId) (n : Nat) : Except Fault Lease × Service :=
  match s.charge conn n with
  | (.ok c, s) => (.ok ⟨s.identity, c⟩, s)
  | (.error f, s) => (.error f, s)

/-- Returns a charge; says how many bytes came free. -/
def refund (s : Service) (c : Charge) : Nat × Service :=
  let (n, l) := s.ledger.refund c
  (n, { s with ledger := l })

/-- Returns up to `n` packet bytes of a connection. -/
def release (s : Service) (conn : ConnId) (n : Nat) : Nat × Service :=
  let (n, l) := s.ledger.release conn n
  (n, { s with ledger := l })

/-- Ends the registration of a connection; says how many bytes came free. -/
def close (s : Service) (conn : ConnId) : Nat × Service :=
  match s.ledger.close conn with
  | (some n, l) => (n, { s with ledger := l }.note (.closed s.identity conn n))
  | (none, l) => (0, { s with ledger := l }.note (.closeUnknown s.identity conn))

/-- The outcome of a call that was admitted or rejected. -/
def outcome (f : α → Outcome) : Except Fault α × Service → Outcome × Service
  | (.ok a, s) => (f a, s)
  | (.error e, s) => (.rejected e, s)

def step (s : Service) : Call → Outcome × Service
  | .init h => outcome (fun _ => .done) (s.init h)
  | .connect conn => outcome (fun _ => .done) (s.connect conn)
  | .charge conn n => outcome .charged (s.charge conn n)
  | .receive conn n => outcome (fun _ => .done) (s.charge conn n)
  | .lease conn n => outcome .leased (s.lease conn n)
  | .refund c =>
    let (n, s) := s.refund c
    (.freed n, s)
  | .drop l =>
    let (n, s) := s.refund l.charge
    (.freed n, s)
  | .release conn n =>
    let (n, s) := s.release conn n
    (.freed n, s)
  | .close conn =>
    let (n, s) := s.close conn
    (.freed n, s)

/-- The calls in order, with their outcomes. -/
def run (s : Service) : List Call → List Outcome × Service
  | [] => ([], s)
  | c :: cs =>
    let (o, s) := s.step c
    let (os, s) := s.run cs
    (o :: os, s)

theorem run_append (s : Service) (cs ds : List Call) :
    s.run (cs ++ ds) =
      ((s.run cs).1 ++ ((s.run cs).2.run ds).1, ((s.run cs).2.run ds).2) := by
  induction cs generalizing s with
  | nil => rfl
  | cons c cs ih => simp [run, ih]

theorem length_run (s : Service) (cs : List Call) : (s.run cs).1.length = cs.length := by
  induction cs generalizing s with
  | nil => rfl
  | cons c cs ih => simp [run, ih]

end Service

end PacketBudget
