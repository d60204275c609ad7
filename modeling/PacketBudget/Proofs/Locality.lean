import PacketBudget.Proofs.Balance

/-!
A call sees one connection. What it comes to follows from the host, the entry that its connection
has and the epoch that is next, and it changes that entry alone. Of all other connections it
notices one thing: whether the ceiling leaves room for it. If not, it is refused.
-/

namespace PacketBudget

/-- The fault without the room that there was. -/
def Fault.roomless : Fault → Fault
  | .budgetExhausted n _ => .budgetExhausted n 0
  | f => f

def Outcome.roomless : Outcome → Outcome
  | .rejected f => .rejected f.roomless
  | o => o

/-- What a call that charges a packet hands to its caller. -/
def Call.hands (holder : Identity) : Call → Charge → Outcome
  | .charge .. => .charged
  | .lease .. => fun c => .leased ⟨holder, c⟩
  | _ => fun _ => .done

/-- The bytes that a connection holds, registered or not. -/
def bytesOf : Option Entry → Nat
  | some e => e.charged
  | none => 0

/-- What a call comes to where there is room for it: the outcome, without a word on the room, the
entry that it leaves and the ticks that it makes. -/
structure Verdict where
  outcome : Outcome
  entry : Option Entry
  ticks : List Tick := []

namespace Verdict

def refusal (c : Counter) (f : Fault) (x : Option Entry) : Verdict :=
  ⟨.rejected f, x, .incr c :: f.ticks⟩

def connect (host : Option HostContext) (epoch : UInt64) (id : ConnId) (x : Option Entry) :
    Verdict :=
  match host, x with
  | none, _ => refusal .connectionsRejected .notInitialized x
  | some _, some _ => refusal .connectionsRejected (.duplicateConnection id) x
  | some h, none =>
    ⟨.done, some { epoch, overhead := h.policy.overhead },
      [.incr .connectionsAdmitted, .incr .activeConnections,
        .add .bytesReserved h.policy.overhead]⟩

/-- On a packet of `n` bytes, for which `hands` makes an outcome of the charge. -/
def packet (host : Option HostContext) (hands : Charge → Outcome) (id : ConnId) (n : Nat)
    (x : Option Entry) : Verdict :=
  match host, x with
  | none, _ => refusal .packetsRejected .notInitialized x
  | some _, none => refusal .packetsRejected (.unknownConnection id) x
  | some h, some e =>
    if e.fits h.policy.cap n then
      ⟨hands ⟨id, e.epoch, n⟩, some (e.charge n), [.incr .packetsAdmitted, .add .bytesReserved n]⟩
    else
      refusal .packetsRejected (.budgetExhausted n 0) x

def credit (e : Entry) (n : Nat) : Verdict :=
  ⟨.freed n, some (e.credit n), [.add .bytesReleased n]⟩

def refund (c : Charge) : Option Entry → Verdict
  | none => ⟨.freed 0, none, []⟩
  | some e =>
    if e.epoch = c.epoch then credit e (min c.bytes e.packetBytes) else ⟨.freed 0, some e, []⟩

def release (n : Nat) : Option Entry → Verdict
  | none => ⟨.freed 0, none, []⟩
  | some e =>
    if min n e.packetBytes = 0 then ⟨.freed 0, some e, []⟩ else credit e (min n e.packetBytes)

def close : Option Entry → Verdict
  | none => ⟨.freed 0, none, []⟩
  | some e => ⟨.freed e.charged, none, [.decr .activeConnections, .add .bytesReleased e.charged]⟩

end Verdict

/-- The verdict on a call that finds the entry `x`. -/
def Call.verdict (holder : Identity) (host : Option HostContext) (epoch : UInt64)
    (x : Option Entry) : Call → Verdict
  | .init _ => ⟨.done, x, []⟩
  | .connect id => .connect host epoch id x
  | k@(.charge id n) | k@(.receive id n) | k@(.lease id n) => .packet host (k.hands holder) id n x
  | .refund c => .refund c x
  | .drop l => .refund l.charge x
  | .release _ n => .release n x
  | .close _ => .close x

section Verdicts

variable {holder : Identity} {host : Option HostContext} {epoch : UInt64} {x : Option Entry}
variable {k : Call} {o : Outcome} {c : Charge} {id : ConnId} {n : Nat}

theorem Call.verdict_packet (h : k.packet? = some (id, n)) :
    k.verdict holder host epoch x = .packet host (k.hands holder) id n x := by
  cases k <;> cases h <;> rfl

theorem Call.verdict_returned (h : k.returned? = some c) :
    k.verdict holder host epoch x = .refund c x := by
  cases k <;> cases h <;> rfl

end Verdicts

namespace Accounts

/-- The accounts where the entry of `id` has become `x`. -/
def write (a : Accounts) (id : ConnId) (x : Option Entry) : Accounts :=
  let y := a.table.get? id
  { budget :=
      { a.budget with used := a.budget.used + (bytesOf x - bytesOf y) - (bytesOf y - bytesOf x) }
    table := a.table.write id x
    nextEpoch := if y = none ∧ x ≠ none then a.nextEpoch + 1 else a.nextEpoch }

variable {a : Accounts} {id : ConnId} {e : Entry} {n cap : Nat} {f : Fault}

theorem write_get? (a : Accounts) (id : ConnId) : a.write id (a.table.get? id) = a := by
  simp only [write, Table.write_get?, Nat.sub_self, Nat.add_zero, Nat.sub_zero, ne_eq, and_not_self,
    ↓reduceIte]

theorem opened_eq (fresh : a.table.get? id = none) (n : Nat) :
    a.opened id n = a.write id (some { epoch := a.nextEpoch, overhead := n }) := by
  simp [write, opened, fresh, bytesOf, Entry.charged, Table.write]

theorem charged_eq (found : a.table.get? id = some e) (n : Nat) :
    a.charged id e n = a.write id (some (e.charge n)) := by
  have hb : (e.charge n).charged = e.charged + n := e.charged_charge n
  simp [write, charged, found, bytesOf, hb, Table.write]

theorem credit_eq (found : a.table.get? id = some e) (held : n ≤ e.packetBytes) :
    (a.credit id e n).2 = a.write id (some (e.credit n)) := by
  have hb := Entry.charged_credit held
  have hn : e.charged - (e.credit n).charged = n := by omega
  have hz : (e.credit n).charged - e.charged = 0 := by omega
  simp [write, credit, Budget.release, found, bytesOf, hn, hz, Table.write]

theorem closed_eq (found : a.table.get? id = some e) : a.closed id e = a.write id none := by
  simp [write, closed, found, bytesOf, Table.write]

theorem get?_write (a : Accounts) (id j : ConnId) (x : Option Entry) :
    (a.write id x).table.get? j = if j = id then x else a.table.get? j :=
  Table.get?_write ..

/-- Why a connection is refused. -/
theorem register_error (h : a.register id n = .error f) :
    (∃ e, a.table.get? id = some e ∧ f = .duplicateConnection id) ∨
      a.table.get? id = none ∧ a.budget.ceiling < a.budget.used + n ∧ ∃ m, f = .budgetExhausted n m := by
  cases he : a.table.get? id with
  | some e =>
    simp only [register, Table.contains, he, Option.isSome_some, ↓reduceIte] at h
    exact Or.inl ⟨e, rfl, (Except.error.inj h).symm⟩
  | none =>
    simp only [register, Table.contains, he, Option.isSome_none, Bool.false_eq_true,
      ↓reduceIte] at h
    split at h
    · rename_i hr
      exact Or.inr ⟨rfl, Budget.reserve?_eq_none_iff.mp hr, _, (Except.error.inj h).symm⟩
    · cases h

/-- Why a packet is refused. -/
theorem charge_error (h : a.charge id n cap = .error f) :
    (a.table.get? id = none ∧ f = .unknownConnection id) ∨
      ∃ e m, a.table.get? id = some e ∧ f = .budgetExhausted n m ∧
        (e.fits cap n = true → a.budget.ceiling < a.budget.used + n) := by
  cases he : a.table.get? id with
  | none =>
    simp only [charge, he] at h
    exact Or.inl ⟨rfl, (Except.error.inj h).symm⟩
  | some e =>
    simp only [charge, he] at h
    split at h
    · rename_i hr
      refine Or.inr ⟨e, _, rfl, (Except.error.inj h).symm, fun hf => ?_⟩
      rw [if_pos hf] at hr
      exact Budget.reserve?_eq_none_iff.mp hr
    · cases h

end Accounts

namespace Service

variable {s : Service} {k : Call} {id : ConnId} {n : Nat} {f : Fault}

theorem identity_charge (s : Service) (conn : ConnId) (n : Nat) :
    (s.charge conn n).2.identity = s.identity := by
  cases hh : s.host with
  | none => simp only [charge, hh, tooEarly, note]
  | some c =>
    rcases hr : s.ledger.charge conn n c.policy.cap with ⟨_ | _, l⟩ <;>
      simp only [charge, hh, hr, note]

/-- The three calls for a packet differ in what they hand out. -/
theorem step_packet (hk : k.packet? = some (id, n)) :
    s.step k = outcome (k.hands s.identity) (s.charge id n) := by
  have hi := identity_charge s id n
  cases k with
  | charge | receive =>
    cases hk
    rfl
  | lease =>
    cases hk
    rcases hr : s.charge id n with ⟨_ | c, t⟩
    · simp only [step, lease, hr, outcome]
    · rw [hr] at hi
      have hi : t.identity = s.identity := hi
      simp only [step, lease, hr, outcome, Call.hands, hi]
  | init | connect | refund | drop | release | close => cases hk

/-- The verdict on a call about `id`, as things stand. -/
def verdict (s : Service) (id : ConnId) (k : Call) : Verdict :=
  k.verdict s.identity s.host s.ledger.accounts.nextEpoch (s.entry? id)

/-- The bytes in use if the call comes to its verdict. -/
def demand (s : Service) (id : ConnId) (k : Call) : Nat :=
  (s.ledger.accounts.write id (s.verdict id k).entry).budget.used

/-- The call comes to its verdict. -/
structure Follows (s : Service) (id : ConnId) (k : Call) : Prop where
  outcome : (s.step k).1.roomless = (s.verdict id k).outcome
  accounts : (s.step k).2.ledger.accounts = s.ledger.accounts.write id (s.verdict id k).entry
  counters : (s.step k).2.counters = s.counters.tickAll (s.verdict id k).ticks

/-- The call is refused for want of room under the ceiling. -/
structure Overflows (s : Service) (id : ConnId) (k : Call) : Prop where
  beyond : s.ceiling < s.demand id k
  outcome : ∃ n m, (s.step k).1 = .rejected (.budgetExhausted n m)
  accounts : (s.step k).2.ledger.accounts = s.ledger.accounts

/-- Before there is a host, or for what the accounts have against it. -/
theorem connect_refused (h : (s.step (.connect id)).1 = .rejected f) :
    (s.host = none ∧ f = .notInitialized) ∨
      ∃ c, s.host = some c ∧ s.ledger.accounts.register id c.policy.overhead = .error f := by
  cases hh : s.host with
  | none =>
    simp only [step, connect, hh, outcome] at h
    exact Or.inl ⟨rfl, (Outcome.rejected.inj h).symm⟩
  | some c =>
    cases hr : s.ledger.accounts.register id c.policy.overhead with
    | ok a => simp [step, connect, hh, Ledger.register, hr, outcome] at h
    | error g =>
      simp only [step, connect, hh, Ledger.register, hr, outcome] at h
      exact Or.inr ⟨c, rfl, by rw [hr, Outcome.rejected.inj h]⟩

theorem charge_refused (h : (s.charge id n).1 = .error f) :
    (s.host = none ∧ f = .notInitialized) ∨
      ∃ c, s.host = some c ∧ s.ledger.accounts.charge id n c.policy.cap = .error f := by
  cases hh : s.host with
  | none =>
    simp only [charge, hh] at h
    exact Or.inl ⟨rfl, (Except.error.inj h).symm⟩
  | some c =>
    cases hr : s.ledger.accounts.charge id n c.policy.cap with
    | ok r => simp [charge, hh, Ledger.charge, hr] at h
    | error g =>
      simp only [charge, hh, Ledger.charge, hr] at h
      exact Or.inr ⟨c, rfl, by rw [hr, Except.error.inj h]⟩

theorem follows_of {o : Outcome} {x : Option Entry} {ts : List Tick}
    (hv : s.verdict id k = ⟨o.roomless, x, ts⟩) (ho : (s.step k).1 = o)
    (ha : (s.step k).2.ledger.accounts = s.ledger.accounts.write id x)
    (ht : (s.step k).2.counters = s.counters.tickAll ts) : s.Follows id k := by
  refine ⟨?_, ?_, ?_⟩
  · rw [hv, ho]
  · rw [hv, ha]
  · rw [hv, ht]

/-- A refusal that is the verdict. -/
theorem follows_refusal {c : Counter} (hv : s.verdict id k = .refusal c f.roomless (s.entry? id))
    (ho : (s.step k).1 = .rejected f) (ha : (s.step k).2.ledger.accounts = s.ledger.accounts)
    (ht : (s.step k).2.counters = s.counters.tickAll (.incr c :: f.ticks)) : s.Follows id k := by
  have hf : f.roomless.ticks = f.ticks := by cases f <;> rfl
  refine follows_of (hv.trans ?_) ho (ha.trans (Accounts.write_get? s.ledger.accounts id).symm) ht
  rw [Verdict.refusal, hf]
  rfl

/-- Bytes that are returned all fit into what is in use. -/
theorem follows_credit (hb : s.ledger.accounts.Balanced) {e : Entry}
    (hv : s.verdict id k = .credit e n) (found : s.entry? id = some e) (held : n ≤ e.packetBytes)
    (ho : (s.step k).1 = .freed (min s.ledger.accounts.budget.used n))
    (ha : (s.step k).2.ledger.accounts = (s.ledger.accounts.credit id e n).2)
    (ht : (s.step k).2.counters =
      s.counters.tickAll [.add .bytesReleased (min s.ledger.accounts.budget.used n)]) :
    s.Follows id k := by
  rw [Nat.min_eq_right (Nat.le_trans held (hb.packetBytes_le found))] at ho ht
  exact follows_of (o := .freed n) hv ho (ha.trans (Accounts.credit_eq found held)) ht

theorem follows_nothing (hv : s.verdict id k = ⟨.freed 0, s.entry? id, []⟩)
    (ho : (s.step k).1 = .freed 0) (ha : (s.step k).2.ledger.accounts = s.ledger.accounts)
    (ht : (s.step k).2.counters = s.counters) : s.Follows id k :=
  follows_of (o := .freed 0) hv ho (ha.trans (Accounts.write_get? s.ledger.accounts id).symm) ht

theorem connect_local (ho : (s.step (.connect id)).1 = .rejected f)
    (ha : (s.step (.connect id)).2.ledger.accounts = s.ledger.accounts)
    (ht : (s.step (.connect id)).2.counters =
      s.counters.tickAll (.incr .connectionsRejected :: f.ticks)) :
    s.Follows id (.connect id) ∨ s.Overflows id (.connect id) := by
  rcases connect_refused ho with ⟨hh, rfl⟩ | ⟨c, hh, hr⟩
  · refine Or.inl (follows_refusal ?_ ho ha ht)
    simp only [verdict, Call.verdict, Verdict.connect, hh, Fault.roomless]
  · rcases Accounts.register_error hr with ⟨e, he, rfl⟩ | ⟨he, hbeyond, m, rfl⟩
    · refine Or.inl (follows_refusal ?_ ho ha ht)
      have he : s.entry? id = some e := he
      simp only [verdict, Call.verdict, Verdict.connect, hh, he, Fault.roomless]
    · refine Or.inr ⟨?_, ⟨_, _, ho⟩, ha⟩
      have hx : s.entry? id = none := he
      simp only [demand, verdict, Call.verdict, Verdict.connect, hh, hx, ← Accounts.opened_eq he]
      exact hbeyond

theorem packet_local (hk : k.packet? = some (id, n)) (ho : (s.charge id n).1 = .error f)
    (ha : (s.step k).2.ledger.accounts = s.ledger.accounts)
    (ht : (s.step k).2.counters = s.counters.tickAll (.incr .packetsRejected :: f.ticks)) :
    s.Follows id k ∨ s.Overflows id k := by
  have hv : s.verdict id k = .packet s.host (k.hands s.identity) id n (s.entry? id) :=
    Call.verdict_packet hk
  have hs : (s.step k).1 = .rejected f := by
    rw [step_packet hk]
    rcases hr : s.charge id n with ⟨r, t⟩
    rw [hr] at ho
    cases ho
    rfl
  rcases charge_refused ho with ⟨hh, rfl⟩ | ⟨c, hh, hr⟩
  · refine Or.inl (follows_refusal ?_ hs ha ht)
    simp only [hv, Verdict.packet, hh, Fault.roomless]
  · rcases Accounts.charge_error hr with ⟨he, rfl⟩ | ⟨e, m, he, rfl, hbeyond⟩
    · refine Or.inl (follows_refusal ?_ hs ha ht)
      have he : s.entry? id = none := he
      simp only [hv, Verdict.packet, hh, he, Fault.roomless]
    · have hx : s.entry? id = some e := he
      by_cases hf : e.fits c.policy.cap n = true
      · refine Or.inr ⟨?_, ⟨_, _, hs⟩, ha⟩
        simp only [demand, hv, Verdict.packet, hh, hx, hf, ↓reduceIte, ← Accounts.charged_eq he]
        exact hbeyond hf
      · refine Or.inl (follows_refusal ?_ hs ha ht)
        simp only [hv, Verdict.packet, hh, hx, hf, Fault.roomless, Bool.false_eq_true, ↓reduceIte]

/-- What is handed out names the service as its holder. -/
theorem hands_of_admits {c : Charge} (h : Admits c k (s.step k).1) :
    (s.step k).1 = k.hands s.identity c := by
  have hs := step_packet (s := s) h.packet
  rcases hr : s.charge c.conn c.bytes with ⟨f | d, t⟩
  · rw [hs, hr] at h
    cases h
  · rw [hs, hr] at h
    rw [hs, hr]
    generalize ho : (outcome (k.hands s.identity) (Except.ok d, t)).1 = o at h
    cases h <;> cases ho <;> rfl

theorem roomless_hands (k : Call) (holder : Identity) (c : Charge) :
    (k.hands holder c).roomless = k.hands holder c := by
  cases k <;> rfl

/-- A call that is about no connection comes from a host that would take the service up. -/
theorem eq_init_of_conn? (h : k.conn? = none) : ∃ c, k = .init c := by
  cases k with
  | init c => exact ⟨c, rfl⟩
  | connect | charge | receive | lease | refund | drop | release | close => cases h

theorem accounts_init (s : Service) (c : HostContext) :
    (s.step (.init c)).2.ledger.accounts = s.ledger.accounts := by
  cases hh : s.host <;> simp only [step, init, hh, outcome] <;> rfl

/-- A call about `id` comes to its verdict, or the ceiling leaves no room for it. -/
theorem step_local (hb : s.ledger.accounts.Balanced) (hk : k.conn? = some id) :
    s.Follows id k ∨ s.Overflows id k := by
  obtain ⟨ts, he, ht⟩ := step_enters s k
  have hands : ∀ c, Admits c k (s.step k).1 → (s.step k).1 = k.hands s.identity c :=
    fun c => hands_of_admits
  generalize ho : (s.step k).1 = o at he hands
  generalize ha : (s.step k).2.ledger.accounts = a at he
  cases he with
  | taken | repeated => cases hk
  | turnedAway =>
    cases hk
    exact connect_local ho ha ht
  | @refused _ p f packet =>
    have hp := Call.conn?_of_packet? packet
    rw [hk] at hp
    cases hp
    refine packet_local packet ?_ ha ht
    rw [step_packet packet] at ho
    rcases hr : s.charge p.1 p.2 with ⟨g | c, t⟩
    · rw [hr] at ho
      cases ho
      rfl
    · rw [hr] at ho
      cases k <;> cases ho
  | @opened c _ taken fresh fits =>
    cases hk
    have hx : s.entry? id = none := fresh
    refine Or.inl (follows_of ?_ ho (ha.trans (Accounts.opened_eq fresh _)) ht)
    simp only [verdict, Call.verdict, Verdict.connect, taken, hx, Outcome.roomless]
  | @charged c _ _ conn n e taken found cap fits admits =>
    have hp := Call.conn?_of_packet? admits.packet
    rw [hk] at hp
    cases hp
    have hx : s.entry? conn = some e := found
    refine Or.inl (follows_of ?_ ho (ha.trans (Accounts.charged_eq found n)) ht)
    rw [verdict, Call.verdict_packet admits.packet, hands _ admits, roomless_hands]
    simp only [Verdict.packet, taken, hx, cap, ↓reduceIte]
  | @refunded _ c e returned found live =>
    have hp := Call.conn?_of_returned? returned
    rw [hk] at hp
    cases hp
    have hx : s.entry? c.conn = some e := found
    refine Or.inl (follows_credit hb ?_ hx (Nat.min_le_right _ _) ho ha ht)
    rw [verdict, Call.verdict_returned returned]
    simp only [Verdict.refund, hx, live, ↓reduceIte]
  | @stale _ c returned ended =>
    have hp := Call.conn?_of_returned? returned
    rw [hk] at hp
    cases hp
    refine Or.inl (follows_nothing ?_ ho ha ht)
    rw [verdict, Call.verdict_returned returned]
    cases hx : s.entry? c.conn with
    | none => rfl
    | some e => simp only [Verdict.refund, ended e hx, ↓reduceIte]
  | @released _ m e found held =>
    cases hk
    have hx : s.entry? id = some e := found
    refine Or.inl (follows_credit hb ?_ hx (Nat.min_le_right _ _) ho ha ht)
    simp only [verdict, Call.verdict, Verdict.release, hx, held, ↓reduceIte]
  | @spared _ m empty =>
    cases hk
    refine Or.inl (follows_nothing ?_ ho ha ht)
    simp only [verdict, Call.verdict]
    cases hx : s.entry? id with
    | none => rfl
    | some e => simp only [Verdict.release, empty e hx, ↓reduceIte]
  | @closed _ e found =>
    cases hk
    have hx : s.entry? id = some e := found
    rw [Nat.min_eq_right (hb.charged_le found)] at ho ht
    refine Or.inl (follows_of ?_ ho (ha.trans (Accounts.closed_eq found)) ht)
    simp only [verdict, Call.verdict, Verdict.close, hx, Outcome.roomless]
  | absent gone =>
    cases hk
    have hx : s.entry? id = none := gone
    refine Or.inl (follows_nothing ?_ ho ha ht)
    simp only [verdict, Call.verdict, Verdict.close, hx]

theorem Follows.entry?_eq (h : s.Follows id k) (j : ConnId) :
    entry? (s.step k).2 j = if j = id then (s.verdict id k).entry else s.entry? j := by
  unfold entry? Ledger.entry? Ledger.table
  rw [h.accounts]
  exact Accounts.get?_write ..

/-- What a verdict comes to fits under the ceiling. -/
theorem Follows.demand_le (hb : s.ledger.accounts.Balanced) (h : s.Follows id k) :
    s.demand id k ≤ s.ceiling := by
  have hle := ((step_move s k).balanced hb).used_le
  have hc := (step_move s k).ceiling
  rw [hc, h.accounts] at hle
  exact hle

theorem follows_of_le (hb : s.ledger.accounts.Balanced) (hk : k.conn? = some id)
    (fits : s.demand id k ≤ s.ceiling) : s.Follows id k := by
  rcases step_local hb hk with h | h
  · exact h
  · exact absurd h.beyond (Nat.not_lt.mpr fits)

theorem overflows_of_lt (hb : s.ledger.accounts.Balanced) (hk : k.conn? = some id)
    (beyond : s.ceiling < s.demand id k) : s.Overflows id k := by
  rcases step_local hb hk with h | h
  · exact absurd beyond (Nat.not_lt.mpr (h.demand_le hb))
  · exact h

end Service

end PacketBudget
