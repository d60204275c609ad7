import PacketBudget.Service

/-!
What a call can do to the accounts of a service and which counters it ticks, case by case, and the
history of a run: its calls with their outcomes. What holds at the start and survives every call
holds after every run.
-/

namespace PacketBudget

/-- The packet that a call wants charged: its connection and its bytes. -/
def Call.packet? : Call → Option (ConnId × Nat)
  | .charge conn n | .receive conn n | .lease conn n => some (conn, n)
  | _ => none

/-- The charge that a call gives back. -/
def Call.returned? : Call → Option Charge
  | .refund c => some c
  | .drop l => some l.charge
  | _ => none

/-- The charge that a caller is handed. -/
def Outcome.charge? : Outcome → Option Charge
  | .charged c => some c
  | .leased l => some l.charge
  | _ => none

theorem Call.packet?_of_returned? {k : Call} {c : Charge} (h : k.returned? = some c) :
    k.packet? = none := by
  cases k <;> simp_all [Call.returned?, Call.packet?]

/-- A call that charges a packet, with the outcome that it was admitted. -/
inductive Admits (c : Charge) : Call → Outcome → Prop
  | charge : Admits c (.charge c.conn c.bytes) (.charged c)
  | receive : Admits c (.receive c.conn c.bytes) .done
  | lease (holder : Identity) : Admits c (.lease c.conn c.bytes) (.leased ⟨holder, c⟩)

theorem Admits.packet {c : Charge} {k : Call} {o : Outcome} (h : Admits c k o) :
    k.packet? = some (c.conn, c.bytes) := by
  cases h <;> rfl

theorem Admits.eq_of_charge? {c d : Charge} {k : Call} {o : Outcome} (h : Admits d k o)
    (ho : o.charge? = some c) : c = d := by
  cases h with
  | receive => cases ho
  | charge | lease => exact (Option.some.inj ho).symm

namespace Accounts

/-- A fresh registration of `id`. -/
def opened (a : Accounts) (id : ConnId) (overhead : Nat) : Accounts :=
  ⟨{ a.budget with used := a.budget.used + overhead },
    a.table.put id { epoch := a.nextEpoch, overhead }, a.nextEpoch + 1⟩

/-- One more packet on the entry of `id`. -/
def charged (a : Accounts) (id : ConnId) (e : Entry) (n : Nat) : Accounts :=
  { a with
    budget := { a.budget with used := a.budget.used + n }
    table := a.table.put id (e.charge n) }

/-- Without the registration of `id`, whose entry was `e`. -/
def closed (a : Accounts) (id : ConnId) (e : Entry) : Accounts :=
  { a with
    budget := { a.budget with used := a.budget.used - e.charged }
    table := a.table.erase id }

/-- One call on the accounts. The last two arguments are what it comes to. -/
inductive Move (host : Option HostContext) (a : Accounts) : Call → Outcome → Accounts → Prop
  | init (h : HostContext) : Move host a (.init h) .done a
  | refused {k : Call} (f : Fault) (asks : k.returned? = none) (stays : ∀ id, k ≠ .close id) :
      Move host a k (.rejected f) a
  | opened {h : HostContext} {id : ConnId} (taken : host = some h)
      (fresh : a.table.get? id = none)
      (fits : a.budget.used + h.policy.overhead ≤ a.budget.ceiling) :
      Move host a (.connect id) .done (a.opened id h.policy.overhead)
  | charged {h : HostContext} {k : Call} {o : Outcome} {id : ConnId} {n : Nat} {e : Entry}
      (taken : host = some h) (found : a.table.get? id = some e)
      (cap : e.fits h.policy.cap n = true) (fits : a.budget.used + n ≤ a.budget.ceiling)
      (admits : Admits ⟨id, e.epoch, n⟩ k o) : Move host a k o (a.charged id e n)
  | refunded {k : Call} {c : Charge} {e : Entry} (returned : k.returned? = some c)
      (found : a.table.get? c.conn = some e) (live : e.epoch = c.epoch) :
      Move host a k (.freed (min a.budget.used (min c.bytes e.packetBytes)))
        (a.credit c.conn e (min c.bytes e.packetBytes)).2
  | stale {k : Call} {c : Charge} (returned : k.returned? = some c)
      (ended : ∀ e, a.table.get? c.conn = some e → e.epoch ≠ c.epoch) :
      Move host a k (.freed 0) a
  | released {id : ConnId} {m : Nat} {e : Entry} (found : a.table.get? id = some e)
      (held : min m e.packetBytes ≠ 0) :
      Move host a (.release id m) (.freed (min a.budget.used (min m e.packetBytes)))
        (a.credit id e (min m e.packetBytes)).2
  | spared {id : ConnId} {m : Nat}
      (empty : ∀ e, a.table.get? id = some e → min m e.packetBytes = 0) :
      Move host a (.release id m) (.freed 0) a
  | closed {id : ConnId} {e : Entry} (found : a.table.get? id = some e) :
      Move host a (.close id) (.freed (min a.budget.used e.charged)) (a.closed id e)
  | absent {id : ConnId} (gone : a.table.get? id = none) : Move host a (.close id) (.freed 0) a

/-- One call with its ticks. The arguments after the accounts are the call, what it comes to, the
accounts after it and the ticks that it makes. -/
inductive Entered (host : Option HostContext) (a : Accounts) :
    Call → Outcome → Accounts → List Tick → Prop
  | taken (h : HostContext) : Entered host a (.init h) .done a []
  | repeated (h : HostContext) :
      Entered host a (.init h) (.rejected .alreadyInitialized) a Fault.alreadyInitialized.ticks
  | turnedAway {id : ConnId} {f : Fault} (late : ∀ d, f ≠ .invalidConfiguration d) :
      Entered host a (.connect id) (.rejected f) a (.incr .connectionsRejected :: f.ticks)
  | opened {h : HostContext} {id : ConnId} (taken : host = some h)
      (fresh : a.table.get? id = none)
      (fits : a.budget.used + h.policy.overhead ≤ a.budget.ceiling) :
      Entered host a (.connect id) .done (a.opened id h.policy.overhead)
        [.incr .connectionsAdmitted, .incr .activeConnections,
          .add .bytesReserved h.policy.overhead]
  | refused {k : Call} {p : ConnId × Nat} {f : Fault} (packet : k.packet? = some p)
      (late : ∀ d, f ≠ .invalidConfiguration d) :
      Entered host a k (.rejected f) a (.incr .packetsRejected :: f.ticks)
  | charged {h : HostContext} {k : Call} {o : Outcome} {id : ConnId} {n : Nat} {e : Entry}
      (taken : host = some h) (found : a.table.get? id = some e)
      (cap : e.fits h.policy.cap n = true) (fits : a.budget.used + n ≤ a.budget.ceiling)
      (admits : Admits ⟨id, e.epoch, n⟩ k o) :
      Entered host a k o (a.charged id e n) [.incr .packetsAdmitted, .add .bytesReserved n]
  | refunded {k : Call} {c : Charge} {e : Entry} (returned : k.returned? = some c)
      (found : a.table.get? c.conn = some e) (live : e.epoch = c.epoch) :
      Entered host a k (.freed (min a.budget.used (min c.bytes e.packetBytes)))
        (a.credit c.conn e (min c.bytes e.packetBytes)).2
        [.add .bytesReleased (min a.budget.used (min c.bytes e.packetBytes))]
  | stale {k : Call} {c : Charge} (returned : k.returned? = some c)
      (ended : ∀ e, a.table.get? c.conn = some e → e.epoch ≠ c.epoch) :
      Entered host a k (.freed 0) a []
  | released {id : ConnId} {m : Nat} {e : Entry} (found : a.table.get? id = some e)
      (held : min m e.packetBytes ≠ 0) :
      Entered host a (.release id m) (.freed (min a.budget.used (min m e.packetBytes)))
        (a.credit id e (min m e.packetBytes)).2
        [.add .bytesReleased (min a.budget.used (min m e.packetBytes))]
  | spared {id : ConnId} {m : Nat}
      (empty : ∀ e, a.table.get? id = some e → min m e.packetBytes = 0) :
      Entered host a (.release id m) (.freed 0) a []
  | closed {id : ConnId} {e : Entry} (found : a.table.get? id = some e) :
      Entered host a (.close id) (.freed (min a.budget.used e.charged)) (a.closed id e)
        [.decr .activeConnections, .add .bytesReleased (min a.budget.used e.charged)]
  | absent {id : ConnId} (gone : a.table.get? id = none) :
      Entered host a (.close id) (.freed 0) a []

variable {host : Option HostContext} {a a' : Accounts} {k : Call} {o : Outcome} {ts : List Tick}
variable {id : ConnId} {n cap : Nat} {f : Fault}

/-- Apart from its ticks. -/
theorem Entered.move (h : Entered host a k o a' ts) : Move host a k o a' := by
  cases h with
  | taken h => exact .init h
  | repeated h => exact .refused _ rfl (by simp)
  | turnedAway => exact .refused _ rfl (by simp)
  | opened taken fresh fits => exact .opened taken fresh fits
  | refused packet =>
    refine .refused _ ?_ fun id hk => ?_
    · cases k <;> simp_all [Call.packet?, Call.returned?]
    · subst hk
      cases packet
  | charged taken found cap fits admits => exact .charged taken found cap fits admits
  | refunded returned found live => exact .refunded returned found live
  | stale returned ended => exact .stale returned ended
  | released found held => exact .released found held
  | spared empty => exact .spared empty
  | closed found => exact .closed found
  | absent gone => exact .absent gone

theorem register_fault (h : a.register id n = .error f) (d : String) :
    f ≠ .invalidConfiguration d := by
  unfold register at h
  split at h
  · cases h
    nofun
  · split at h <;> cases h
    nofun

theorem charge_fault (h : a.charge id n cap = .error f) (d : String) :
    f ≠ .invalidConfiguration d := by
  unfold charge at h
  split at h
  · cases h
    nofun
  · split at h <;> cases h
    nofun

end Accounts

namespace Service

open Accounts (Move Entered)

/-- A call has entered its outcome in the books of `s`, and `t` is what that has made of them. -/
def Enters (s : Service) (k : Call) (o : Outcome) (t : Service) : Prop :=
  ∃ ts, Entered s.host s.ledger.accounts k o t.ledger.accounts ts ∧
    t.counters = s.counters.tickAll ts

theorem connect_enters (s : Service) (conn : ConnId) :
    s.Enters (.connect conn) (s.step (.connect conn)).1 (s.step (.connect conn)).2 := by
  cases hh : s.host with
  | none =>
    simp only [step, connect, hh, outcome]
    exact ⟨_, .turnedAway (f := .notInitialized) (by simp), rfl⟩
  | some h =>
    cases hr : s.ledger.accounts.register conn h.policy.overhead with
    | error f =>
      simp only [step, connect, hh, Ledger.register, hr, outcome]
      exact ⟨_, .turnedAway (Accounts.register_fault hr), rfl⟩
    | ok a =>
      obtain ⟨hc, hf, rfl⟩ := Accounts.register_eq_ok_iff.mp hr
      simp only [step, connect, hh, Ledger.register, hr, outcome]
      exact ⟨_, .opened hh (by simpa [Table.contains] using hc) hf, rfl⟩

/-- A packet is refused and nothing changes but for the counters, or it is charged to the
registration there is. -/
theorem charge_cases (s : Service) (conn : ConnId) (n : Nat) :
    (∃ f, (s.charge conn n).1 = .error f ∧ (∀ d, f ≠ .invalidConfiguration d) ∧
      (s.charge conn n).2.ledger.accounts = s.ledger.accounts ∧
      (s.charge conn n).2.counters = s.counters.tickAll (.incr .packetsRejected :: f.ticks)) ∨
    ∃ h e, s.host = some h ∧ s.ledger.accounts.table.get? conn = some e ∧
      e.fits h.policy.cap n = true ∧ s.used + n ≤ s.ceiling ∧
      (s.charge conn n).1 = .ok ⟨conn, e.epoch, n⟩ ∧
      (s.charge conn n).2.ledger.accounts = s.ledger.accounts.charged conn e n ∧
      (s.charge conn n).2.counters =
        s.counters.tickAll [.incr .packetsAdmitted, .add .bytesReserved n] := by
  cases hh : s.host with
  | none =>
    left
    simp only [charge, hh]
    exact ⟨_, rfl, by simp, rfl, rfl⟩
  | some h =>
    cases hr : s.ledger.accounts.charge conn n h.policy.cap with
    | error f =>
      left
      simp only [charge, hh, Ledger.charge, hr]
      exact ⟨f, rfl, Accounts.charge_fault hr, rfl, rfl⟩
    | ok r =>
      obtain ⟨c, a⟩ := r
      obtain ⟨e, he, hcap, hfits, rfl, rfl⟩ := Accounts.charge_eq_ok_iff.mp hr
      right
      simp only [charge, hh, Ledger.charge, hr]
      exact ⟨h, e, rfl, he, hcap, hfits, rfl, rfl, rfl⟩

/-- The three calls for a packet differ in what they hand out. -/
theorem packet_enters (s : Service) {conn : ConnId} {n : Nat} {k : Call}
    (hk : k.packet? = some (conn, n)) : s.Enters k (s.step k).1 (s.step k).2 := by
  have hpacket := hk
  have hk : k = .charge conn n ∨ k = .receive conn n ∨ k = .lease conn n := by
    cases k <;> simp_all [Call.packet?]
  have hc := charge_cases s conn n
  rcases hr : s.charge conn n with ⟨r, t⟩
  simp only [hr] at hc
  rcases hc with ⟨f, rfl, hf, ha, ht⟩ | ⟨h, e, hh, he, hcap, hfits, rfl, ha, ht⟩
  · rcases hk with rfl | rfl | rfl
    all_goals
      simp only [step, lease, hr, outcome]
      exact ⟨_, ha ▸ .refused hpacket hf, ht⟩
  · rcases hk with rfl | rfl | rfl
    · simp only [step, hr, outcome]
      exact ⟨_, ha ▸ .charged hh he hcap hfits .charge, ht⟩
    · simp only [step, hr, outcome]
      exact ⟨_, ha ▸ .charged hh he hcap hfits .receive, ht⟩
    · simp only [step, lease, hr, outcome]
      exact ⟨_, ha ▸ .charged hh he hcap hfits (.lease _), ht⟩

theorem refund_enters (s : Service) (c : Charge) {k : Call} (hk : k.returned? = some c) :
    s.Enters k (.freed (s.refund c).1) (s.refund c).2 := by
  cases he : s.ledger.accounts.table.get? c.conn with
  | none =>
    simp only [refund, Ledger.refund, Accounts.refund?, he, Ledger.book]
    exact ⟨[], .stale hk (by simp [he]), rfl⟩
  | some e =>
    by_cases hl : e.epoch = c.epoch
    · simp only [refund, Ledger.refund, Accounts.refund?, he, hl, ↓reduceIte, Ledger.book]
      exact ⟨_, .refunded hk he hl, rfl⟩
    · simp only [refund, Ledger.refund, Accounts.refund?, he, hl, ↓reduceIte, Ledger.book]
      exact ⟨[], .stale hk (by simp [he, hl]), rfl⟩

theorem release_enters (s : Service) (conn : ConnId) (n : Nat) :
    s.Enters (.release conn n) (.freed (s.release conn n).1) (s.release conn n).2 := by
  cases he : s.ledger.accounts.table.get? conn with
  | none =>
    simp only [release, Ledger.release, Accounts.release?, he, Ledger.book]
    exact ⟨[], .spared (by simp [he]), rfl⟩
  | some e =>
    by_cases hn : min n e.packetBytes = 0
    · simp only [release, Ledger.release, Accounts.release?, he, hn, ↓reduceIte, Ledger.book]
      refine ⟨[], .spared fun e' he' => ?_, rfl⟩
      rw [he] at he'
      cases he'
      exact hn
    · simp only [release, Ledger.release, Accounts.release?, he, hn, ↓reduceIte, Ledger.book]
      exact ⟨_, .released he hn, rfl⟩

theorem close_enters (s : Service) (conn : ConnId) :
    s.Enters (.close conn) (.freed (s.close conn).1) (s.close conn).2 := by
  cases he : s.ledger.accounts.table.get? conn with
  | none =>
    simp only [close, Ledger.close, Accounts.remove?, he, Option.map_none]
    exact ⟨[], .absent he, rfl⟩
  | some e =>
    simp only [close, Ledger.close, Accounts.remove?, he, Option.map_some]
    exact ⟨_, .closed he, rfl⟩

/-- Every call makes the ticks of what it comes to. -/
theorem step_enters (s : Service) (k : Call) : s.Enters k (s.step k).1 (s.step k).2 := by
  cases k with
  | init h =>
    cases hh : s.host with
    | none =>
      simp only [step, init, hh, outcome]
      exact ⟨[], .taken h, rfl⟩
    | some h' =>
      simp only [step, init, hh, outcome]
      exact ⟨_, .repeated h, rfl⟩
  | connect conn => exact connect_enters s conn
  | charge conn n | receive conn n | lease conn n => exact packet_enters s rfl
  | refund c => exact refund_enters s c rfl
  | drop l => exact refund_enters s l.charge rfl
  | release conn n => exact release_enters s conn n
  | close conn => exact close_enters s conn

/-- Every call is one of the moves. -/
theorem step_move (s : Service) (k : Call) :
    Move s.host s.ledger.accounts k (s.step k).1 (s.step k).2.ledger.accounts := by
  obtain ⟨ts, he, -⟩ := step_enters s k
  exact he.move

theorem create_eq {limit : Int64} {al al' : Allocator} {s : Service}
    (h : create limit al = .ok (s, al')) :
    s.host = none ∧ s.ledger = .ofCeiling limit.toInt.toNat := by
  unfold create at h
  split at h
  · cases h
  · cases h
    exact ⟨rfl, rfl⟩

theorem create_no_entry {limit : Int64} {al al' : Allocator} {s : Service}
    (h : create limit al = .ok (s, al')) (id : ConnId) : s.entry? id = none := by
  unfold entry?
  rw [(create_eq h).2]
  exact Table.get?_empty id

end Service

/-- A call and what it came to. -/
structure Event where
  call : Call
  outcome : Outcome
  deriving DecidableEq, Repr

namespace Service

/-- The calls of a run, each with its outcome. -/
def history (s : Service) : List Call → List Event
  | [] => []
  | k :: ks => ⟨k, (s.step k).1⟩ :: (s.step k).2.history ks

theorem run_cons (s : Service) (k : Call) (ks : List Call) :
    (s.run (k :: ks)).2 = ((s.step k).2.run ks).2 := rfl

theorem length_history (s : Service) (ks : List Call) : (s.history ks).length = ks.length := by
  induction ks generalizing s with
  | nil => rfl
  | cons k ks ih => simp [history, ih]

/-- What every call keeps, a run keeps. -/
theorem run_keeps {P : Service → Prop} (hstep : ∀ s k, P s → P (s.step k).2) {s : Service}
    (hs : P s) (ks : List Call) : P (s.run ks).2 := by
  induction ks generalizing s with
  | nil => exact hs
  | cons k ks ih => exact ih (hstep s k hs)

/-- What holds of a service and its history so far, whatever is called next, holds throughout. -/
theorem history_keeps {P : List Event → Service → Prop}
    (hstep : ∀ es s k, P es s → P (es ++ [⟨k, (s.step k).1⟩]) (s.step k).2) {s : Service}
    (hs : P [] s) (ks : List Call) : P (s.history ks) (s.run ks).2 := by
  have hrun : ∀ es s, P es s → ∀ ks, P (es ++ s.history ks) (s.run ks).2 := by
    intro es s hs ks
    induction ks generalizing es s with
    | nil => simpa [history, run] using hs
    | cons k ks ih =>
      have h := ih _ _ (hstep es s k hs)
      rwa [List.append_assoc] at h
  exact hrun [] s hs ks

end Service

end PacketBudget
