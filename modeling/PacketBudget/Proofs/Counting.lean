import PacketBudget.Proofs.Balance
import PacketBudget.Proofs.Ticks

/-!
What the counters say of a run. They agree with the history of the calls, with the table and with
each other, whatever was called and whether or not a host had taken the service up. The gauge of the
registered connections is never asked to go below zero.
-/

namespace PacketBudget

namespace Table

theorem size_eq_length (t : Table) : t.size = t.toList.length := by
  rw [size, toList]
  induction t.shards.toList with
  | nil => rfl
  | cons s ss ih => rw [List.map_cons, total, ih, List.flatten_cons, List.length_append]

/-- The entries counted one each. -/
theorem size_eq_sum (t : Table) : t.size = t.sum fun _ => 1 := by
  rw [size_eq_length, sum, total_map_one]

variable {t : Table} {id : ConnId} {e : Entry}

theorem size_put_new (h : t.Sound) (hn : t.get? id = none) (e : Entry) :
    (t.put id e).size = t.size + 1 := by
  rw [size_eq_sum, size_eq_sum, sum_put_new h hn, Nat.add_comm]

theorem size_put_old (h : t.Sound) (he : t.get? id = some e) (e' : Entry) :
    (t.put id e').size = t.size := by
  have hs := sum_put_old h he e' fun _ => 1
  rw [size_eq_sum, size_eq_sum]
  omega

theorem size_erase (h : t.Sound) (he : t.get? id = some e) : (t.erase id).size + 1 = t.size := by
  rw [size_eq_sum, size_eq_sum, sum_erase h he, Nat.add_comm]

end Table

theorem countP_snoc {α : Type} (p : α → Bool) (xs : List α) (x : α) :
    (xs ++ [x]).countP p = xs.countP p + (p x).toNat := by
  rw [List.countP_append, List.countP_singleton]
  cases p x <;> rfl

theorem countP_cons_toNat {α : Type} (p : α → Bool) (xs : List α) (x : α) :
    (x :: xs).countP p = xs.countP p + (p x).toNat := by
  rw [List.countP_cons]
  cases p x <;> rfl

namespace Event

/-- A connection is announced. -/
def connects (v : Event) : Bool :=
  match v.call with
  | .connect _ => true
  | _ => false

/-- A packet is to be charged. -/
def charges (v : Event) : Bool := v.call.packet?.isSome

/-- Another host is refused. -/
def retakes (v : Event) : Bool :=
  match v.call, v.outcome with
  | .init _, .rejected _ => true
  | _, _ => false

/-- A packet is refused because its connection is not registered. -/
def strays (v : Event) : Bool :=
  match v.outcome with
  | .rejected (.unknownConnection _) => true
  | _ => false

theorem of_creditor? {k : Call} {id : ConnId} (o : Outcome) (h : k.creditor? = some id) :
    connects ⟨k, o⟩ = false ∧ charges ⟨k, o⟩ = false ∧ retakes ⟨k, o⟩ = false := by
  cases k <;> simp_all [Call.creditor?, connects, charges, retakes, Call.packet?]

theorem of_packet? {k : Call} {p : ConnId × Nat} (o : Outcome) (h : k.packet? = some p) :
    connects ⟨k, o⟩ = false ∧ charges ⟨k, o⟩ = true ∧ retakes ⟨k, o⟩ = false := by
  cases k <;> simp_all [connects, charges, retakes, Call.packet?]

/-- No event is of two of the kinds that are counted. -/
theorem one_kind (v : Event) : v.connects.toNat + v.charges.toNat + v.retakes.toNat ≤ 1 := by
  obtain ⟨k, o⟩ := v
  cases k <;> cases o <;> simp [connects, charges, retakes, Call.packet?]

theorem countP_kinds_le (es : List Event) :
    es.countP connects + es.countP charges + es.countP retakes ≤ es.length := by
  induction es with
  | nil => simp
  | cons v es ih =>
    have hv := v.one_kind
    simp only [countP_cons_toNat, List.length_cons]
    omega

theorem strays_of_admits {k : Call} {o : Outcome} {c : Charge} (h : Admits c k o) :
    strays ⟨k, o⟩ = false := by
  cases h <;> rfl

end Event

namespace Counts

variable {f : Fault} {c : Counter}

theorem tickAll_fault_of_ne (x : Counts) (f : Fault) (hb : c ≠ .budgetExhausted)
    (hi : c ≠ .integrationErrors) : x.tickAll f.ticks c = x c := by
  unfold Fault.ticks
  repeat' split
  all_goals simp [hb, hi]

/-- A rejection is counted as one for want of room or as the host's fault, or its connection is not
registered. -/
theorem tickAll_fault (x : Counts) (k : Call) (late : ∀ d, f ≠ .invalidConfiguration d) :
    x.tickAll f.ticks .budgetExhausted + x.tickAll f.ticks .integrationErrors +
        (Event.strays ⟨k, .rejected f⟩).toNat =
      x .budgetExhausted + x .integrationErrors + 1 := by
  cases f with
  | invalidConfiguration d => exact absurd rfl (late d)
  | notInitialized | alreadyInitialized | duplicateConnection | budgetExhausted
  | unknownConnection =>
    simp [Fault.ticks, Fault.isBudgetExhausted, Fault.isIntegrationBug, Event.strays] <;> omega

end Counts

namespace Accounts

/-- The entry that a call takes off the table. -/
def removed (a : Accounts) : Call → List Entry
  | .close id => (a.table.get? id).toList
  | _ => []

/-- What counters that do not wrap have to do with the accounts, after a history in which the
registrations `ended` have been closed. -/
structure Tallied (a : Accounts) (es : List Event) (ended : List Entry) (x : Counts) : Prop where
  active : x .activeConnections = a.table.size
  registered : x .connectionsAdmitted = a.table.size + ended.length
  connections : x .connectionsAdmitted + x .connectionsRejected = es.countP Event.connects
  packets : x .packetsAdmitted + x .packetsRejected = es.countP Event.charges
  totals : x .packetsAdmitted = a.table.sum Entry.total + total (ended.map Entry.total)
  rejections : x .connectionsRejected + x .packetsRejected + es.countP Event.retakes =
    x .budgetExhausted + x .integrationErrors + es.countP Event.strays
  bytes : x .bytesReserved = x .bytesReleased + a.budget.used

section Tallying

variable {host : Option HostContext} {a a' : Accounts} {k : Call} {o : Outcome} {f : Fault}
variable {ts : List Tick} {es : List Event}
variable {id : ConnId} {e : Entry} {n : Nat} {ended : List Entry} {x : Counts}

theorem removed_of_creditor? (a : Accounts) (h : k.creditor? = some id) : a.removed k = [] := by
  cases k <;> simp_all [Call.creditor?, removed]

theorem removed_of_packet? (a : Accounts) {p : ConnId × Nat} (h : k.packet? = some p) :
    a.removed k = [] := by
  cases k <;> simp_all [Call.packet?, removed]

namespace Tallied

theorem new (ceiling : Nat) : Tallied { budget := { ceiling } } [] [] fun _ => 0 := by
  have hs : ∀ f, ({} : Table).sum f = 0 := Table.sum_empty
  constructor <;> simp [Table.size_eq_sum, hs, total]

/-- A call of none of the kinds that are counted makes no ticks. -/
theorem quiet (h : a.Tallied es ended x) {v : Event} (hc : v.connects = false)
    (hp : v.charges = false) (hi : v.retakes = false) (hs : v.strays = false) :
    a.Tallied (es ++ [v]) ended x := by
  refine ⟨h.active, h.registered, ?_, ?_, h.totals, ?_, h.bytes⟩
  all_goals simp only [countP_snoc, hc, hp, hi, hs, Bool.toNat_false, Nat.add_zero]
  · exact h.connections
  · exact h.packets
  · exact h.rejections

/-- A connection, a packet or a host is rejected. -/
theorem rejected (h : a.Tallied es ended x) {y : Counts} (late : ∀ d, f ≠ .invalidConfiguration d)
    (hc : y .connectionsRejected = x .connectionsRejected + (Event.connects ⟨k, .rejected f⟩).toNat)
    (hp : y .packetsRejected = x .packetsRejected + (Event.charges ⟨k, .rejected f⟩).toNat)
    (same : ∀ c, c ≠ .connectionsRejected → c ≠ .packetsRejected → y c = x c)
    (one : (Event.connects ⟨k, .rejected f⟩).toNat + (Event.charges ⟨k, .rejected f⟩).toNat +
      (Event.retakes ⟨k, .rejected f⟩).toNat = 1) :
    a.Tallied (es ++ [⟨k, .rejected f⟩]) ended (y.tickAll f.ticks) := by
  have hfault := Counts.tickAll_fault y k late
  have hother : ∀ c, c ≠ .budgetExhausted → c ≠ .integrationErrors →
      y.tickAll f.ticks c = y c := fun c => Counts.tickAll_fault_of_ne y f
  obtain ⟨hactive, hregistered, hconnections, hpackets, htotals, hrejections, hbytes⟩ := h
  rw [same .budgetExhausted nofun nofun, same .integrationErrors nofun nofun] at hfault
  constructor
  all_goals
    simp only [countP_snoc, hother, hc, hp, same, ne_eq, reduceCtorEq, not_false_eq_true]
    omega

theorem opened (h : a.Tallied es ended x) (hs : a.table.Sound) (fresh : a.table.get? id = none) :
    (a.opened id n).Tallied (es ++ [⟨.connect id, .done⟩]) ended
      (x.tickAll [.incr .connectionsAdmitted, .incr .activeConnections,
        .add .bytesReserved n]) := by
  have hone := Table.sum_put_new hs fresh { epoch := a.nextEpoch, overhead := n } fun _ => 1
  have htotal := Table.sum_put_new hs fresh { epoch := a.nextEpoch, overhead := n } Entry.total
  obtain ⟨hactive, hregistered, hconnections, hpackets, htotals, hrejections, hbytes⟩ := h
  rw [Table.size_eq_sum] at hactive hregistered
  constructor
  all_goals
    simp only [Accounts.opened, Table.size_eq_sum, hone, htotal, countP_snoc, Event.connects,
      Event.charges, Event.retakes, Event.strays, Call.packet?, Option.isSome_none, Bool.toNat_true,
      Bool.toNat_false, Counts.tickAll_cons, Counts.tickAll_nil, Counts.tick_incr,
      Counts.tick_add, reduceCtorEq, ↓reduceIte]
    omega

theorem charged (h : a.Tallied es ended x) (hs : a.table.Sound)
    (found : a.table.get? id = some e) (admits : Admits ⟨id, e.epoch, n⟩ k o) :
    (a.charged id e n).Tallied (es ++ [⟨k, o⟩]) ended
      (x.tickAll [.incr .packetsAdmitted, .add .bytesReserved n]) := by
  have hone := Table.sum_put_old hs found (e.charge n) fun _ => 1
  have htotal := Table.sum_put_old hs found (e.charge n) Entry.total
  obtain ⟨hc, hp, hi⟩ := Event.of_packet? o admits.packet
  have hstray := Event.strays_of_admits admits
  obtain ⟨hactive, hregistered, hconnections, hpackets, htotals, hrejections, hbytes⟩ := h
  rw [Table.size_eq_sum] at hactive hregistered
  simp only [Entry.charge] at hone htotal
  constructor
  all_goals
    simp only [Accounts.charged, Entry.charge, Table.size_eq_sum, countP_snoc, hc, hp, hi, hstray,
      Bool.toNat_true, Bool.toNat_false, Counts.tickAll_cons, Counts.tickAll_nil, Counts.tick_incr,
      Counts.tick_add, reduceCtorEq, ↓reduceIte]
    omega

theorem credited (h : a.Tallied es ended x) (hb : a.Balanced) (creditor : k.creditor? = some id)
    (found : a.table.get? id = some e) (held : n ≤ e.packetBytes) :
    (a.credit id e n).2.Tallied (es ++ [⟨k, .freed (min a.budget.used n)⟩]) ended
      (x.tickAll [.add .bytesReleased (min a.budget.used n)]) := by
  have hone := Table.sum_put_old hb.sound found (e.credit n) fun _ => 1
  have htotal := Table.sum_put_old hb.sound found (e.credit n) Entry.total
  have hle := hb.packetBytes_le found
  obtain ⟨hc, hp, hi⟩ := Event.of_creditor? (.freed (min a.budget.used n)) creditor
  obtain ⟨hactive, hregistered, hconnections, hpackets, htotals, hrejections, hbytes⟩ :=
    h.quiet hc hp hi rfl
  rw [Table.size_eq_sum] at hactive hregistered
  simp only [Entry.credit] at hone htotal
  constructor
  all_goals
    simp only [Accounts.credit, Budget.release, Entry.credit, Table.size_eq_sum,
      Counts.tickAll_cons, Counts.tickAll_nil, Counts.tick_add, reduceCtorEq, ↓reduceIte]
    omega

theorem closed (h : a.Tallied es ended x) (hb : a.Balanced) (found : a.table.get? id = some e) :
    (a.closed id e).Tallied (es ++ [⟨.close id, .freed (min a.budget.used e.charged)⟩])
      (ended ++ [e])
      (x.tickAll [.decr .activeConnections,
        .add .bytesReleased (min a.budget.used e.charged)]) := by
  have hone := Table.sum_erase hb.sound found fun _ => 1
  have htotal := Table.sum_erase hb.sound found Entry.total
  have hle := hb.charged_le found
  obtain ⟨hactive, hregistered, hconnections, hpackets, htotals, hrejections, hbytes⟩ :=
    h.quiet (v := ⟨.close id, .freed (min a.budget.used e.charged)⟩) rfl rfl rfl rfl
  rw [Table.size_eq_sum] at hactive hregistered
  constructor
  all_goals
    simp only [Accounts.closed, Table.size_eq_sum, List.length_append, List.length_singleton,
      List.map_append, List.map_cons, List.map_nil, total_append, total, Counts.tickAll_cons,
      Counts.tickAll_nil, Counts.tick_decr, Counts.tick_add, reduceCtorEq, ↓reduceIte]
    omega

/-- Every call keeps the tally. -/
theorem entered (h : a.Tallied es ended x) (hb : a.Balanced) (he : Entered host a k o a' ts) :
    a'.Tallied (es ++ [⟨k, o⟩]) (ended ++ a.removed k) (x.tickAll ts) := by
  cases he with
  | taken c =>
    simp only [removed, List.append_nil]
    exact h.quiet rfl rfl rfl rfl
  | repeated c =>
    simp only [removed, List.append_nil]
    exact h.rejected nofun rfl rfl (fun _ _ _ => rfl) rfl
  | turnedAway late =>
    simp only [removed, List.append_nil]
    exact h.rejected late rfl rfl (fun c hc _ => if_neg hc) rfl
  | opened _ fresh =>
    simp only [removed, List.append_nil]
    exact h.opened hb.sound fresh
  | @refused _ _ f packet late =>
    obtain ⟨hc, hp, hi⟩ := Event.of_packet? (.rejected f) packet
    rw [removed_of_packet? a packet, List.append_nil]
    refine h.rejected late ?_ ?_ (fun c _ hc => if_neg hc) ?_
    · rw [hc]
      rfl
    · rw [hp]
      rfl
    · rw [hc, hp, hi]
      rfl
  | charged _ found _ _ admits =>
    rw [removed_of_packet? a admits.packet, List.append_nil]
    exact h.charged hb.sound found admits
  | refunded returned found =>
    have creditor := Call.creditor?_of_returned? returned
    rw [removed_of_creditor? a creditor, List.append_nil]
    exact h.credited hb creditor found (Nat.min_le_right _ _)
  | released found =>
    simp only [removed, List.append_nil]
    exact h.credited hb rfl found (Nat.min_le_right _ _)
  | stale returned =>
    have creditor := Call.creditor?_of_returned? returned
    obtain ⟨hc, hp, hi⟩ := Event.of_creditor? (.freed 0) creditor
    rw [removed_of_creditor? a creditor, List.append_nil]
    exact h.quiet hc hp hi rfl
  | spared =>
    simp only [removed, List.append_nil]
    exact h.quiet rfl rfl rfl rfl
  | closed found =>
    rw [removed, found, Option.toList_some]
    exact h.closed hb found
  | absent gone =>
    rw [removed, gone, Option.toList_none, List.append_nil]
    exact h.quiet rfl rfl rfl rfl

end Tallied

end Tallying

end Accounts

namespace Service

/-- The entries of the registrations that a run ends, in order, as their closes find them. -/
def closings (s : Service) : List Call → List Entry
  | [] => []
  | k :: ks => s.ledger.accounts.removed k ++ (s.step k).2.closings ks

/-- The counters show counts that tally with the accounts, after a history in which the
registrations `ended` have been closed. -/
structure Counted (s : Service) (es : List Event) (ended : List Entry) (x : Counts) : Prop where
  shown : s.counters.Shows x
  balanced : s.ledger.accounts.Balanced
  tallied : s.ledger.accounts.Tallied es ended x

section Counting

variable {s s₀ : Service} {k : Call} {es : List Event} {ended : List Entry} {x : Counts}

theorem counted_create {limit : Int64} {al al' : Allocator} (h : create limit al = .ok (s, al')) :
    s.Counted [] [] fun _ => 0 := by
  refine ⟨?_, balanced_create h, ?_⟩
  · rw [counters, (create_eq h).2]
    exact Counters.shows_new
  · rw [(create_eq h).2]
    exact .new _

theorem not_decr_fault (f : Fault) (c : Counter) : .decr c ∉ f.ticks := by
  unfold Fault.ticks
  repeat' split
  all_goals simp

/-- No connection is counted that has not been announced. -/
theorem Counted.active_le (h : s.Counted es ended x) : s.active ≤ es.countP Event.connects := by
  calc s.active ≤ s.active + ended.length := Nat.le_add_right _ _
    _ = x .connectionsAdmitted := h.tallied.registered.symm
    _ ≤ x .connectionsAdmitted + x .connectionsRejected := Nat.le_add_right _ _
    _ = es.countP Event.connects := h.tallied.connections

theorem counted_step (h : s.Counted es ended x) (k : Call) (few : s.active < UInt64.size) :
    ∃ y, (s.step k).2.Counted (es ++ [⟨k, (s.step k).1⟩]) (ended ++ s.ledger.accounts.removed k)
      y := by
  obtain ⟨ts, he, ht⟩ := step_enters s k
  refine ⟨x.tickAll ts, ?_, (step_move s k).balanced h.balanced, h.tallied.entered h.balanced he⟩
  rw [ht]
  have hdecr : x .activeConnections < UInt64.size := by rwa [h.tallied.active]
  generalize (s.step k).2.ledger.accounts = a at he
  generalize (s.step k).1 = o at he
  cases he with
  | closed found =>
    refine (h.shown.tick (.decr .activeConnections) ?_).tick (.add .bytesReleased _) nofun
    rintro c ⟨⟩
    exact hdecr
  | repeated c => exact h.shown.tickAll (not_decr_fault _)
  | turnedAway | refused => exact (h.shown.tick (.incr _) nofun).tickAll (not_decr_fault _)
  | taken | opened | charged | refunded | stale | released | spared | absent =>
    exact h.shown.tickAll (by simp)

theorem counted_run (h : s.Counted es ended x) (ks : List Call)
    (few : es.countP Event.connects + (s.history ks).countP Event.connects < UInt64.size) :
    ∃ y, (s.run ks).2.Counted (es ++ s.history ks) (ended ++ s.closings ks) y := by
  induction ks generalizing s es ended x with
  | nil =>
    rw [history, closings, List.append_nil, List.append_nil]
    exact ⟨x, h⟩
  | cons k ks ih =>
    have hle := h.active_le
    obtain ⟨y, hy⟩ := counted_step h k (by omega)
    have hfew : (es ++ [(⟨k, (s.step k).1⟩ : Event)]).countP Event.connects +
        ((s.step k).2.history ks).countP Event.connects < UInt64.size := by
      simp only [history, countP_cons_toNat, countP_snoc] at few ⊢
      omega
    obtain ⟨z, hz⟩ := ih hy hfew
    refine ⟨z, ?_⟩
    simpa only [history, closings, run_cons, List.append_assoc, List.singleton_append] using hz

/-- What the counters say of a run from `s`, which is over at `t`. -/
structure CountersAgree (s : Service) (ks : List Call) (t : Service) : Prop where
  /-- The bytes reserved and not released, in 64 bits. -/
  bytes : t.counters.bytesReserved - t.counters.bytesReleased = UInt64.ofNat t.used
  active : t.counters.activeConnections.toNat = t.active
  admitted : t.counters.connectionsAdmitted.toNat = t.active + (s.closings ks).length
  connections : t.counters.connectionsAdmitted.toNat + t.counters.connectionsRejected.toNat =
    (s.history ks).countP Event.connects
  packets : t.counters.packetsAdmitted.toNat + t.counters.packetsRejected.toNat =
    (s.history ks).countP Event.charges
  totals : t.counters.packetsAdmitted.toNat =
    total (t.registered.map (·.2.total)) + total ((s.closings ks).map Entry.total)
  rejections : t.counters.connectionsRejected.toNat + t.counters.packetsRejected.toNat +
      (s.history ks).countP Event.retakes =
    t.counters.budgetExhausted.toNat + t.counters.integrationErrors.toNat +
      (s.history ks).countP Event.strays

theorem Counted.toNat_eq (h : s.Counted es ended x) {c : Counter} (few : x c < UInt64.size) :
    (s.counters.get c).toNat = x c := by
  rw [h.shown c, UInt64.toNat_ofNat_of_lt' few]

theorem Counted.agree {ks : List Call} {t : Service}
    (h : t.Counted (s.history ks) (s.closings ks) x) (few : ks.length < UInt64.size) :
    s.CountersAgree ks t := by
  obtain ⟨hactive, hregistered, hconnections, hpackets, htotals, hrejections, hbytes⟩ := h.tallied
  have hle := Event.countP_kinds_le (s.history ks)
  rw [length_history] at hle
  have hactive := (h.toNat_eq (c := .activeConnections) (by omega)).trans hactive
  have hca := h.toNat_eq (c := .connectionsAdmitted) (by omega)
  have hcr := h.toNat_eq (c := .connectionsRejected) (by omega)
  have hpa := h.toNat_eq (c := .packetsAdmitted) (by omega)
  have hpr := h.toNat_eq (c := .packetsRejected) (by omega)
  have hbe := h.toNat_eq (c := .budgetExhausted) (by omega)
  have hie := h.toNat_eq (c := .integrationErrors) (by omega)
  simp only [Counters.get] at hactive hca hcr hpa hpr hbe hie
  refine ⟨?_, hactive, ?_, ?_, ?_, ?_, ?_⟩
  · have hr : t.counters.bytesReserved = _ := h.shown .bytesReserved
    have hf : t.counters.bytesReleased = _ := h.shown .bytesReleased
    rw [hr, hf, hbytes, UInt64.ofNat_add, UInt64.add_comm, UInt64.add_sub_cancel]
    rfl
  · rw [hca]
    exact hregistered
  · rw [hca, hcr]
    exact hconnections
  · rw [hpa, hpr]
    exact hpackets
  · rw [hpa]
    exact htotals
  · rw [hcr, hpr, hbe, hie]
    exact hrejections

/-- After any calls, those before a host has taken the service up among them, the counters agree
with the history, with the table and with each other. -/
theorem counters_agree {limit : Int64} {al al' : Allocator} (h : create limit al = .ok (s₀, al'))
    (ks : List Call) (few : ks.length < UInt64.size) : s₀.CountersAgree ks (s₀.run ks).2 := by
  have hle := Event.countP_kinds_le (s₀.history ks)
  rw [length_history] at hle
  obtain ⟨x, hx⟩ := counted_run (counted_create h) ks (by rw [List.countP_nil]; omega)
  exact Counted.agree hx few

/-- A run with a rejection of every kind, an id that is used twice and a charge that is stale. -/
theorem counters_agree_of_every_rejection :
    ∃ s al' ks, create 100 {} = .ok (s, al') ∧ s.CountersAgree ks (s.run ks).2 ∧
      (s.run ks).2.counters = ⟨2, 3, 1, 2, 3, 2, 4, 135, 40⟩ := by
  have h : create 100 {} = .ok (_, _) := rfl
  exact ⟨_, _, [.connect ⟨7⟩, .charge ⟨7⟩ 5, .init ⟨"host", ⟨10, 0⟩⟩, .init ⟨"other", {}⟩,
    .connect ⟨7⟩, .connect ⟨7⟩, .lease ⟨7⟩ 30, .receive ⟨7⟩ 90, .receive ⟨8⟩ 1, .close ⟨7⟩,
    .close ⟨7⟩, .connect ⟨7⟩, .drop ⟨⟨1⟩, ⟨7⟩, 1, 30⟩, .charge ⟨7⟩ 85, .connect ⟨8⟩], h,
    counters_agree h _ (by decide), by decide⟩

end Counting

end Service

end PacketBudget
