import PacketBudget.Proofs.Counting
import PacketBudget.Proofs.Leases
import PacketBudget.Proofs.Locality

/-!
What the log says of a run. A call reports once or not at all, at a level that its outcome decides;
the counters of broken calls and of want of room go by the outcome too. So the lines of a level are
as many as the counters and the history have it.
-/

namespace PacketBudget

/-- A connection or a packet has been refused. -/
def Notice.refuses : Notice → Bool
  | refused .. => true
  | _ => false

/-- What a call asks to be admitted. -/
def Call.subject? : Call → Option (ConnId × Subject)
  | .connect id => some (id, .connection)
  | .charge id _ | .receive id _ | .lease id _ => some (id, .packet)
  | _ => none

namespace Event

/-- The call is refused because the host has broken the order of calls. -/
def breaks (v : Event) : Bool :=
  match v.outcome with
  | .rejected f => f.isIntegrationBug
  | _ => false

/-- The call is refused for want of room. -/
def overflows (v : Event) : Bool :=
  match v.outcome with
  | .rejected f => f.isBudgetExhausted
  | _ => false

end Event

namespace Counters

theorem tickAll_fault (x : Counters) (f : Fault) :
    (x.tickAll f.ticks).integrationErrors =
        x.integrationErrors + UInt64.ofNat f.isIntegrationBug.toNat ∧
      (x.tickAll f.ticks).budgetExhausted =
        x.budgetExhausted + UInt64.ofNat f.isBudgetExhausted.toNat := by
  cases f <;>
    simp [Fault.ticks, Fault.isBudgetExhausted, Fault.isIntegrationBug, tickAll, tick, set, get]

end Counters

namespace Accounts

variable {host : Option HostContext} {a a' : Accounts} {k : Call} {o : Outcome} {ts : List Tick}

/-- Of the ticks of a call the failures that they count are those of its outcome. -/
theorem Entered.classified (h : Entered host a k o a' ts) (x : Counters) :
    (x.tickAll ts).integrationErrors =
        x.integrationErrors + UInt64.ofNat (Event.breaks ⟨k, o⟩).toNat ∧
      (x.tickAll ts).budgetExhausted =
        x.budgetExhausted + UInt64.ofNat (Event.overflows ⟨k, o⟩).toNat := by
  cases h with
  | repeated => exact x.tickAll_fault .alreadyInitialized
  | @turnedAway id f => exact (x.tick (.incr .connectionsRejected)).tickAll_fault f
  | @refused k p f => exact (x.tick (.incr .packetsRejected)).tickAll_fault f
  | charged _ _ _ _ admits =>
    cases admits <;> exact ⟨(UInt64.add_zero _).symm, (UInt64.add_zero _).symm⟩
  | taken | opened | refunded | stale | released | spared | closed | absent =>
    exact ⟨(UInt64.add_zero _).symm, (UInt64.add_zero _).symm⟩

/-- The id of a close that finds no entry. -/
def missed (a : Accounts) : Call → List ConnId
  | .close id => if a.table.contains id then [] else [id]
  | _ => []

end Accounts

namespace Service

/-- What a call reports when it comes to an outcome. -/
inductive Reported (s : Service) : Call → Outcome → List Notice → Prop
  | taken (h : HostContext) : Reported s (.init h) .done [.initialized s.identity h s.ceiling]
  | repeated (h : HostContext) (current : String) :
      Reported s (.init h) (.rejected .alreadyInitialized)
        [.initRepeated s.identity h.name current]
  | connected (id : ConnId) : Reported s (.connect id) .done [.connected s.identity id]
  | refused {k : Call} {id : ConnId} {what : Subject} {f : Fault}
      (asked : k.subject? = some (id, what)) (late : ∀ d, f ≠ .invalidConfiguration d) :
      Reported s k (.rejected f) [s.refusal id what f]
  | charged {k : Call} {o : Outcome} {c : Charge} (admits : Admits c k o) : Reported s k o []
  | returned {k : Call} {id : ConnId} {n : Nat} (creditor : k.creditor? = some id) :
      Reported s k (.freed n) []
  | closed {id : ConnId} {n : Nat} (found : s.ledger.accounts.table.contains id = true) :
      Reported s (.close id) (.freed n) [.closed s.identity id n]
  | absent {id : ConnId} (gone : s.ledger.accounts.table.contains id = false) :
      Reported s (.close id) (.freed 0) [.closeUnknown s.identity id]

/-- The call has added the reports of its outcome to the log. -/
def Adds (s : Service) (k : Call) (o : Outcome) (t : Service) : Prop :=
  ∃ ns, s.Reported k o ns ∧ t.journal = ns ++ s.journal

theorem connect_adds (s : Service) (id : ConnId) :
    s.Adds (.connect id) (s.step (.connect id)).1 (s.step (.connect id)).2 := by
  cases hh : s.host with
  | none =>
    simp only [step, connect, hh, outcome]
    exact ⟨_, .refused rfl (by simp), rfl⟩
  | some h =>
    cases hr : s.ledger.accounts.register id h.policy.overhead with
    | error f =>
      simp only [step, connect, hh, Ledger.register, hr, outcome]
      exact ⟨_, .refused rfl (Accounts.register_fault hr), rfl⟩
    | ok a =>
      simp only [step, connect, hh, Ledger.register, hr, outcome]
      exact ⟨_, .connected id, rfl⟩

theorem packet_adds (s : Service) {k : Call} {id : ConnId} {n : Nat}
    (hk : k.packet? = some (id, n)) : s.Adds k (s.step k).1 (s.step k).2 := by
  have hs : k.subject? = some (id, .packet) := by
    cases k <;> cases hk <;> rfl
  rw [step_packet hk]
  cases hh : s.host with
  | none =>
    simp only [charge, hh, outcome]
    exact ⟨_, .refused hs (by simp), rfl⟩
  | some h =>
    cases hr : s.ledger.accounts.charge id n h.policy.cap with
    | error f =>
      simp only [charge, hh, Ledger.charge, hr, outcome]
      exact ⟨_, .refused hs (Accounts.charge_fault hr), rfl⟩
    | ok r =>
      obtain ⟨c, a⟩ := r
      obtain ⟨e, -, -, -, rfl, -⟩ := Accounts.charge_eq_ok_iff.mp hr
      simp only [charge, hh, Ledger.charge, hr, outcome]
      have admits : Admits ⟨id, e.epoch, n⟩ k (k.hands s.identity ⟨id, e.epoch, n⟩) := by
        cases k with
        | charge | receive | lease => cases hk; constructor
        | init | connect | refund | drop | release | close => cases hk
      exact ⟨_, .charged admits, rfl⟩

/-- Every call adds the reports of what it comes to. -/
theorem step_adds (s : Service) (k : Call) : s.Adds k (s.step k).1 (s.step k).2 := by
  cases k with
  | init h =>
    cases hh : s.host with
    | none =>
      simp only [step, init, hh, outcome]
      exact ⟨_, .taken h, rfl⟩
    | some c =>
      simp only [step, init, hh, outcome]
      exact ⟨_, .repeated h c.name, rfl⟩
  | connect id => exact connect_adds s id
  | charge id n | receive id n | lease id n => exact packet_adds s rfl
  | refund c | drop l => exact ⟨[], .returned rfl, rfl⟩
  | release id n => exact ⟨[], .returned rfl, rfl⟩
  | close id =>
    cases he : s.ledger.accounts.table.get? id with
    | none =>
      simp only [step, close, Ledger.close, Accounts.remove?, he, Option.map_none]
      exact ⟨_, .absent (by simp [Table.contains, he]), rfl⟩
    | some e =>
      simp only [step, close, Ledger.close, Accounts.remove?, he, Option.map_some]
      exact ⟨_, .closed (by simp [Table.contains, he]), rfl⟩

/-- How many of some reports are of each kind that is counted, after some calls in which the closes
`missed` have found no entry. -/
structure Sorted (es : List Event) (missed : List ConnId) (ns : List Notice) : Prop where
  errors : ns.countP (·.level = .error) = es.countP Event.breaks
  warnings : ns.countP (·.level = .warn) = es.countP Event.strays + missed.length
  roomless : ns.countP (fun n => n.refuses && n.level = .debug) = es.countP Event.overflows

theorem sorted_nil : Sorted [] [] [] := ⟨rfl, rfl, rfl⟩

theorem Sorted.append {es es' : List Event} {missed missed' : List ConnId} {ns ns' : List Notice}
    (h : Sorted es missed ns) (h' : Sorted es' missed' ns') :
    Sorted (es ++ es') (missed ++ missed') (ns' ++ ns) := by
  obtain ⟨herrors, hwarnings, hroomless⟩ := h
  obtain ⟨herrors', hwarnings', hroomless'⟩ := h'
  constructor
  all_goals
    simp only [List.countP_append, List.length_append]
    omega

variable {s s₀ : Service} {k : Call} {o : Outcome} {ns : List Notice}

/-- The level of a report goes by the outcome as the counters do. -/
theorem Reported.sorted (h : s.Reported k o ns) :
    Sorted [⟨k, o⟩] (s.ledger.accounts.missed k) ns := by
  cases h with
  | @refused k id what f asked late =>
    have hm : s.ledger.accounts.missed k = [] := by
      cases k <;> simp_all [Call.subject?, Accounts.missed]
    rw [hm]
    cases f with
    | invalidConfiguration d => exact absurd rfl (late d)
    | notInitialized | alreadyInitialized | duplicateConnection | budgetExhausted
    | unknownConnection => exact ⟨rfl, rfl, rfl⟩
  | charged admits =>
    cases admits <;> exact ⟨rfl, rfl, rfl⟩
  | returned creditor =>
    cases k with
    | refund | drop | release => exact ⟨rfl, rfl, rfl⟩
    | init | connect | charge | receive | lease | close => cases creditor
  | closed found =>
    rw [Accounts.missed, if_pos found]
    exact ⟨rfl, rfl, rfl⟩
  | absent gone =>
    rw [Accounts.missed, if_neg (by simp [gone])]
    exact ⟨rfl, rfl, rfl⟩
  | taken | repeated | connected => exact ⟨rfl, rfl, rfl⟩

/-- The ids of the closes in a run that find no entry, in order. -/
def misses (s : Service) : List Call → List ConnId
  | [] => []
  | k :: ks => s.ledger.accounts.missed k ++ (s.step k).2.misses ks

/-- What a run adds to the log goes by its history. -/
theorem run_adds (s : Service) (ks : List Call) :
    ∃ ns, (s.run ks).2.journal = ns ++ s.journal ∧ Sorted (s.history ks) (s.misses ks) ns := by
  induction ks generalizing s with
  | nil => exact ⟨[], rfl, sorted_nil⟩
  | cons k ks ih =>
    obtain ⟨ns, hr, hn⟩ := step_adds s k
    obtain ⟨ms, hm, hms⟩ := ih (s.step k).2
    refine ⟨ms ++ ns, ?_, hr.sorted.append hms⟩
    rw [run_cons, hm, hn, List.append_assoc]

/-- The counters of failures go by the history, in 64 bits. -/
theorem classified_run (h : s.counters.integrationErrors = 0 ∧ s.counters.budgetExhausted = 0)
    (ks : List Call) :
    (s.run ks).2.counters.integrationErrors = UInt64.ofNat ((s.history ks).countP Event.breaks) ∧
      (s.run ks).2.counters.budgetExhausted =
        UInt64.ofNat ((s.history ks).countP Event.overflows) := by
  refine history_keeps (P := fun es t =>
    t.counters.integrationErrors = UInt64.ofNat (es.countP Event.breaks) ∧
      t.counters.budgetExhausted = UInt64.ofNat (es.countP Event.overflows)) ?_ h ks
  rintro es t k ⟨herrors, hroomless⟩
  obtain ⟨ts, he, ht⟩ := step_enters t k
  obtain ⟨hbreaks, hoverflows⟩ := he.classified t.counters
  rw [ht, hbreaks, hoverflows, herrors, hroomless]
  simp only [countP_snoc, UInt64.ofNat_add, and_self]

/-- How many lines of a level are in the log. -/
def logged (s : Service) (l : Level) : Nat := (s.journal.map Notice.line).countP (·.level = l)

/-- What one call writes to the log, at whatever level. -/
structure Logs (s : Service) (k : Call) : Prop where
  connection : ∀ id, k = .connect id → ∃ n, (s.step k).2.journal = n :: s.journal ∧
    (n.line.level = .debug ↔
      (s.step k).1 = .done ∨ ∃ m r, (s.step k).1 = .rejected (.budgetExhausted m r))
  refused : ∀ p f, k.packet? = some p → (s.step k).1 = .rejected f →
    ∃ n, (s.step k).2.journal = n :: s.journal ∧
      (n.line.level = .debug ↔ ∃ m r, f = .budgetExhausted m r)
  charged : ∀ p, k.packet? = some p → (∀ f, (s.step k).1 ≠ .rejected f) →
    (s.step k).2.journal = s.journal
  returned : ∀ id, k.creditor? = some id → (s.step k).2.journal = s.journal

/-- The log of a run from `s` that is over at `t` agrees with the counters. -/
structure LogAgrees (s : Service) (ks : List Call) (t : Service) : Prop where
  errors : t.logged .error = t.counters.integrationErrors.toNat
  warnings : t.logged .warn = (s.history ks).countP Event.strays + (s.misses ks).length
  roomless : t.journal.countP (fun n => n.refuses && n.line.level = .debug) =
    t.counters.budgetExhausted.toNat
  calls : ∀ pre k post, ks = pre ++ k :: post → (s.run pre).2.Logs k

theorem level_refusal (s : Service) (id : ConnId) (what : Subject) (f : Fault) :
    (s.refusal id what f).line.level = .debug ↔ ∃ m r, f = .budgetExhausted m r := by
  cases f <;> simp [refusal, Notice.line, Notice.level]

variable {id : ConnId} {p : ConnId × Nat} {f : Fault}

theorem Reported.connection (h : s.Reported (.connect id) o ns) :
    ∃ n, ns = [n] ∧ (n.line.level = .debug ↔
      o = .done ∨ ∃ m r, o = .rejected (.budgetExhausted m r)) := by
  cases h with
  | connected => exact ⟨_, rfl, by simp [Notice.line, Notice.level]⟩
  | @refused _ id what f =>
    refine ⟨_, rfl, ?_⟩
    rw [level_refusal]
    simp
  | charged admits => cases admits
  | returned creditor => cases creditor

theorem Reported.refusal (h : s.Reported k (.rejected f) ns) (packet : k.packet? = some p) :
    ∃ n, ns = [n] ∧ (n.line.level = .debug ↔ ∃ m r, f = .budgetExhausted m r) := by
  cases h with
  | repeated => cases packet
  | refused => exact ⟨_, rfl, level_refusal ..⟩
  | charged admits => cases admits

theorem Reported.admission (h : s.Reported k o ns) (packet : k.packet? = some p)
    (admitted : ∀ f, o ≠ .rejected f) : ns = [] := by
  cases h with
  | refused => exact absurd rfl (admitted _)
  | charged | returned => rfl
  | taken | repeated | connected | closed | absent => cases packet

theorem Reported.silent (h : s.Reported k o ns) (creditor : k.creditor? = some id) : ns = [] := by
  cases h with
  | refused asked => cases k <;> cases creditor <;> cases asked
  | charged | returned => rfl
  | taken | repeated | connected | closed | absent => cases creditor

theorem logs (s : Service) (k : Call) : s.Logs k := by
  obtain ⟨ns, hr, hj⟩ := step_adds s k
  constructor
  · rintro id rfl
    obtain ⟨n, rfl, hn⟩ := hr.connection
    exact ⟨n, hj, hn⟩
  · intro p f packet hf
    rw [hf] at hr
    obtain ⟨n, rfl, hn⟩ := hr.refusal packet
    exact ⟨n, hj, hn⟩
  · intro p packet admitted
    obtain rfl := hr.admission packet admitted
    exact hj
  · intro id creditor
    obtain rfl := hr.silent creditor
    exact hj

theorem create_journal {limit : Int64} {al al' : Allocator} (h : create limit al = .ok (s, al')) :
    s.journal = [.constructed s.identity limit.toInt.toNat] := by
  unfold create at h
  split at h
  · cases h
  · cases h
    rfl

/-- After any calls, those before a host has taken the service up among them, the log agrees with
the counters: as many errors as calls that have broken the order, as many warnings as packets of
unknown connections and closes without an entry, and as many debug lines of refusals as refusals for
want of room. A call for a connection logs one line and so does a refused packet, for debugging if
there was no fault or no room; a packet that is admitted and a return log nothing. -/
theorem log_agrees_with_counters {limit : Int64} {al al' : Allocator}
    (h : create limit al = .ok (s₀, al')) (ks : List Call) (few : ks.length < UInt64.size) :
    s₀.LogAgrees ks (s₀.run ks).2 := by
  have hle : ∀ q, (s₀.history ks).countP q < UInt64.size := by
    intro q
    have hq := List.countP_le_length (p := q) (l := s₀.history ks)
    rw [length_history] at hq
    omega
  obtain ⟨ns, hj, herrors, hwarnings, hroomless⟩ := run_adds s₀ ks
  rw [create_journal h] at hj
  have hnew : s₀.counters.integrationErrors = 0 ∧ s₀.counters.budgetExhausted = 0 := by
    rw [counters, (create_eq h).2]
    exact ⟨rfl, rfl⟩
  obtain ⟨hbreaks, hoverflows⟩ := classified_run hnew ks
  -- The line of the construction is of none of the kinds that are counted.
  have hlines : ∀ q : Notice → Bool, q (.constructed s₀.identity limit.toInt.toNat) = false →
      (s₀.run ks).2.journal.countP q = ns.countP q := by
    intro q hq
    rw [hj, List.countP_append, List.countP_singleton, hq]
    rfl
  refine ⟨?_, ?_, ?_, fun pre k post _ => logs _ k⟩
  · rw [logged, List.countP_map, hlines _ rfl, hbreaks, UInt64.toNat_ofNat_of_lt' (hle _)]
    exact herrors
  · rw [logged, List.countP_map, hlines _ rfl]
    exact hwarnings
  · rw [hlines _ rfl, hoverflows, UInt64.toNat_ofNat_of_lt' (hle _)]
    exact hroomless

/-- A run with a rejection of every kind and a close that finds no entry. -/
theorem log_agrees_with_counters_of_every_rejection :
    ∃ s al' ks, create 100 {} = .ok (s, al') ∧ s.LogAgrees ks (s.run ks).2 ∧
      (s.run ks).2.logged .error = 4 ∧ (s.run ks).2.logged .warn = 2 ∧
      s.misses ks = [⟨7⟩] ∧ (s.run ks).2.counters.budgetExhausted = 2 := by
  have h : create 100 {} = .ok (_, _) := rfl
  exact ⟨_, _, [.connect ⟨7⟩, .charge ⟨7⟩ 5, .init ⟨"host", ⟨10, 0⟩⟩, .init ⟨"other", {}⟩,
    .connect ⟨7⟩, .connect ⟨7⟩, .lease ⟨7⟩ 30, .receive ⟨7⟩ 90, .receive ⟨8⟩ 1, .close ⟨7⟩,
    .close ⟨7⟩, .drop ⟨⟨1⟩, ⟨7⟩, 1, 30⟩, .connect ⟨7⟩, .charge ⟨7⟩ 85, .connect ⟨8⟩,
    .release ⟨7⟩ 85], h, log_agrees_with_counters h _ (by decide), by decide, by decide, by decide,
    by decide⟩

end Service

end PacketBudget
