import PacketBudget.Proofs.Holdings
import PacketBudget.Proofs.Leases
import PacketBudget.Proofs.Locality

/-!
A service belongs to the first host that takes it up. Until then it refuses every connection and
every packet and holds nothing. From then on its name and its policy are those of that host, which
every entry keeps to, and another host changes nothing but a counter.
-/

namespace PacketBudget

/-- The host that a call would have take the service up. -/
def Call.host? : Call → Option HostContext
  | .init h => some h
  | _ => none

namespace Accounts

variable {host : Option HostContext} {a a' : Accounts} {k : Call} {o : Outcome} {c : HostContext}

/-- A registration is opened at the price of the host there is, and keeps its price. -/
theorem Move.overhead (h : Move host a k o a') (taken : host = some c)
    (hp : ∀ id e, a.table.get? id = some e → e.overhead = c.policy.overhead) {id : ConnId}
    {e : Entry} (found : a'.table.get? id = some e) : e.overhead = c.policy.overhead := by
  rcases h.origin found with ⟨d, hd, hc⟩ | ⟨_, _, _, c', hc', rfl⟩
  · rw [hc.overhead_eq]
    exact hp id d hd
  · rw [taken] at hc'
    cases hc'
    rfl

end Accounts

namespace Service

variable {s s₀ : Service} {c : HostContext}

/-- A host stays once there is one. -/
theorem host_step_eq (s : Service) (k : Call) : (s.step k).2.host = s.host.or k.host? := by
  rcases host_step s k with hh | ⟨hn, h, rfl, hs⟩
  · rw [hh]
    cases k with
    | init h =>
      cases hs : s.host with
      | none => simp [step, init, hs, outcome, note] at hh
      | some c => rfl
    | connect | charge | receive | lease | refund | drop | release | close =>
      exact Option.or_none.symm
  · rw [hs, hn]
    rfl

theorem host_of_conn? {k : Call} {id : ConnId} (hk : k.conn? = some id) :
    (s.step k).2.host = s.host := by
  rw [host_step_eq]
  cases k with
  | init => cases hk
  | connect | charge | receive | lease | refund | drop | release | close => exact Option.or_none

theorem host_run (s : Service) (ks : List Call) :
    (s.run ks).2.host = s.host.or (ks.findSome? Call.host?) := by
  induction ks generalizing s with
  | nil => exact Option.or_none.symm
  | cons k ks ih =>
    rw [run_cons, ih, host_step_eq, Option.or_assoc, List.findSome?_cons]
    cases k.host? <;> rfl

theorem identity_step (s : Service) (k : Call) : (s.step k).2.identity = s.identity := by
  cases k with
  | init h => cases hh : s.host <;> simp only [step, init, hh, outcome, note]
  | connect conn =>
    cases hh : s.host with
    | none => simp only [step, connect, hh, outcome, tooEarly, note]
    | some c =>
      rcases hr : s.ledger.register conn c.policy.overhead with ⟨_ | _, l⟩ <;>
        simp only [step, connect, hh, hr, outcome, note]
  | charge conn n | receive conn n | lease conn n =>
    rw [step_packet rfl, outcome_service]
    exact identity_charge ..
  | refund c | drop l | release conn n => rfl
  | close conn => rcases hr : s.ledger.close conn with ⟨_ | _, l⟩ <;> simp only [step, close, hr, note]

/-- Every entry costs what the host has set. -/
def Priced (s : Service) : Prop :=
  ∀ c, s.host = some c → ∀ id e, s.entry? id = some e → e.overhead = c.policy.overhead

theorem priced_step (hw : s.WithinCap) (hp : s.Priced) (k : Call) : (s.step k).2.Priced := by
  intro c hc id e he
  have hm := step_move s k
  cases hh : s.host with
  | none =>
    -- The host may be new, but then there is no entry that it finds.
    rcases hm.origin he with ⟨d, hd, _⟩ | ⟨_, _, _, _, hs, _⟩
    · have hn : s.ledger.accounts.table.get? id = none := hw.early hh id
      rw [hn] at hd
      cases hd
    · rw [hh] at hs
      cases hs
  | some c' =>
    rw [host_step_eq, hh] at hc
    cases hc
    exact hm.overhead hh (hp c hh) he

theorem priced_create {limit : Int64} {al al' : Allocator} (h : create limit al = .ok (s, al')) :
    s.Priced := by
  intro c hc
  rw [(create_eq h).1] at hc
  cases hc

theorem priced_run (hw : s.WithinCap) (hp : s.Priced) (ks : List Call) : (s.run ks).2.Priced :=
  (run_keeps (P := fun t => t.WithinCap ∧ t.Priced)
    (fun _ k ht => ⟨withinCap_step ht.1 k, priced_step ht.1 ht.2 k⟩) ⟨hw, hp⟩ ks).2

/-- No host has taken the service up. -/
structure Idle (s : Service) : Prop where
  name : s.name = "uninitialized"
  init : ∀ h, s.step (.init h) = (.done,
    { s with host := some h, journal := .initialized s.identity h s.ceiling :: s.journal })
  connect : ∀ id, (s.step (.connect id)).1 = .rejected .notInitialized
  packet : ∀ k p, k.packet? = some p → (s.step k).1 = .rejected .notInitialized
  registered : s.registered = []
  used : s.used = 0

/-- The service is in the hands of the host `c`. -/
structure Serves (s : Service) (c : HostContext) : Prop where
  host : s.host = some c
  name : s.name = c.name
  /-- Another host is turned away, and nothing but a counter and the log shows it. -/
  init : ∀ h, s.step (.init h) = (.rejected .alreadyInitialized,
    { s with
      ledger.counters.integrationErrors := s.counters.integrationErrors + 1
      journal := .initRepeated s.identity h.name c.name :: s.journal })
  overhead : ∀ id e, s.entry? id = some e → e.overhead = c.policy.overhead
  cap : c.policy.cap ≠ 0 → ∀ id e, s.entry? id = some e → e.packetBytes ≤ c.policy.cap
  inFlight : ∀ id e, s.entry? id = some e → e.inFlight ≤ e.total

theorem charge_early (hh : s.host = none) (conn : ConnId) (n : Nat) :
    (s.charge conn n).1 = .error .notInitialized := by
  simp only [charge, hh]

theorem idle (hh : s.host = none) (hb : s.ledger.accounts.Balanced)
    (he : ∀ id, s.entry? id = none) : s.Idle where
  name := by rw [name, hh]; rfl
  init h := by simp only [step, Service.init, hh, outcome, note]
  connect id := by simp only [step, Service.connect, hh, outcome]
  packet k p hk := by
    have hc := charge_early hh
    cases k with
    | charge conn n | receive conn n | lease conn n =>
      rcases hr : s.charge conn n with ⟨r, t⟩
      have hr' := hc conn n
      rw [hr] at hr'
      subst hr'
      simp only [step, lease, hr, outcome]
    | init | connect | refund | drop | release | close => cases hk
  registered := registered_eq_nil hb he
  used := used_of_empty hb he

theorem serves (hh : s.host = some c) (hp : s.Priced) (hw : s.WithinCap)
    (ht : ∀ id e, s.entry? id = some e → e.inFlight ≤ e.total) : s.Serves c where
  host := hh
  name := by rw [name, hh]; rfl
  init h := by
    simp only [step, Service.init, hh, outcome]
    rfl
  overhead := hp c hh
  cap hz := (hw.cap c hh).resolve_left hz
  inFlight := ht

/-- After any calls the service is idle as long as none of them has come from a host that takes it
up, and else serves the first that has. -/
theorem first_host_rules {limit : Int64} {al al' : Allocator} (h : create limit al = .ok (s₀, al'))
    (ks : List Call) :
    (ks.findSome? Call.host? = none → (s₀.run ks).2.Idle) ∧
      ∀ c, ks.findSome? Call.host? = some c → (s₀.run ks).2.Serves c := by
  have hhost := host_run s₀ ks
  rw [(create_eq h).1, Option.none_or] at hhost
  have hw := withinCap_run (withinCap_create h) ks
  refine ⟨fun hn => ?_, fun c hc => ?_⟩
  · have hh := hhost.trans hn
    exact idle hh (balanced_run (balanced_create h) ks) (hw.early hh)
  · refine serves (hhost.trans hc) (priced_run (withinCap_create h) (priced_create h) ks) hw ?_
    intro id e he
    exact (tallies_run h ks he).1

/-- A connection and a packet come too early, and a second host too late. -/
theorem first_host_rules_with_second_host :
    ∃ s al' ks, create 100 {} = .ok (s, al') ∧ (s.run (ks.take 2)).2.Idle ∧
      (s.run ks).2.Serves ⟨"host", ⟨10, 40⟩⟩ ∧
      (s.run ks).1 = [.rejected .notInitialized, .rejected .notInitialized, .done, .done,
        .charged ⟨⟨7⟩, 1, 30⟩, .rejected .alreadyInitialized, .rejected (.budgetExhausted 20 10),
        .done] := by
  have h : create 100 {} = .ok (_, _) := rfl
  refine ⟨_, _, [.connect ⟨7⟩, .lease ⟨7⟩ 5, .init ⟨"host", ⟨10, 40⟩⟩, .connect ⟨7⟩,
    .charge ⟨7⟩ 30, .init ⟨"other", ⟨5, 0⟩⟩, .receive ⟨7⟩ 20, .connect ⟨8⟩], h, ?_, ?_, by decide⟩
  · exact (first_host_rules h _).1 (by decide)
  · exact (first_host_rules h _).2 _ (by decide)

end Service

end PacketBudget
