import PacketBudget.Frame.Assembly
import PacketBudget.Proofs.Registration
import PacketBudget.Proofs.Table

/-!
Leases taken and let go. A packet that fits is charged to its connection for as long as its lease
lives; when the lease is gone the accounts are as they were, but for the count of packets. A packet
that does not fit changes nothing. No connection of a service is past its cap.
-/

namespace PacketBudget

namespace Accounts

variable {a : Accounts} {id : ConnId} {e : Entry}

/-- With `k` more packets of `id` that have come and gone; its entry was `e`. -/
def passed (a : Accounts) (id : ConnId) (e : Entry) (k : Nat) : Accounts :=
  { a with table := a.table.put id { e with total := e.total + k } }

theorem get?_passed (a : Accounts) (id : ConnId) (e : Entry) (k : Nat) (j : ConnId) :
    (a.passed id e k).table.get? j =
      if j = id then some { e with total := e.total + k } else a.table.get? j :=
  Table.get?_put ..

theorem passed_zero (found : a.table.get? id = some e) : a.passed id e 0 = a := by
  rw [passed, Nat.add_zero, Table.put_of_get? found]

theorem passed_passed (a : Accounts) (id : ConnId) (e : Entry) (j k : Nat) :
    (a.passed id e j).passed id { e with total := e.total + j } k = a.passed id e (j + k) := by
  simp only [passed, Table.put_put, Nat.add_assoc]

/-- A charge that is returned at once leaves nothing but its count. -/
theorem refund?_charged (a : Accounts) (id : ConnId) (e : Entry) (n : Nat) :
    (a.charged id e n).refund? ⟨id, e.epoch, n⟩ = some (n, a.passed id e 1) := by
  have hg : (a.charged id e n).table.get? id = some (e.charge n) := by
    rw [get?_charged, if_pos rfl]
  have hm : min n (e.charge n).packetBytes = n := Nat.min_eq_left (Nat.le_add_left _ _)
  have he : (e.charge n).credit n = { e with total := e.total + 1 } := by
    simp only [Entry.charge, Entry.credit, Nat.add_sub_cancel]
  have hb : Budget.release { a.budget with used := a.budget.used + n } n = (n, a.budget) := by
    rw [Budget.release_of_le (Nat.le_add_left n _)]
    simp only [Nat.add_sub_cancel]
  simp only [refund?, hg]
  rw [if_pos (show (e.charge n).epoch = e.epoch from rfl), hm]
  simp only [credit, charged, passed, he, Table.put_put, hb]

end Accounts

/-- A frame with `n` bytes of payload is taken in, as things stand in `s`. -/
structure Acceptable (maxFrame : Nat) (s : Service) (host : HostContext) (e : Entry) (n : Nat) :
    Prop where
  bounded : n ≤ maxFrame
  cap : host.policy.cap = 0 ∨ e.packetBytes + n ≤ host.policy.cap
  room : s.used + n ≤ s.ceiling

instance (maxFrame : Nat) (s : Service) (host : HostContext) (e : Entry) (n : Nat) :
    Decidable (Acceptable maxFrame s host e n) :=
  decidable_of_iff
    (n ≤ maxFrame ∧ (host.policy.cap = 0 ∨ e.packetBytes + n ≤ host.policy.cap) ∧
      s.used + n ≤ s.ceiling)
    ⟨fun ⟨hb, hc, hr⟩ => ⟨hb, hc, hr⟩, fun h => ⟨h.bounded, h.cap, h.room⟩⟩

namespace Service

/-- `t` is as `s`, with `k` more packets of `conn` that have come and gone. -/
structure Passed (s : Service) (conn : ConnId) (e : Entry) (k : Nat) (t : Service) : Prop where
  host : t.host = s.host
  accounts : t.ledger.accounts = s.ledger.accounts.passed conn e k

/-- `t` is as `s`, with `k` more packets of `conn` that have come and gone, and one of `n` bytes
that is there. -/
structure Holds (s : Service) (conn : ConnId) (e : Entry) (k n : Nat) (t : Service) : Prop where
  host : t.host = s.host
  accounts : t.ledger.accounts =
    (s.ledger.accounts.passed conn e k).charged conn { e with total := e.total + k } n

variable {s t : Service} {host : HostContext} {conn : ConnId} {e : Entry} {k n maxFrame : Nat}

theorem passed_self (found : s.entry? conn = some e) : s.Passed conn e 0 s :=
  ⟨rfl, (Accounts.passed_zero found).symm⟩

theorem lease_of_charge {c : Charge} {a : Accounts} (taken : s.host = some host)
    (hc : s.ledger.accounts.charge conn n host.policy.cap = .ok (c, a)) :
    ∃ t, s.lease conn n = (.ok ⟨s.identity, c⟩, t) ∧ t.host = s.host ∧ t.ledger.accounts = a ∧
      t.journal = s.journal := by
  simp only [lease, charge, taken, Ledger.charge, hc]
  exact ⟨_, rfl, rfl, rfl, rfl⟩

theorem lease_of_refusal {f : Fault} (taken : s.host = some host)
    (hc : s.ledger.accounts.charge conn n host.policy.cap = .error f) :
    ∃ t, s.lease conn n = (.error f, t) ∧ t.host = s.host ∧
      t.ledger.accounts = s.ledger.accounts ∧
      ∃ u c, t.journal = .refused s.identity conn .packet f u c :: s.journal := by
  simp only [lease, charge, taken, Ledger.charge, hc]
  exact ⟨_, rfl, rfl, rfl, _, _, rfl⟩

namespace Passed

theorem found (h : s.Passed conn e k t) :
    t.entry? conn = some { e with total := e.total + k } := by
  rw [Service.entry?, Ledger.entry?, Ledger.table, h.accounts, Accounts.get?_passed, if_pos rfl]

theorem lease (h : s.Passed conn e k t) (taken : s.host = some host)
    (ha : Acceptable maxFrame s host e n) :
    ∃ u, t.lease conn n = (.ok ⟨t.identity, ⟨conn, e.epoch, n⟩⟩, u) ∧ s.Holds conn e k n u := by
  have hfits : Entry.fits { e with total := e.total + k } host.policy.cap n = true := by
    rcases ha.cap with hc | hc
    · simp [Entry.fits, hc]
    · have : n ≤ host.policy.cap - e.packetBytes := by omega
      simp [Entry.fits, this]
  have hroom : t.ledger.accounts.budget.used + n ≤ t.ledger.accounts.budget.ceiling := by
    rw [h.accounts]
    exact ha.room
  obtain ⟨u, hu, hh, hl, -⟩ := lease_of_charge (h.host.trans taken)
    (Accounts.charge_eq_ok_iff.mpr ⟨_, h.found, hfits, hroom, rfl, rfl⟩)
  refine ⟨u, hu, hh.trans h.host, ?_⟩
  rw [hl, h.accounts]
  rfl

/-- A packet that does not fit is refused with the room there is. -/
theorem refusal (h : s.Passed conn e k t) (taken : s.host = some host)
    (hcap : host.policy.cap = 0 ∨ e.packetBytes ≤ host.policy.cap) (bounded : n ≤ maxFrame)
    (ha : ¬ Acceptable maxFrame s host e n) :
    ∃ u, t.lease conn n =
        (.error (.budgetExhausted n (s.ledger.accounts.room host.policy.cap e)), u) ∧
      s.Passed conn e k u := by
  have hroom : t.ledger.accounts.room host.policy.cap { e with total := e.total + k } =
      s.ledger.accounts.room host.policy.cap e := by
    rw [h.accounts]
    rfl
  have hc : t.ledger.accounts.charge conn n host.policy.cap =
      .error (.budgetExhausted n (s.ledger.accounts.room host.policy.cap e)) := by
    have he : t.ledger.accounts.table.get? conn = some { e with total := e.total + k } := h.found
    simp only [Accounts.charge, he, hroom]
    split
    · rfl
    · rename_i b hb
      exfalso
      rw [Option.ite_none_right_eq_some, Budget.reserve?_eq_some_iff] at hb
      obtain ⟨hf, hr, -⟩ := hb
      rw [h.accounts] at hr
      refine ha ⟨bounded, ?_, hr⟩
      simp only [Entry.fits, decide_eq_true_eq] at hf
      omega
  obtain ⟨u, hu, hh, hl, -⟩ := lease_of_refusal (h.host.trans taken) hc
  exact ⟨u, hu, hh.trans h.host, hl.trans h.accounts⟩

end Passed

namespace Holds

theorem note (h : s.Holds conn e k n t) (m : Notice) : s.Holds conn e k n (t.note m) :=
  ⟨h.host, h.accounts⟩

theorem found (h : s.Holds conn e k n t) :
    t.entry? conn = some (Entry.charge { e with total := e.total + k } n) := by
  rw [Service.entry?, Ledger.entry?, Ledger.table, h.accounts, Accounts.get?_charged, if_pos rfl]

theorem used_eq (h : s.Holds conn e k n t) : t.used = s.used + n := by
  rw [used, Ledger.used, h.accounts]
  rfl

/-- When the packet is gone it has passed. -/
theorem dropLease (h : s.Holds conn e k n t) (holder : Identity) :
    s.Passed conn e (k + 1) (t.dropLease ⟨holder, ⟨conn, e.epoch, n⟩⟩) := by
  have hr : t.ledger.accounts.refund? ⟨conn, e.epoch, n⟩ =
      some (n, s.ledger.accounts.passed conn e (k + 1)) := by
    rw [h.accounts, ← Accounts.passed_passed]
    exact Accounts.refund?_charged _ conn { e with total := e.total + k } n
  simp only [Service.dropLease, refund, Ledger.refund, hr, Ledger.book]
  exact ⟨h.host, rfl⟩

end Holds

end Service

namespace Accounts

variable {host : Option HostContext} {a a' : Accounts} {k : Call} {o : Outcome} {c : HostContext}

/-- No entry is past the cap. -/
def Within (a : Accounts) (cap : Nat) : Prop :=
  cap = 0 ∨ ∀ id e, a.table.get? id = some e → e.packetBytes ≤ cap

theorem Move.within (h : Move host a k o a') (taken : host = some c) (hw : a.Within c.policy.cap) :
    a'.Within c.policy.cap := by
  by_cases hz : c.policy.cap = 0
  · exact Or.inl hz
  have hw := hw.resolve_left hz
  refine Or.inr fun j x hx => ?_
  cases h with
  | init | refused | stale | spared | absent => exact hw j x hx
  | opened =>
    rw [get?_opened] at hx
    split at hx
    · cases hx
      exact Nat.zero_le _
    · exact hw j x hx
  | @charged c' _ _ id n e taken' found cap fits admits =>
    obtain rfl : c' = c := Option.some.inj (taken'.symm.trans taken)
    rw [get?_charged] at hx
    split at hx
    · cases hx
      have he := hw id e found
      simp only [Entry.fits, decide_eq_true_eq] at cap
      simp only [Entry.charge]
      omega
    · exact hw j x hx
  | refunded _ found | released found =>
    rw [get?_credit] at hx
    split at hx
    · cases hx
      exact Nat.le_trans (Nat.sub_le _ _) (hw _ _ found)
    · exact hw j x hx
  | closed =>
    rw [get?_closed] at hx
    split at hx
    · cases hx
    · exact hw j x hx

end Accounts

namespace Service

variable {s : Service}

theorem host_charge (s : Service) (conn : ConnId) (n : Nat) : (s.charge conn n).2.host = s.host := by
  cases hh : s.host with
  | none => simp only [charge, hh, tooEarly, note]
  | some c =>
    rcases hr : s.ledger.charge conn n c.policy.cap with ⟨_ | _, l⟩ <;>
      simp only [charge, hh, hr, note]

theorem lease_service (s : Service) (conn : ConnId) (n : Nat) :
    (s.lease conn n).2 = (s.charge conn n).2 := by
  rw [lease]
  rcases s.charge conn n with ⟨_ | _, t⟩ <;> rfl

theorem outcome_service {α : Type} (f : α → Outcome) (r : Except Fault α × Service) :
    (outcome f r).2 = r.2 := by
  rcases r with ⟨_ | _, t⟩ <;> rfl

/-- Only the first host is taken. -/
theorem host_step (s : Service) (k : Call) :
    (s.step k).2.host = s.host ∨ s.host = none ∧ ∃ h, k = .init h ∧ (s.step k).2.host = some h := by
  cases k with
  | init h =>
    cases hh : s.host with
    | none => exact Or.inr ⟨rfl, h, rfl, by simp only [step, init, hh, outcome, note]⟩
    | some c => exact Or.inl (by simp only [step, init, hh, outcome, note])
  | connect conn =>
    left
    cases hh : s.host with
    | none => simp only [step, connect, hh, outcome, tooEarly, note]
    | some c =>
      rcases hr : s.ledger.register conn c.policy.overhead with ⟨_ | _, l⟩ <;>
        simp only [step, connect, hh, hr, outcome, note]
  | charge conn n | receive conn n =>
    left
    rw [step, outcome_service]
    exact host_charge ..
  | lease conn n =>
    left
    rw [step, outcome_service, lease_service]
    exact host_charge ..
  | refund c | drop l | release conn n => exact Or.inl rfl
  | close conn =>
    left
    rcases hr : s.ledger.close conn with ⟨_ | _, l⟩ <;> simp only [step, close, hr, note]

/-- No connection is past the cap of the host, and without a host there are no connections. -/
structure WithinCap (s : Service) : Prop where
  early : s.host = none → ∀ id, s.entry? id = none
  cap : ∀ h, s.host = some h → s.ledger.accounts.Within h.policy.cap

theorem withinCap_create {limit : Int64} {al al' : Allocator} (h : create limit al = .ok (s, al')) :
    s.WithinCap := by
  refine ⟨fun _ => create_no_entry h, fun c hc => ?_⟩
  rw [(create_eq h).1] at hc
  cases hc

theorem withinCap_step (h : s.WithinCap) (k : Call) : (s.step k).2.WithinCap := by
  have hm := step_move s k
  have hstay : s.host = none → ∀ id, entry? (s.step k).2 id = none := by
    intro hn id
    rcases hm.of_absent (h.early hn id) with hg | ⟨c, hc, -⟩
    · exact hg
    · rw [hn] at hc
      cases hc
  rcases host_step s k with hh | ⟨hn, c, -, hc⟩
  · refine ⟨fun hn => hstay (hh ▸ hn), fun c hc => ?_⟩
    rw [hh] at hc
    exact hm.within hc (h.cap c hc)
  · refine ⟨fun he => ?_, fun d _ => Or.inr fun id e he => ?_⟩
    · rw [hc] at he
      cases he
    · have hg : (s.step k).2.ledger.accounts.table.get? id = none := hstay hn id
      rw [hg] at he
      cases he

theorem withinCap_run (h : s.WithinCap) (ks : List Call) : (s.run ks).2.WithinCap :=
  run_keeps (P := WithinCap) (fun _ k hs => withinCap_step hs k) h ks

end Service

end PacketBudget
