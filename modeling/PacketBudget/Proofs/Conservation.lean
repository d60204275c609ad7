import PacketBudget.Proofs.Balance

/-!
No byte of a registration is lost or given back twice. What is taken on it while it lasts comes
back, in pieces of whatever size and by whatever call, and its close gives back the rest.
-/

namespace PacketBudget

/-- The packet bytes that an event admits on `id`. -/
def Event.admittedOn (id : ConnId) (v : Event) : Nat :=
  match v.outcome with
  | .rejected _ => 0
  | _ =>
    match v.call.packet? with
    | some (conn, n) => if conn = id then n else 0
    | none => 0

/-- The bytes that an event gives back on `id`, whose registration goes on. -/
def Event.returnedOn (id : ConnId) (v : Event) : Nat :=
  match v.outcome with
  | .freed n => if v.call.creditor? = some id then n else 0
  | _ => 0

/-- The packet bytes that a history admits on `id`. -/
def admittedOn (id : ConnId) (es : List Event) : Nat := total (es.map (Event.admittedOn id))

/-- The bytes that a history gives back on `id`, closes apart. -/
def returnedOn (id : ConnId) (es : List Event) : Nat := total (es.map (Event.returnedOn id))

section Events

variable {id : ConnId} {k : Call} {o : Outcome} {used n : Nat} {d e : Entry}

theorem admittedOn_of_none (h : k.packet? = none) : Event.admittedOn id ⟨k, o⟩ = 0 := by
  simp only [Event.admittedOn, h]
  split
  · rfl
  · rfl

theorem admittedOn_of_admits {c : Charge} (h : Admits c k o) :
    Event.admittedOn id ⟨k, o⟩ = if c.conn = id then c.bytes else 0 := by
  cases h <;> rfl

theorem returnedOn_freed (h : k.creditor? = some id) : Event.returnedOn id ⟨k, .freed n⟩ = n :=
  if_pos h

theorem returnedOn_of_admits {c : Charge} (h : Admits c k o) : Event.returnedOn id ⟨k, o⟩ = 0 := by
  cases h <;> rfl

/-- The bytes of an entry change by what the call admits and what it gives back. -/
theorem change_flow (hc : d.Change id used k o e) (held : d.packetBytes ≤ used)
    (admission : ∀ p, k.packet? = some p → (∃ f, o = .rejected f) ∨ ∃ c, Admits c k o) :
    e.packetBytes + Event.returnedOn id ⟨k, o⟩ = d.packetBytes + Event.admittedOn id ⟨k, o⟩ := by
  cases hc with
  | kept admits returned nothing =>
    have hr : Event.returnedOn id ⟨k, o⟩ = 0 := by
      cases o with
      | freed n =>
        by_cases hk : k.creditor? = some id
        · rw [returnedOn_freed hk]
          exact nothing hk n rfl
        · exact if_neg hk
      | done | charged | leased | rejected => rfl
    have ha : Event.admittedOn id ⟨k, o⟩ = 0 := by
      cases hp : k.packet? with
      | none => exact admittedOn_of_none hp
      | some p =>
        rcases admission p hp with ⟨f, rfl⟩ | ⟨c, hm⟩
        · rfl
        · rw [admittedOn_of_admits hm, if_neg (admits c hm)]
    rw [hr, ha]
  | charged admits =>
    rw [returnedOn_of_admits admits, admittedOn_of_admits admits, if_pos rfl]
    rfl
  | refunded returned =>
    rw [returnedOn_freed (Call.creditor?_of_returned? returned),
      admittedOn_of_none (Call.packet?_of_returned? returned)]
    simp only [Entry.credit]
    omega
  | released held =>
    rw [returnedOn_freed rfl, admittedOn_of_none rfl]
    simp only [Entry.credit]
    omega

end Events

namespace Service

variable {s s₀ : Service} {id : ConnId} {e : Entry} {k : Call}

/-- A call on the table leaves a registration that it does not close in its place, with its
overhead, and moves its bytes by what it admits and gives back. -/
theorem step_flow (hb : s.ledger.accounts.Balanced) (he : s.entry? id = some e)
    (hk : k ≠ .close id) :
    ∃ e', entry? (s.step k).2 id = some e' ∧ e'.overhead = e.overhead ∧
      e'.packetBytes + Event.returnedOn id ⟨k, (s.step k).1⟩ =
        e.packetBytes + Event.admittedOn id ⟨k, (s.step k).1⟩ := by
  have hm := step_move s k
  rcases hm.of_present he with ⟨hc, _⟩ | ⟨_, e', he', hc⟩
  · exact absurd hc hk
  · refine ⟨e', he', hc.overhead_eq, change_flow hc (hb.packetBytes_le he) ?_⟩
    intro p hp
    rcases hm.admission with ⟨_, hn⟩ | ⟨_, _, _, _, _, admits, _⟩
    · exact Or.inl (hn p hp)
    · exact Or.inr ⟨_, admits⟩

theorem run_flow (hb : s.ledger.accounts.Balanced) (he : s.entry? id = some e) {ks : List Call}
    (stays : .close id ∉ ks) :
    ∃ e', entry? (s.run ks).2 id = some e' ∧ e'.overhead = e.overhead ∧
      e'.packetBytes + returnedOn id (s.history ks) =
        e.packetBytes + admittedOn id (s.history ks) := by
  induction ks generalizing s e with
  | nil => exact ⟨e, he, rfl, rfl⟩
  | cons k ks ih =>
    have hk : k ≠ .close id := fun hk => stays (hk ▸ List.mem_cons_self)
    obtain ⟨d, hd, hov, hflow⟩ := step_flow hb he hk
    obtain ⟨e', he', hov', hflow'⟩ := ih ((step_move s k).balanced hb) hd
      fun hm => stays (List.mem_cons_of_mem _ hm)
    refine ⟨e', he', hov'.trans hov, ?_⟩
    simp only [history, returnedOn, admittedOn, List.map_cons, total] at hflow' ⊢
    omega

/-- A registration that is opened starts with its overhead and no packets. -/
theorem entry_of_connect {r : Service} (h : s.step (.connect id) = (.done, r)) :
    ∃ c x, s.host = some c ∧ r.entry? id = some { epoch := x, overhead := c.policy.overhead } := by
  have hm := step_move s (.connect id)
  rw [h] at hm
  generalize ha : r.ledger.accounts = a at hm
  cases hm with
  | @opened c _ taken fresh fits =>
    refine ⟨c, s.ledger.accounts.nextEpoch, taken, ?_⟩
    have hg := Accounts.get?_opened s.ledger.accounts id c.policy.overhead id
    rw [if_pos rfl, ← ha] at hg
    exact hg
  | charged taken found cap fits admits => cases admits

/-- While a registration lasts, its overhead and all that was admitted on it are what was given
back on it and what it holds; its close gives back all that is left. -/
theorem registration_conserves_bytes {limit : Int64} {al al' : Allocator}
    (h : create limit al = .ok (s₀, al')) (js : List Call)
    (opened : (s₀.run js).2.step (.connect id) = (.done, s)) (ks : List Call)
    (stays : .close id ∉ ks) :
    ∃ c e, (s₀.run js).2.host = some c ∧ entry? (s.run ks).2 id = some e ∧
      e.overhead = c.policy.overhead ∧
      e.overhead + admittedOn id (s.history ks) =
        returnedOn id (s.history ks) + (e.overhead + e.packetBytes) ∧
      ∃ n, ((s.run ks).2.step (.close id)).1 = .freed n ∧
        e.overhead + admittedOn id (s.history ks) = returnedOn id (s.history ks) + n := by
  have hjs := balanced_run (balanced_create h) js
  have hb : s.ledger.accounts.Balanced := by
    have hs := (step_move (s₀.run js).2 (.connect id)).balanced hjs
    rwa [opened] at hs
  obtain ⟨c, x, hc, hx⟩ := entry_of_connect opened
  obtain ⟨e, he, hov, hflow⟩ := run_flow hb hx stays
  rw [Nat.zero_add] at hflow
  refine ⟨c, e, hc, he, hov, ?_, e.charged, close_outcome (balanced_run hb ks) he, ?_⟩
  · omega
  · rw [Entry.charged]
    omega

/-- Two packets that come back in other pieces, one of them once more than it should. -/
theorem registration_conserves_bytes_of_merged_returns :
    ∃ s₀ al' s ks, create 100 {} = .ok (s₀, al') ∧
      (s₀.run [.init ⟨"host", ⟨10, 0⟩⟩]).2.step (.connect ⟨7⟩) = (.done, s) ∧
      .close ⟨7⟩ ∉ ks ∧ admittedOn ⟨7⟩ (s.history ks) = 58 ∧ returnedOn ⟨7⟩ (s.history ks) = 50 ∧
      ((s.run ks).2.step (.close ⟨7⟩)).1 = .freed 18 := by
  have h : create 100 {} = .ok (_, _) := rfl
  obtain ⟨c, e, hc, _, hov, _, n, hn, hsum⟩ := registration_conserves_bytes h
    [.init ⟨"host", ⟨10, 0⟩⟩] (show Service.step _ (.connect ⟨7⟩) = (.done, _) from rfl)
    [.charge ⟨7⟩ 30, .receive ⟨7⟩ 20, .release ⟨7⟩ 25, .refund ⟨⟨7⟩, 1, 30⟩,
      .refund ⟨⟨7⟩, 1, 30⟩, .lease ⟨7⟩ 8] (by decide)
  cases hc
  rw [hov] at hsum
  have hsum : 10 + 58 = 50 + n := hsum
  have hn18 : n = 18 := by omega
  refine ⟨_, _, _, _, h, rfl, ?_, ?_, ?_, hn18 ▸ hn⟩
  · decide
  · decide
  · decide

end Service

end PacketBudget
