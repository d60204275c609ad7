import PacketBudget.Proofs.Registration
import PacketBudget.Proofs.Table

/-!
The books of a service balance: the bytes in use are those of the registered connections, and they
stay under the ceiling. So no sum of the accounting goes past the ceiling, and nothing is ever
released that is not there.
-/

namespace PacketBudget

namespace Accounts

/-- The bytes in use are what the entries hold, and fit under the ceiling. -/
structure Balanced (a : Accounts) : Prop where
  sound : a.table.Sound
  used_eq : a.budget.used = a.table.charged
  used_le : a.budget.used ≤ a.budget.ceiling

/-- The bytes in use are what the entries hold and `m` bytes besides, and fit under the ceiling. -/
structure Owes (a : Accounts) (m : Nat) : Prop where
  sound : a.table.Sound
  used_eq : a.budget.used = a.table.charged + m
  used_le : a.budget.used ≤ a.budget.ceiling

variable {host : Option HostContext} {a a' : Accounts} {k : Call} {o : Outcome}
variable {id : ConnId} {e : Entry} {m : Nat}

theorem balanced_iff_owes : a.Balanced ↔ a.Owes 0 :=
  ⟨fun h => ⟨h.sound, h.used_eq, h.used_le⟩, fun h => ⟨h.sound, h.used_eq, h.used_le⟩⟩

theorem balanced_new (ceiling : Nat) : Balanced { budget := { ceiling } } :=
  ⟨Table.sound_empty, (Table.sum_empty _).symm, Nat.zero_le _⟩

theorem Balanced.charged_le (h : a.Balanced) (he : a.table.get? id = some e) :
    e.charged ≤ a.budget.used := by
  rw [h.used_eq]
  exact Table.le_sum h.sound he Entry.charged

theorem Balanced.packetBytes_le (h : a.Balanced) (he : a.table.get? id = some e) :
    e.packetBytes ≤ a.budget.used :=
  Nat.le_trans (Nat.le_add_left _ _) (h.charged_le he)

theorem Owes.opened (h : a.Owes m) {n : Nat} (fresh : a.table.get? id = none)
    (fits : a.budget.used + n ≤ a.budget.ceiling) : (a.opened id n).Owes m := by
  refine ⟨h.sound.put id _, ?_, fits⟩
  have hs := Table.sum_put_new h.sound fresh { epoch := a.nextEpoch, overhead := n } Entry.charged
  have hu := h.used_eq
  simp only [Accounts.opened, Table.charged_eq_sum, hs, Entry.charged] at hu ⊢
  omega

theorem Owes.charged (h : a.Owes m) {n : Nat} (found : a.table.get? id = some e)
    (fits : a.budget.used + n ≤ a.budget.ceiling) : (a.charged id e n).Owes m := by
  refine ⟨h.sound.put id _, ?_, fits⟩
  have hs := Table.sum_put_old h.sound found (e.charge n) Entry.charged
  have hc := e.charged_charge n
  have hu := h.used_eq
  simp only [Accounts.charged, Table.charged_eq_sum] at hu ⊢
  omega

theorem Owes.credit (h : a.Owes m) {n : Nat} (found : a.table.get? id = some e)
    (held : n ≤ e.packetBytes) : (a.credit id e n).2.Owes m := by
  refine ⟨h.sound.put id _, ?_, Nat.le_trans (Nat.sub_le _ _) h.used_le⟩
  have hs := Table.sum_put_old h.sound found (e.credit n) Entry.charged
  have hc := Entry.charged_credit held
  have hu := h.used_eq
  simp only [Accounts.credit, Budget.release, Table.charged_eq_sum] at hu ⊢
  omega

theorem Owes.closed (h : a.Owes m) (found : a.table.get? id = some e) :
    (a.closed id e).Owes m := by
  refine ⟨h.sound.erase id, ?_, Nat.le_trans (Nat.sub_le _ _) h.used_le⟩
  have hs := Table.sum_erase h.sound found Entry.charged
  have hu := h.used_eq
  simp only [Accounts.closed, Table.charged_eq_sum] at hu ⊢
  omega

theorem Move.owes (h : Move host a k o a') (hb : a.Owes m) : a'.Owes m := by
  cases h with
  | init | refused | stale | spared | absent => exact hb
  | opened taken fresh fits => exact hb.opened fresh fits
  | charged taken found cap fits admits => exact hb.charged found fits
  | refunded returned found live => exact hb.credit found (Nat.min_le_right _ _)
  | released found held => exact hb.credit found (Nat.min_le_right _ _)
  | closed found => exact hb.closed found

theorem Move.balanced (h : Move host a k o a') (hb : a.Balanced) : a'.Balanced :=
  balanced_iff_owes.mpr (h.owes (balanced_iff_owes.mp hb))

theorem Move.ceiling (h : Move host a k o a') : a'.budget.ceiling = a.budget.ceiling := by
  cases h <;> rfl

end Accounts

namespace Service

variable {s s₀ : Service} {k : Call}

/-- The registered connections with their entries. -/
def registered (s : Service) : List (ConnId × Entry) := s.ledger.table.toList

/-- The bytes that a call asks of the budget. -/
def asked (s : Service) : Call → Nat
  | .connect _ => (s.host.map (·.policy.overhead)).getD 0
  | .charge _ n | .receive _ n | .lease _ n => n
  | _ => 0

/-- The bytes of `conn` that a charge still stands for, if it is not stale. -/
def owed (s : Service) (c : Charge) : Nat :=
  match s.entry? c.conn with
  | some e => if e.epoch = c.epoch then min c.bytes e.packetBytes else 0
  | none => 0

/-- The bytes that a call hands back to the budget. -/
def due (s : Service) : Call → Nat
  | .refund c => s.owed c
  | .drop l => s.owed l.charge
  | .release conn n =>
    match s.entry? conn with
    | some e => min n e.packetBytes
    | none => 0
  | .close conn =>
    match s.entry? conn with
    | some e => e.overhead + e.packetBytes
    | none => 0
  | _ => 0

theorem due_of_returned? {c : Charge} (h : k.returned? = some c) : s.due k = s.owed c := by
  cases k <;> simp only [Call.returned?, Option.some.injEq, reduceCtorEq] at h
  all_goals rw [← h]; rfl

theorem owed_of_live {c : Charge} {e : Entry} (he : s.entry? c.conn = some e)
    (hl : e.epoch = c.epoch) : s.owed c = min c.bytes e.packetBytes := by
  simp [owed, he, hl]

theorem owed_of_stale {c : Charge} (h : ∀ e, s.entry? c.conn = some e → e.epoch ≠ c.epoch) :
    s.owed c = 0 := by
  cases he : s.entry? c.conn with
  | none => simp [owed, he]
  | some e => simp [owed, he, h e he]

/-- In balanced books no release is cut short. -/
theorem due_le_used (h : s.ledger.accounts.Balanced) (k : Call) : s.due k ≤ s.used := by
  have hc : ∀ c, s.owed c ≤ s.used := fun c => by
    unfold owed
    split
    · rename_i e he
      split
      · exact Nat.le_trans (Nat.min_le_right _ _) (h.packetBytes_le he)
      · exact Nat.zero_le _
    · exact Nat.zero_le _
  cases k with
  | refund c => exact hc c
  | drop l => exact hc l.charge
  | release conn n =>
    cases he : s.entry? conn with
    | none => simp [due, he]
    | some e =>
      simp only [due, he]
      exact Nat.le_trans (Nat.min_le_right _ _) (h.packetBytes_le he)
  | close conn =>
    cases he : s.entry? conn with
    | none => simp [due, he]
    | some e =>
      simp only [due, he]
      exact h.charged_le he
  | init | connect | charge | receive | lease => exact Nat.zero_le _

theorem asked_of_returned? {c : Charge} (h : k.returned? = some c) : s.asked k = 0 := by
  cases k <;> simp only [Call.returned?, reduceCtorEq] at h
  all_goals rfl

theorem admits_asked {c : Charge} (h : Admits c k o) :
    s.asked k = c.bytes ∧ s.due k = 0 ∧ ∀ n, o ≠ .freed n := by
  cases h <;> exact ⟨rfl, rfl, nofun⟩

/-- A call that is not rejected adds what it asks for and takes off what is due, as far as that is
there; it reports what it took off. -/
theorem move_flow (hm : Accounts.Move s.host s.ledger.accounts k o a') (ho : ∀ f, o ≠ .rejected f) :
    a'.budget.used = s.used + s.asked k - s.due k ∧
      ∀ n, o = .freed n → n = min s.used (s.due k) := by
  cases hm with
  | init h => exact ⟨rfl, nofun⟩
  | refused f asks stays => exact absurd rfl (ho f)
  | opened taken fresh fits =>
    simp only [asked, taken, due, Option.map_some, Option.getD_some]
    exact ⟨rfl, nofun⟩
  | charged taken found cap fits admits =>
    obtain ⟨ha, hd, hn⟩ := admits_asked (s := s) admits
    rw [ha, hd]
    exact ⟨rfl, fun n h => absurd h (hn n)⟩
  | refunded returned found live =>
    rw [asked_of_returned? returned, due_of_returned? returned, owed_of_live found live]
    exact ⟨rfl, fun n h => (Outcome.freed.inj h).symm⟩
  | stale returned ended =>
    rw [asked_of_returned? returned, due_of_returned? returned, owed_of_stale ended]
    exact ⟨rfl, fun n h => by cases h; simp⟩
  | released found held =>
    simp only [asked, due, entry?, Ledger.entry?, Ledger.table, found]
    exact ⟨rfl, fun n h => (Outcome.freed.inj h).symm⟩
  | @spared conn m empty =>
    have hz : s.due (.release conn m) = 0 := by
      cases he : s.entry? conn with
      | none => simp [due, he]
      | some e => simpa [due, he] using empty e he
    rw [hz]
    exact ⟨rfl, fun n h => by cases h; simp⟩
  | closed found =>
    simp only [asked, due, entry?, Ledger.entry?, Ledger.table, found]
    exact ⟨rfl, fun n h => (Outcome.freed.inj h).symm⟩
  | absent gone =>
    simp only [asked, due, entry?, Ledger.entry?, Ledger.table, gone]
    exact ⟨rfl, fun n h => by cases h; simp⟩

theorem balanced_create {limit : Int64} {al al' : Allocator}
    (h : create limit al = .ok (s, al')) : s.ledger.accounts.Balanced := by
  rw [(create_eq h).2]
  exact Accounts.balanced_new _

theorem registered_eq_nil (hb : s.ledger.accounts.Balanced) (h : ∀ id, s.entry? id = none) :
    s.registered = [] := by
  rw [List.eq_nil_iff_forall_not_mem]
  rintro ⟨id, e⟩ hm
  have he : s.entry? id = some e := hb.sound.mem_toList_iff.mp hm
  rw [h id] at he
  cases he

theorem balanced_run (h : s.ledger.accounts.Balanced) (ks : List Call) :
    (s.run ks).2.ledger.accounts.Balanced :=
  run_keeps (fun s k hs => (step_move s k).balanced hs) h ks

theorem ceiling_run (s : Service) (ks : List Call) : (s.run ks).2.ceiling = s.ceiling :=
  run_keeps (P := fun t => t.ceiling = s.ceiling)
    (fun t k ht => (step_move t k).ceiling.trans ht) rfl ks

theorem tallies_run {limit : Int64} {al al' : Allocator} (h : create limit al = .ok (s, al'))
    (ks : List Call) {id : ConnId} {e : Entry} (he : entry? (s.run ks).2 id = some e) :
    e.inFlight ≤ e.total ∧ e.total ≤ ks.length := by
  have hk := history_keeps
    (P := fun es t => ∀ id e, t.entry? id = some e → e.inFlight ≤ e.total ∧ e.total ≤ es.length)
    ?_ ?_ ks id e he
  · rwa [length_history] at hk
  · intro es t k ht id e he
    rw [List.length_append, List.length_singleton]
    rcases (step_move t k).origin he with ⟨d, hd, hc⟩ | ⟨_, _, _, c, _, rfl⟩
    · have hle := ht id d hd
      have hs := hc.tallies hle.1
      omega
    · exact ⟨Nat.le_refl _, Nat.zero_le _⟩
  · intro id e he
    rw [create_no_entry h] at he
    cases he

/-- What a call asks for and is given fits under the ceiling. -/
theorem move_fits (hb : s.ledger.accounts.Balanced)
    (hm : Accounts.Move s.host s.ledger.accounts k o a') (ho : ∀ f, o ≠ .rejected f) :
    s.used + s.asked k ≤ s.ceiling := by
  cases hm with
  | refused f => exact absurd rfl (ho f)
  | opened taken fresh fits =>
    simp only [asked, taken, Option.map_some, Option.getD_some]
    exact fits
  | charged taken found cap fits admits =>
    rw [(admits_asked admits).1]
    exact fits
  | refunded returned | stale returned =>
    rw [asked_of_returned? returned]
    exact hb.used_le
  | init | released | spared | closed | absent => exact hb.used_le

theorem move_found (hm : Accounts.Move s.host s.ledger.accounts k o a') {id : ConnId} {n : Nat}
    (hk : k.packet? = some (id, n)) (ho : ∀ f, o ≠ .rejected f) :
    ∃ e, s.entry? id = some e ∧ s.used + n ≤ s.ceiling := by
  rcases hm.admission with ⟨_, hn⟩ | ⟨_, e, _, he, fits, admits, _⟩
  · obtain ⟨f, hf⟩ := hn _ hk
    exact absurd hf (ho f)
  · have hp := admits.packet
    rw [hk] at hp
    cases hp
    exact ⟨e, he, fits⟩

/-- The books of a service after some calls, and what the next call can do to them. -/
structure InBalance (s : Service) : Prop where
  /-- Each registered connection is listed once, with the entry that it has. -/
  once : (s.registered.map Prod.fst).Nodup
  listed : ∀ id e, (id, e) ∈ s.registered ↔ s.entry? id = some e
  used_eq : s.used = total (s.registered.map fun p => p.2.overhead + p.2.packetBytes)
  used_le : s.used ≤ s.ceiling
  /-- No sum that the accounting makes goes past the ceiling. -/
  entry_le : ∀ id e, s.entry? id = some e → e.overhead + e.packetBytes ≤ s.ceiling
  asked_le : ∀ k, (∀ f, (s.step k).1 ≠ .rejected f) → s.used + s.asked k ≤ s.ceiling
  packet_le : ∀ k id n, k.packet? = some (id, n) → (∀ f, (s.step k).1 ≠ .rejected f) →
    ∃ e, s.entry? id = some e ∧ e.packetBytes + n ≤ s.ceiling
  /-- The budget has what a call hands back to it, so that none of it is cut off. -/
  due_le : ∀ k, s.due k ≤ s.used
  freed_eq : ∀ k n, (s.step k).1 = .freed n → n = s.due k
  flow : ∀ k, (∀ f, (s.step k).1 ≠ .rejected f) →
    (s.step k).2.used + s.due k = s.used + s.asked k
  close_eq : ∀ id e, s.entry? id = some e →
    (s.step (.close id)).1 = .freed (e.overhead + e.packetBytes)

theorem close_outcome (h : s.ledger.accounts.Balanced) {id : ConnId} {e : Entry}
    (he : s.entry? id = some e) : (s.step (.close id)).1 = .freed e.charged := by
  rcases (step_move s (.close id)).of_present he with ⟨_, ho, _⟩ | ⟨hk, _⟩
  · rw [ho, Nat.min_eq_right (h.charged_le he)]
  · exact absurd rfl hk

theorem inBalance (h : s.ledger.accounts.Balanced) : s.InBalance where
  once := h.sound.nodup_toList
  listed _ _ := h.sound.mem_toList_iff
  used_eq := h.used_eq
  used_le := h.used_le
  entry_le _ _ he := Nat.le_trans (h.charged_le he) h.used_le
  asked_le k ho := move_fits h (step_move s k) ho
  packet_le k id n hk ho := by
    obtain ⟨e, he, hn⟩ := move_found (step_move s k) hk ho
    have hp : e.packetBytes ≤ s.used := h.packetBytes_le he
    exact ⟨e, he, by omega⟩
  due_le := due_le_used h
  freed_eq k n ho := by
    have hf := (move_flow (step_move s k) (by simp [ho])).2 n ho
    rw [hf, Nat.min_eq_right (due_le_used h k)]
  flow k ho := by
    have hf : (s.step k).2.used = s.used + s.asked k - s.due k := (move_flow (step_move s k) ho).1
    have hd := due_le_used h k
    omega
  close_eq _ _ he := close_outcome h he

/-- The books balance after any calls, forged and repeated returns among them, and no count of
packets goes past the number of calls. -/
theorem books_balance {limit : Int64} {al al' : Allocator} (h : create limit al = .ok (s₀, al'))
    (ks : List Call) :
    (s₀.run ks).2.ceiling = limit.toInt.toNat ∧ (s₀.run ks).2.InBalance ∧
      ∀ id e, entry? (s₀.run ks).2 id = some e → e.inFlight ≤ e.total ∧ e.total ≤ ks.length := by
  refine ⟨?_, inBalance (balanced_run (balanced_create h) ks), ?_⟩
  · rw [ceiling_run, ceiling, (create_eq h).2]
    rfl
  · intro id e he
    exact tallies_run h ks he

/-- A charge that is returned twice takes the bytes of the other packet, and no more than those. -/
theorem books_balance_of_forged_returns :
    ∃ s al' ks, create 100 {} = .ok (s, al') ∧ (s.run ks).2.InBalance ∧
      (s.run ks).1 = [.done, .done, .charged ⟨⟨7⟩, 1, 30⟩, .leased ⟨⟨1⟩, ⟨7⟩, 1, 20⟩,
        .freed 30, .freed 20, .done, .freed 10] := by
  have h : create 100 {} = .ok (_, _) := rfl
  exact ⟨_, _, [.init ⟨"host", ⟨10, 0⟩⟩, .connect ⟨7⟩, .charge ⟨7⟩ 30, .lease ⟨7⟩ 20,
    .refund ⟨⟨7⟩, 1, 30⟩, .refund ⟨⟨7⟩, 1, 30⟩, .connect ⟨8⟩, .close ⟨7⟩], h,
    (books_balance h _).2.1, by decide⟩

end Service

end PacketBudget
