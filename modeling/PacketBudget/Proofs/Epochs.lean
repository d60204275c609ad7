import PacketBudget.Proofs.Registration
import PacketBudget.Proofs.Table

/-!
Epochs tell registrations apart. They are handed out in order and none twice, until the words run
out, so that a charge whose registration has been closed is never again taken for a live one.
-/

namespace PacketBudget

namespace Accounts

variable {host : Option HostContext} {a a' : Accounts} {k : Call} {o : Outcome}

theorem Move.handed {c : Charge} (h : Move host a k o a') (ho : o.charge? = some c) :
    ∃ e, a'.table.get? c.conn = some e ∧ e.epoch = c.epoch := by
  rcases h.admission with ⟨hn, _⟩ | ⟨id, e, n, _, _, admits, rfl⟩
  · rw [hn] at ho
    cases ho
  · rw [admits.eq_of_charge? ho]
    exact ⟨e.charge n, (get?_charged ..).trans (if_pos rfl), rfl⟩

theorem Move.get?_close {id : ConnId} (h : Move host a (.close id) o a') :
    a'.table.get? id = none := by
  cases hd : a.table.get? id with
  | none =>
    rcases h.of_absent hd with hn | ⟨_, _, hk, _⟩
    · exact hn
    · cases hk
  | some e =>
    rcases h.of_present hd with ⟨_, _, hn⟩ | ⟨hk, _⟩
    · exact hn
    · exact absurd rfl hk

/-- An epoch goes to each registration that is opened, and to nothing else. -/
theorem Move.nextEpoch (h : Move host a k o a') :
    ((∀ id, ¬ (k = .connect id ∧ o = .done)) ∧ a'.nextEpoch = a.nextEpoch) ∨
      ∃ id e, k = .connect id ∧ o = .done ∧ a'.table.get? id = some e ∧
        e.epoch = a.nextEpoch ∧ a'.nextEpoch = a.nextEpoch + 1 := by
  cases h with
  | @opened c id taken fresh fits =>
    exact Or.inr ⟨id, _, rfl, rfl, by rw [get?_opened, if_pos rfl], rfl, rfl⟩
  | charged taken found cap fits admits =>
    left
    refine ⟨?_, rfl⟩
    rintro id ⟨rfl, _⟩
    cases admits
  | refused | refunded | stale =>
    left
    refine ⟨?_, rfl⟩
    rintro id ⟨_, ho⟩
    cases ho
  | init | released | spared | closed | absent =>
    left
    refine ⟨?_, rfl⟩
    rintro id ⟨hk, _⟩
    cases hk

end Accounts

namespace Service

/-- The registration that a call opens, with the entry that it has put on the table. -/
def opened (s : Service) (k : Call) : List (ConnId × Option Entry) :=
  match k, (s.step k).1 with
  | .connect id, .done => [(id, entry? (s.step k).2 id)]
  | _, _ => []

/-- The registrations that a run opens, in order. -/
def registrations (s : Service) : List Call → List (ConnId × Option Entry)
  | [] => []
  | k :: ks => s.opened k ++ (s.step k).2.registrations ks

/-- So many registrations have been opened, and the next epoch is the one after them. -/
structure Numbered (s : Service) (n : Nat) : Prop where
  next : s.ledger.accounts.nextEpoch = UInt64.ofNat (n + 1)
  live : ∀ id e, s.entry? id = some e → e.epoch.toNat ≤ n

/-- The registration of the charge has been closed, and was one of the first `n`. -/
structure Ended (s : Service) (c : Charge) (n : Nat) : Prop where
  gone : ∀ e, s.entry? c.conn = some e → e.epoch ≠ c.epoch
  early : c.epoch.toNat ≤ n

/-- Returning the charge, however often and in whatever form, frees nothing and changes nothing. -/
def Spent (s : Service) (c : Charge) : Prop :=
  ∀ rs : List Call, (∀ r ∈ rs, r.returned? = some c) → s.run rs = (rs.map fun _ => .freed 0, s)

variable {s s₀ : Service} {k : Call} {c : Charge} {n : Nat}

theorem opened_cases (s : Service) (k : Call) :
    (s.opened k = [] ∧ (s.step k).2.ledger.accounts.nextEpoch = s.ledger.accounts.nextEpoch) ∨
      ∃ id e, s.opened k = [(id, some e)] ∧ e.epoch = s.ledger.accounts.nextEpoch ∧
        (s.step k).2.ledger.accounts.nextEpoch = s.ledger.accounts.nextEpoch + 1 := by
  rcases (step_move s k).nextEpoch with ⟨hk, hn⟩ | ⟨id, e, rfl, ho, he, hx, hn⟩
  · left
    refine ⟨?_, hn⟩
    unfold opened
    split
    · rename_i id ho
      exact absurd ⟨rfl, ho⟩ (hk id)
    · rfl
  · right
    refine ⟨id, e, ?_, hx, hn⟩
    have he : entry? (s.step (.connect id)).2 id = some e := he
    simp only [opened, ho, he]

theorem opened_connect {id : ConnId} (h : (s.step (.connect id)).1 = .done) :
    (s.opened (.connect id)).length = 1 := by
  simp only [opened, h, List.length_singleton]

theorem registrations_append (s : Service) (ks ls : List Call) :
    s.registrations (ks ++ ls) = s.registrations ks ++ (s.run ks).2.registrations ls := by
  induction ks generalizing s with
  | nil => rfl
  | cons k ks ih => simp [registrations, run_cons, ih]

/-- The registrations carry the epochs in the order in which they are opened. -/
theorem registrations_epochs (hn : s.ledger.accounts.nextEpoch = UInt64.ofNat n) (ks : List Call) :
    (s.registrations ks).map (·.2.map Entry.epoch) =
      (List.range' n (s.registrations ks).length).map fun m => some (UInt64.ofNat m) := by
  induction ks generalizing s n with
  | nil => rfl
  | cons k ks ih =>
    rcases opened_cases s k with ⟨ho, hs⟩ | ⟨id, e, ho, he, hs⟩
    · rw [registrations, ho]
      exact ih (hs.trans hn)
    · have hn' : (s.step k).2.ledger.accounts.nextEpoch = UInt64.ofNat (n + 1) := by
        rw [hs, hn, UInt64.ofNat_add]
        rfl
      have hrest := ih hn'
      simp only [registrations, ho, List.singleton_append, List.map_cons, List.length_cons,
        List.range'_succ, Option.map_some, he, hn, hrest]

theorem numbered_create {limit : Int64} {al al' : Allocator} (h : create limit al = .ok (s, al')) :
    s.Numbered 0 := by
  refine ⟨?_, ?_⟩
  · rw [(create_eq h).2]
    rfl
  · intro id e he
    rw [create_no_entry h] at he
    cases he

/-- The entries after a call are as old as before it, or the call has just opened them. -/
theorem epoch_cases (h : s.Numbered n) {id : ConnId} {e : Entry}
    (he : entry? (s.step k).2 id = some e) :
    (∃ d, s.entry? id = some d ∧ e.epoch = d.epoch) ∨
      e.epoch = UInt64.ofNat (n + 1) ∧ (s.opened k).length = 1 := by
  rcases (step_move s k).origin he with ⟨d, hd, hc⟩ | ⟨_, rfl, ho, _, _, rfl⟩
  · exact Or.inl ⟨d, hd, hc.epoch_eq⟩
  · exact Or.inr ⟨h.next, opened_connect ho⟩

theorem numbered_step (h : s.Numbered n) (k : Call) :
    (s.step k).2.Numbered (n + (s.opened k).length) := by
  constructor
  · rcases opened_cases s k with ⟨ho, hs⟩ | ⟨id, e, ho, _, hs⟩
    · rw [hs, h.next, ho]
      rfl
    · rw [hs, h.next, ho, List.length_singleton, UInt64.ofNat_add (n + 1)]
      rfl
  · intro id e he
    rcases epoch_cases h he with ⟨d, hd, hx⟩ | ⟨hx, hlen⟩
    · rw [hx]
      exact Nat.le_trans (h.live id d hd) (Nat.le_add_right _ _)
    · rw [hx, hlen, UInt64.toNat_ofNat']
      exact Nat.mod_le _ _

theorem numbered_run (h : s.Numbered n) (ks : List Call) :
    (s.run ks).2.Numbered (n + (s.registrations ks).length) := by
  induction ks generalizing s n with
  | nil => exact h
  | cons k ks ih =>
    have hr := ih (numbered_step h k)
    rwa [registrations, List.length_append, ← Nat.add_assoc]

theorem ended_step (hn : s.Numbered n) (h : s.Ended c n)
    (few : n + (s.opened k).length < UInt64.size) :
    (s.step k).2.Ended c (n + (s.opened k).length) := by
  refine ⟨?_, Nat.le_trans h.early (Nat.le_add_right _ _)⟩
  intro e he
  rcases epoch_cases hn he with ⟨d, hd, hx⟩ | ⟨hx, hlen⟩
  · rw [hx]
    exact h.gone d hd
  · rw [hlen] at few
    have hc := h.early
    intro heq
    rw [← heq, hx, UInt64.toNat_ofNat_of_lt' few] at hc
    omega

theorem ended_run (hn : s.Numbered n) (h : s.Ended c n) (ks : List Call)
    (few : n + (s.registrations ks).length < UInt64.size) :
    (s.run ks).2.Ended c (n + (s.registrations ks).length) := by
  induction ks generalizing s n with
  | nil => exact h
  | cons k ks ih =>
    simp only [registrations, List.length_append, ← Nat.add_assoc] at few ⊢
    have hk : n + (s.opened k).length < UInt64.size := by omega
    exact ih (numbered_step hn k) (ended_step hn h hk) few

/-- Once its id has been closed, the registration of a charge has ended for good. -/
theorem ended_of_close (hn : s.Numbered n) (early : c.epoch.toNat ≤ n) {ks : List Call}
    (hc : .close c.conn ∈ ks) (few : n + (s.registrations ks).length < UInt64.size) :
    (s.run ks).2.Ended c (n + (s.registrations ks).length) := by
  induction ks generalizing s n with
  | nil => cases hc
  | cons k ks ih =>
    have hn' := numbered_step hn k
    have early' := Nat.le_trans early (Nat.le_add_right n (s.opened k).length)
    simp only [registrations, List.length_append, ← Nat.add_assoc] at few ⊢
    by_cases hk : k = .close c.conn
    · subst hk
      refine ended_run hn' ⟨?_, early'⟩ ks few
      intro e he
      have hg := (step_move s (.close c.conn)).get?_close
      have he : (s.step (.close c.conn)).2.ledger.accounts.table.get? c.conn = some e := he
      rw [hg] at he
      cases he
    · have hmem : Call.close c.conn ∈ ks := by
        rcases List.mem_cons.mp hc with h | h
        · exact absurd h.symm hk
        · exact h
      exact ih hn' early' hmem few

theorem refund_of_ended (h : ∀ e, s.entry? c.conn = some e → e.epoch ≠ c.epoch) :
    s.refund c = (0, s) := by
  have hr : s.ledger.accounts.refund? c = none := by
    unfold Accounts.refund?
    split
    · rfl
    · rename_i e he
      rw [if_neg (h e he)]
  simp only [refund, Ledger.refund, hr, Ledger.book_none]

theorem step_of_ended (h : ∀ e, s.entry? c.conn = some e → e.epoch ≠ c.epoch)
    (hk : k.returned? = some c) : s.step k = (.freed 0, s) := by
  have hr := refund_of_ended h
  cases k with
  | refund d =>
    cases hk
    simp only [step, hr]
  | drop l =>
    cases hk
    simp only [step, hr]
  | init | connect | charge | receive | lease | release | close => cases hk

theorem spent_of_ended (h : ∀ e, s.entry? c.conn = some e → e.epoch ≠ c.epoch) : s.Spent c := by
  intro rs hrs
  induction rs with
  | nil => rfl
  | cons r rs ih =>
    have hr := step_of_ended h (hrs r List.mem_cons_self)
    have hrest := ih fun r hr => hrs r (List.mem_cons_of_mem _ hr)
    simp only [run, hr, hrest, List.map_cons]

/-- What a run of a new service has done with its epochs. -/
structure InOrder (s₀ : Service) (ks : List Call) : Prop where
  /-- The first registration has epoch 1, and each has the epoch after the one before it. -/
  numbered : ((s₀.registrations ks).map fun r => r.2.map fun e => e.epoch.toNat) =
    (List.range' 1 (s₀.registrations ks).length).map some
  distinct : ((s₀.registrations ks).map fun r => r.2.map Entry.epoch).Nodup
  next : (s₀.run ks).2.ledger.accounts.nextEpoch =
    UInt64.ofNat ((s₀.registrations ks).length + 1)
  live : ∀ id e, entry? (s₀.run ks).2 id = some e →
    e.epoch.toNat < (s₀.registrations ks).length + 1
  below : (s₀.registrations ks).length + 1 < UInt64.size → ∀ id e,
    entry? (s₀.run ks).2 id = some e → e.epoch < (s₀.run ks).2.ledger.accounts.nextEpoch

theorem inOrder {limit : Int64} {al al' : Allocator} (h : create limit al = .ok (s₀, al'))
    (ks : List Call) (few : (s₀.registrations ks).length < UInt64.size) : s₀.InOrder ks := by
  have hn := numbered_run (numbered_create h) ks
  rw [Nat.zero_add] at hn
  have hlist := registrations_epochs (n := 1) (numbered_create h).next ks
  have hnat : ((s₀.registrations ks).map fun r => r.2.map fun e => e.epoch.toNat) =
      (List.range' 1 (s₀.registrations ks).length).map some := by
    have hmap := congrArg (List.map (Option.map UInt64.toNat)) hlist
    simp only [List.map_map, Function.comp_def, Option.map_map, Option.map_some] at hmap
    rw [hmap]
    apply List.map_congr_left
    intro m hm
    have hm := List.mem_range'_1.mp hm
    rw [UInt64.toNat_ofNat_of_lt' (by omega)]
  have hlive : ∀ id e, entry? (s₀.run ks).2 id = some e →
      e.epoch.toNat < (s₀.registrations ks).length + 1 := fun id e he =>
    Nat.lt_succ_of_le (hn.live id e he)
  refine ⟨hnat, ?_, hn.next, hlive, ?_⟩
  · have hsome : ((List.range' 1 (s₀.registrations ks).length).map some).Nodup :=
      List.Pairwise.map (S := (· ≠ ·)) some (fun a b hab he => hab (Option.some.inj he))
        List.nodup_range'
    rw [← hnat] at hsome
    refine List.Pairwise.of_map (S := (· ≠ ·)) (Option.map UInt64.toNat) ?_ ?_
    · intro a b hab he
      exact hab (congrArg _ he)
    · simp only [List.map_map, Function.comp_def, Option.map_map]
      exact hsome
  · intro hfew id e he
    rw [UInt64.lt_iff_toNat_lt, hn.next, UInt64.toNat_ofNat_of_lt' hfew]
    exact hlive id e he

/-- Epochs go to registrations in order and none goes to two of them, and a charge whose
registration has been closed gives nothing back, whatever its id has been through since. -/
theorem closed_charges_are_spent {limit : Int64} {al al' : Allocator}
    (h : create limit al = .ok (s₀, al')) (ks : List Call)
    (few : (s₀.registrations ks).length < UInt64.size) :
    s₀.InOrder ks ∧ ∀ ks₁ k ks₂ c, ks = ks₁ ++ k :: ks₂ →
      ((s₀.run ks₁).2.step k).1.charge? = some c → .close c.conn ∈ ks₂ →
        (s₀.run ks).2.Spent c := by
  refine ⟨inOrder h ks few, ?_⟩
  rintro ks₁ k ks₂ c rfl hc hclose
  simp only [registrations_append, registrations, List.length_append] at few
  have hn := numbered_run (numbered_create h) ks₁
  have hn' := numbered_step hn k
  obtain ⟨e, he, hx⟩ := (step_move (s₀.run ks₁).2 k).handed hc
  have early : c.epoch.toNat ≤ _ := hx ▸ hn'.live c.conn e he
  have hended := ended_of_close hn' early hclose (by omega)
  rw [run_append]
  exact spent_of_ended hended.gone

/-- A lease on the first registration of an id is spent on the second. -/
theorem closed_charges_are_spent_on_reused_id :
    ∃ s al' ks, create 100 {} = .ok (s, al') ∧ (s.registrations ks).length = 2 ∧
      entry? (s.run ks).2 ⟨7⟩ = some ⟨2, 10, 30, 1, 1⟩ ∧ (s.run ks).2.Spent ⟨⟨7⟩, 1, 20⟩ := by
  have h : create 100 {} = .ok (_, _) := rfl
  exact ⟨_, _, [.init ⟨"host", ⟨10, 0⟩⟩, .connect ⟨7⟩] ++ .lease ⟨7⟩ 20 ::
    [.close ⟨7⟩, .connect ⟨7⟩, .charge ⟨7⟩ 30], h, by decide, by decide,
    (closed_charges_are_spent h _ (by decide)).2 _ _ _ _ rfl (by decide) (by decide)⟩

theorem step_connect {h : HostContext} {id : ConnId} (hh : s.host = some h)
    (gone : s.entry? id = none) (fits : s.used + h.policy.overhead ≤ s.ceiling) :
    (s.step (.connect id)).2.host = some h ∧ (s.step (.connect id)).2.ledger.accounts =
      s.ledger.accounts.opened id h.policy.overhead := by
  have hc : s.ledger.accounts.table.contains id = false := by
    rw [Table.contains, Option.isSome_eq_false_iff, Option.isNone_iff_eq_none]
    exact gone
  have hr := Accounts.register_eq_ok_iff.mpr ⟨hc, fits, rfl⟩
  simp only [step, connect, hh, Ledger.register, hr, outcome]
  exact ⟨rfl, rfl⟩

theorem step_close {id : ConnId} {e : Entry} (he : s.entry? id = some e) :
    (s.step (.close id)).2.host = s.host ∧
      (s.step (.close id)).2.ledger.accounts = s.ledger.accounts.closed id e := by
  have hg : s.ledger.accounts.table.get? id = some e := he
  simp only [step, close, Ledger.close, Accounts.remove?, hg, Option.map_some]
  exact ⟨rfl, rfl⟩

theorem closed_opened {a : Accounts} {id : ConnId} (gone : a.table.get? id = none) (m : Nat) :
    (a.opened id m).closed id { epoch := a.nextEpoch, overhead := m } =
      { a with nextEpoch := a.nextEpoch + 1 } := by
  simp only [Accounts.opened, Accounts.closed, Table.erase_put gone, Entry.charged, Nat.add_zero,
    Nat.add_sub_cancel]

/-- Registering an id and closing it, so many times. -/
def rounds (id : ConnId) : Nat → List Call
  | 0 => []
  | n + 1 => .connect id :: .close id :: rounds id n

/-- A round leaves nothing behind but the epoch that it has used up. -/
theorem accounts_rounds {h : HostContext} {id : ConnId} (hh : s.host = some h)
    (gone : s.entry? id = none) (fits : s.used + h.policy.overhead ≤ s.ceiling) (n : Nat) :
    (s.run (rounds id n)).2.ledger.accounts =
      { s.ledger.accounts with nextEpoch := s.ledger.accounts.nextEpoch + UInt64.ofNat n } := by
  induction n generalizing s with
  | zero =>
    rw [show UInt64.ofNat 0 = 0 from rfl, UInt64.add_zero]
    rfl
  | succ n ih =>
    obtain ⟨hh₁, ha₁⟩ := step_connect hh gone fits
    have he : entry? (s.step (.connect id)).2 id =
        some { epoch := s.ledger.accounts.nextEpoch, overhead := h.policy.overhead } := by
      have hg := Accounts.get?_opened s.ledger.accounts id h.policy.overhead id
      rw [if_pos rfl, ← ha₁] at hg
      exact hg
    obtain ⟨hh₂, ha₂⟩ := step_close he
    rw [ha₁, closed_opened gone] at ha₂
    have hgone : entry? ((s.step (.connect id)).2.step (.close id)).2 id = none := by
      have hg : s.ledger.accounts.table.get? id = none := gone
      unfold entry? Ledger.entry? Ledger.table
      rw [ha₂]
      exact hg
    have hfits : ((s.step (.connect id)).2.step (.close id)).2.used + h.policy.overhead ≤
        ((s.step (.connect id)).2.step (.close id)).2.ceiling := by
      rw [used, Ledger.used, ceiling, Ledger.ceiling, ha₂]
      exact fits
    rw [rounds, run_cons, run_cons, ih (hh₂.trans hh₁) hgone hfits, ha₂]
    simp only [UInt64.ofNat_add n, UInt64.add_assoc, UInt64.add_comm (UInt64.ofNat n)]
    rfl

/-- The bound on registrations is needed: after so many of them the epochs come round, and what is
opened next is not told apart from what was opened first. -/
theorem epochs_come_round {h : HostContext} {id : ConnId} (hh : s.host = some h)
    (gone : s.entry? id = none) (fits : s.used + h.policy.overhead ≤ s.ceiling) :
    (s.run (rounds id UInt64.size)).2.ledger.accounts = s.ledger.accounts := by
  rw [accounts_rounds hh gone fits, UInt64.ofNat_size, UInt64.add_zero]

end Service

end PacketBudget
