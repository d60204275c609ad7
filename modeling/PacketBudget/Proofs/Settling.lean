import Mathlib.Logic.Function.Iterate
import PacketBudget.Proofs.Counting
import PacketBudget.Proofs.FirstHost

/-!
Closes and returns in any order. A close gives back what the returns before it have left, and a
return after it gives back nothing, so that together they free the same bytes either way. Whatever
the order of a list of them, they leave the same accounts and the same counters.
-/

namespace PacketBudget

/-- The call closes a connection or returns a charge. -/
def Call.settles : Call → Bool
  | .refund _ | .drop _ | .close _ => true
  | _ => false

/-- What a close or a return leaves of the entry that it finds. -/
def Call.leaves : Call → Option Entry → Option Entry
  | .close _, _ => none
  | .refund c, x => (Verdict.refund c x).entry
  | .drop l, x => (Verdict.refund l.charge x).entry
  | _, x => x

/-- The bytes that came free. -/
def Outcome.freedBytes : Outcome → Nat
  | .freed n => n
  | _ => 0

section Leaves

variable {k : Call} {x : Option Entry}

theorem Call.entry_verdict (h : k.settles = true) (holder : Identity) (host : Option HostContext)
    (epoch : UInt64) : (k.verdict holder host epoch x).entry = k.leaves x := by
  cases k with
  | refund | drop => rfl
  | close => cases x <;> rfl
  | init | connect | charge | receive | lease | release => cases h

/-- A charge of the registration takes what there is of its bytes; any other takes nothing. -/
theorem refund_some (c : Charge) (e : Entry) :
    (Verdict.refund c (some e)).entry =
      some (if e.epoch = c.epoch then e.credit (min c.bytes e.packetBytes) else e) := by
  simp only [Verdict.refund]
  split <;> rfl

theorem bytesOf_refund_le (c : Charge) (x : Option Entry) :
    bytesOf (Verdict.refund c x).entry ≤ bytesOf x := by
  cases x with
  | none => exact Nat.le_refl _
  | some e =>
    rw [refund_some]
    split
    · have hc := Entry.charged_credit (Nat.min_le_right c.bytes e.packetBytes)
      simp only [bytesOf]
      omega
    · exact Nat.le_refl _

theorem credit_comm (e : Entry) (n m : Nat) :
    ((e.credit (min n e.packetBytes)).credit (min m (e.credit (min n e.packetBytes)).packetBytes)) =
      ((e.credit (min m e.packetBytes)).credit
        (min n (e.credit (min m e.packetBytes)).packetBytes)) := by
  simp only [Entry.credit, Entry.mk.injEq, true_and, and_true]
  omega

theorem refund_comm (c d : Charge) (x : Option Entry) :
    (Verdict.refund d (Verdict.refund c x).entry).entry =
      (Verdict.refund c (Verdict.refund d x).entry).entry := by
  cases x with
  | none => rfl
  | some e =>
    have he : ∀ n, (e.credit n).epoch = e.epoch := fun _ => rfl
    simp only [refund_some]
    by_cases hc : e.epoch = c.epoch
    · by_cases hd : e.epoch = d.epoch
      · simp only [if_pos hc, if_pos hd, he, credit_comm]
      · simp only [if_pos hc, if_neg hd, he]
    · by_cases hd : e.epoch = d.epoch
      · simp only [if_neg hc, if_pos hd, he]
      · simp only [if_neg hc, if_neg hd]

namespace Call

theorem conn?_of_settles {k : Call} (h : k.settles = true) : ∃ id, k.conn? = some id := by
  cases k with
  | refund | drop | close => exact ⟨_, rfl⟩
  | init | connect | charge | receive | lease | release => cases h

theorem leaves_none (k : Call) : k.leaves none = none := by
  cases k <;> rfl

theorem bytesOf_leaves_le (k : Call) (x : Option Entry) : bytesOf (k.leaves x) ≤ bytesOf x := by
  cases k with
  | refund c => exact bytesOf_refund_le c x
  | drop l => exact bytesOf_refund_le l.charge x
  | close => exact Nat.zero_le _
  | init | connect | charge | receive | lease | release => exact Nat.le_refl _

/-- Two closes or returns on one connection leave the same, whichever comes first. -/
theorem leaves_comm (k k' : Call) (x : Option Entry) :
    k'.leaves (k.leaves x) = k.leaves (k'.leaves x) := by
  cases k <;> cases k' <;> first | rfl | exact refund_comm ..

end Call

end Leaves

namespace Accounts

variable {a : Accounts} {k k' : Call} {i j : ConnId}

/-- The accounts after a close or a return. -/
def settle (a : Accounts) (k : Call) : Accounts :=
  match k.conn? with
  | none => a
  | some id => a.write id (k.leaves (a.table.get? id))

/-- A write that gives bytes back, and brings back nothing that has gone. -/
theorem write_of_le {x : Option Entry} (hx : a.table.get? i = none → x = none)
    (hle : bytesOf x ≤ bytesOf (a.table.get? i)) :
    a.write i x = { a with
      budget := { a.budget with used := a.budget.used - (bytesOf (a.table.get? i) - bytesOf x) }
      table := a.table.write i x } := by
  have hz : bytesOf x - bytesOf (a.table.get? i) = 0 := Nat.sub_eq_zero_of_le hle
  have hn : ¬ (a.table.get? i = none ∧ x ≠ none) := fun h => h.2 (hx h.1)
  simp only [write, hz, hn, ↓reduceIte, Nat.add_zero]

theorem settle_eq (hk : k.conn? = some i) :
    a.settle k = { a with
      budget := { a.budget with
        used := a.budget.used - (bytesOf (a.table.get? i) - bytesOf (k.leaves (a.table.get? i))) }
      table := a.table.write i (k.leaves (a.table.get? i)) } := by
  simp only [settle, hk]
  refine write_of_le (fun h => ?_) (k.bytesOf_leaves_le _)
  rw [h, k.leaves_none]

theorem settle_of_absent (hk : k.conn? = some i) (gone : a.table.get? i = none) :
    a.settle k = a := by
  have hw := write_get? a i
  rw [gone] at hw
  simp only [settle, hk, gone, k.leaves_none, hw]

theorem get?_settle (hk : k.conn? = some i) (j : ConnId) :
    (a.settle k).table.get? j =
      if j = i then k.leaves (a.table.get? i) else a.table.get? j := by
  simp only [settle, hk]
  exact get?_write ..

/-- The second of two on one connection takes what the first has left. -/
theorem settle_settle (hk : k.conn? = some i) (hk' : k'.conn? = some i) :
    (a.settle k).settle k' = { a with
      budget := { a.budget with
        used := a.budget.used -
          (bytesOf (a.table.get? i) - bytesOf (k'.leaves (k.leaves (a.table.get? i)))) }
      table := a.table.write i (k'.leaves (k.leaves (a.table.get? i))) } := by
  have hg : (a.settle k).table.get? i = k.leaves (a.table.get? i) := by
    rw [get?_settle hk, if_pos rfl]
  have hw := Table.write_write a.table i (x := k.leaves (a.table.get? i))
    (y := k'.leaves (k.leaves (a.table.get? i))) fun h => by rw [h, k'.leaves_none]
  have hle := k.bytesOf_leaves_le (a.table.get? i)
  have hle' := k'.bytesOf_leaves_le (k.leaves (a.table.get? i))
  rw [settle_eq hk', hg, settle_eq hk]
  simp only [hw]
  congr 2
  omega

theorem settle_comm_of_ne (hij : i ≠ j) (hk : k.conn? = some i) (hk' : k'.conn? = some j)
    (hi : a.table.get? i ≠ none) (hj : a.table.get? j ≠ none) :
    (a.settle k).settle k' = (a.settle k').settle k := by
  have hg : (a.settle k).table.get? j = a.table.get? j := by rw [get?_settle hk, if_neg hij.symm]
  have hg' : (a.settle k').table.get? i = a.table.get? i := by rw [get?_settle hk', if_neg hij]
  rw [settle_eq hk', hg, settle_eq (a := a.settle k') hk, hg', settle_eq hk, settle_eq hk']
  simp only [Table.write_comm hij hi hj, Nat.sub_right_comm]

/-- Closes and returns leave the same accounts in either order. -/
theorem settle_comm (a : Accounts) (k k' : Call) :
    (a.settle k).settle k' = (a.settle k').settle k := by
  cases hk : k.conn? with
  | none => simp only [settle, hk]
  | some i =>
  cases hk' : k'.conn? with
  | none => simp only [settle, hk']
  | some j =>
  by_cases hij : i = j
  · subst hij
    rw [settle_settle hk hk', settle_settle hk' hk, k.leaves_comm]
  by_cases hi : a.table.get? i = none
  · have hgone : (a.settle k').table.get? i = none := by rw [get?_settle hk', if_neg hij, hi]
    rw [settle_of_absent hk hi, settle_of_absent hk hgone]
  by_cases hj : a.table.get? j = none
  · have hgone : (a.settle k).table.get? j = none := by
      rw [get?_settle hk, if_neg (Ne.symm hij), hj]
    rw [settle_of_absent hk' hj, settle_of_absent hk' hgone]
  exact settle_comm_of_ne hij hk hk' hi hj

end Accounts

namespace Counters

/-- The counters after `closed` connections have been closed and `freed` bytes given back. -/
def settle (s : Counters) (closed freed : Nat) : Counters :=
  { s with
    activeConnections := (fun v => if v = 0 then 0 else v - 1)^[closed] s.activeConnections
    bytesReleased := s.bytesReleased + UInt64.ofNat freed }

theorem settle_zero (s : Counters) : s.settle 0 0 = s := by
  simp [settle]

theorem settle_settle (s : Counters) (m n m' n' : Nat) :
    (s.settle m n).settle m' n' = s.settle (m + m') (n + n') := by
  simp only [settle, Nat.add_comm m, Function.iterate_add_apply, UInt64.ofNat_add, UInt64.add_assoc]

end Counters

namespace Accounts

/-- A close or a return moves the counters as it moves the accounts. -/
theorem Entered.settles {host : Option HostContext} {a a' : Accounts} {k : Call} {o : Outcome}
    {ts : List Tick} (h : Entered host a k o a' ts) (hs : a.table.Sound) (hk : k.settles = true) :
    ∃ closed, a'.table.size + closed = a.table.size ∧
      a'.budget.used + o.freedBytes = a.budget.used ∧
      ∀ c : Counters, c.tickAll ts = c.settle closed o.freedBytes := by
  cases h with
  | taken | repeated | turnedAway | opened | released | spared => cases hk
  | refused packet => cases k <;> cases packet <;> cases hk
  | charged taken found cap fits admits => cases admits <;> cases hk
  | stale | absent => exact ⟨0, rfl, rfl, fun c => c.settle_zero.symm⟩
  | refunded returned found =>
    exact ⟨0, Table.size_put_old hs found _, Budget.used_release .., fun _ => rfl⟩
  | closed found => exact ⟨1, Table.size_erase hs found, Budget.used_release .., fun _ => rfl⟩

end Accounts

namespace Service

/-- `t` comes of `s` by closes and returns that have freed `n` bytes. The counters show how many
connections have gone and how many bytes. -/
structure Settled (s : Service) (n : Nat) (t : Service) : Prop where
  identity : t.identity = s.identity
  host : t.host = s.host
  active_le : t.active ≤ s.active
  used_eq : t.used + n = s.used
  counters : t.counters = s.counters.settle (s.active - t.active) n

variable {s s₀ t u : Service} {k : Call} {ks ls : List Call} {n m : Nat}

theorem Settled.refl (s : Service) : s.Settled 0 s := by
  refine ⟨rfl, rfl, Nat.le_refl _, rfl, ?_⟩
  rw [Nat.sub_self, Counters.settle_zero]

theorem Settled.trans (h : s.Settled n t) (h' : t.Settled m u) : s.Settled (n + m) u := by
  have hle := h.active_le
  have hle' := h'.active_le
  have hu := h.used_eq
  have hu' := h'.used_eq
  refine ⟨h'.identity.trans h.identity, h'.host.trans h.host, Nat.le_trans hle' hle, by omega, ?_⟩
  rw [h'.counters, h.counters, Counters.settle_settle]
  congr 1
  omega

theorem settled_step (hs : s.ledger.accounts.table.Sound) (hk : k.settles = true) :
    s.Settled (s.step k).1.freedBytes (s.step k).2 := by
  obtain ⟨id, hc⟩ := Call.conn?_of_settles hk
  obtain ⟨ts, he, ht⟩ := step_enters s k
  obtain ⟨closed, hsize, hused, hticks⟩ := he.settles hs hk
  have hsize : (s.step k).2.active + closed = s.active := hsize
  refine ⟨identity_step s k, host_of_conn? hc, by omega, hused, ?_⟩
  rw [ht, hticks, ← hsize, Nat.add_sub_cancel_left]

theorem accounts_settle (hb : s.ledger.accounts.Balanced) (hk : k.settles = true) :
    (s.step k).2.ledger.accounts = s.ledger.accounts.settle k := by
  obtain ⟨id, hc⟩ := Call.conn?_of_settles hk
  have hw : s.ledger.accounts.write id (s.verdict id k).entry = s.ledger.accounts.settle k := by
    simp only [verdict, Call.entry_verdict hk, Accounts.settle, hc]
    rfl
  have hd : s.demand id k ≤ s.ceiling := by
    rw [demand, hw, Accounts.settle_eq hc]
    exact Nat.le_trans (Nat.sub_le _ _) hb.used_le
  rw [(follows_of_le hb hc hd).accounts, hw]

theorem settled_run (hb : s.ledger.accounts.Balanced) (hk : ∀ k ∈ ks, k.settles = true) :
    s.Settled (total ((s.run ks).1.map Outcome.freedBytes)) (s.run ks).2 ∧
      (s.run ks).2.ledger.accounts = ks.foldl Accounts.settle s.ledger.accounts := by
  induction ks generalizing s with
  | nil => exact ⟨Settled.refl s, rfl⟩
  | cons k ks ih =>
    obtain ⟨hk, hks⟩ := List.forall_mem_cons.mp hk
    obtain ⟨hs, ha⟩ := ih ((step_move s k).balanced hb) hks
    refine ⟨(settled_step hb.sound hk).trans hs, ?_⟩
    rw [run_cons, ha, accounts_settle hb hk]
    rfl

/-- Two services that come of the same one and have the same accounts differ in their logs alone. -/
theorem Settled.eq_of_accounts (h : s.Settled n t) (h' : s.Settled m u)
    (ha : u.ledger.accounts = t.ledger.accounts) :
    u = { t with journal := u.journal } ∧ m = n := by
  have hactive : u.active = t.active := congrArg (fun a => a.table.size) ha
  have hused : u.used = t.used := congrArg (fun a => a.budget.used) ha
  have hn : m = n := by
    have hs := h.used_eq
    have hs' := h'.used_eq
    omega
  have hc : u.counters = t.counters := by rw [h.counters, h'.counters, hactive, hn]
  refine ⟨?_, hn⟩
  rcases u with ⟨i, host, ⟨a, c⟩, j⟩
  rcases t with ⟨i', host', ⟨a', c'⟩, j'⟩
  simp only [Service.mk.injEq, Ledger.mk.injEq, and_true]
  exact ⟨h'.identity.trans h.identity.symm, h'.host.trans h.host.symm, ha, hc⟩

/-- Whatever has been called before, closes and returns come to the same in any order: they leave
the same service, but for its log, and free the same bytes in all. -/
theorem closes_and_returns_commute {limit : Int64} {al al' : Allocator}
    (h : create limit al = .ok (s₀, al')) (js : List Call)
    (settle : ∀ k ∈ ks, k.settles = true) (perm : ks.Perm ls) :
    ((s₀.run js).2.run ls).2 =
        { ((s₀.run js).2.run ks).2 with journal := ((s₀.run js).2.run ls).2.journal } ∧
      total (((s₀.run js).2.run ls).1.map Outcome.freedBytes) =
        total (((s₀.run js).2.run ks).1.map Outcome.freedBytes) := by
  have hb := balanced_run (balanced_create h) js
  obtain ⟨hs, ha⟩ := settled_run hb settle
  obtain ⟨hs', ha'⟩ := settled_run hb fun k hk => settle k (perm.mem_iff.mpr hk)
  refine hs.eq_of_accounts hs' ?_
  rw [ha, ha']
  exact (perm.foldl_eq' (fun k _ k' _ a => Accounts.settle_comm a k k') _).symm

/-- Two packets of one connection, one of them returned twice, with a close before or after. -/
theorem closes_and_returns_commute_on_shutdown :
    ∃ s al' t ks, create 100 {} = .ok (s, al') ∧
      (s.run [.init ⟨"host", ⟨10, 0⟩⟩, .connect ⟨7⟩, .connect ⟨8⟩, .charge ⟨7⟩ 30, .lease ⟨7⟩ 20,
        .charge ⟨8⟩ 5]).2 = t ∧
      (t.run ks).1 = [.freed 30, .freed 20, .freed 10, .freed 0, .freed 0, .freed 5] ∧
      (t.run ks.reverse).1 = [.freed 5, .freed 0, .freed 20, .freed 40, .freed 0, .freed 0] ∧
      (t.run ks.reverse).2 = { (t.run ks).2 with journal := (t.run ks.reverse).2.journal } := by
  have h : create 100 {} = .ok (_, _) := rfl
  refine ⟨_, _, _, [.refund ⟨⟨7⟩, 1, 30⟩, .refund ⟨⟨7⟩, 1, 30⟩, .close ⟨7⟩,
    .drop ⟨⟨1⟩, ⟨7⟩, 1, 20⟩, .close ⟨9⟩, .refund ⟨⟨8⟩, 2, 50⟩], h, rfl, by decide, by decide, ?_⟩
  exact (closes_and_returns_commute h _ (by decide) (List.reverse_perm _).symm).1

end Service

end PacketBudget
