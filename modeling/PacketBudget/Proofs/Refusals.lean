import PacketBudget.Ledger

/-!
What a ledger refuses. A request is granted exactly where there is room for it, whatever has been
done with the ledger before, and one that is refused changes nothing but the counters. A refusal
for want of room names the largest amount that would have been granted in its place.
-/

namespace PacketBudget

/-- There is room under the cap, unless nothing is asked for. -/
theorem Entry.fits_iff {e : Entry} {cap n : Nat} :
    e.fits cap n = true ↔ cap = 0 ∨ n = 0 ∨ e.packetBytes + n ≤ cap := by
  simp only [Entry.fits, decide_eq_true_eq]
  omega

namespace Budget

variable {b : Budget} {n : Nat}

theorem le_available_iff (hb : b.used ≤ b.ceiling) : n ≤ b.available ↔ b.used + n ≤ b.ceiling := by
  simp only [available]
  omega

theorem within_reserve? {b' : Budget} (h : b.reserve? n = some b') : b'.used ≤ b'.ceiling := by
  obtain ⟨hfits, rfl⟩ := reserve?_eq_some_iff.mp h
  exact hfits

theorem within_release (hb : b.used ≤ b.ceiling) (n : Nat) :
    (b.release n).2.used ≤ (b.release n).2.ceiling :=
  Nat.le_trans (Nat.sub_le _ _) hb

end Budget

namespace Ledger

/-- What can be refused for want of room, apart from its amount. -/
inductive Request
  | register (id : ConnId)
  | charge (id : ConnId) (cap : Nat)
  deriving DecidableEq, Repr

/-- The request for the amount `n`. -/
def Request.call : Request → Nat → Call
  | .register id, n => .register id n
  | .charge id cap, n => .charge id n cap

/-- Whether a call that asks for something has been granted it. -/
def Answer.granted : Answer → Bool
  | .registered | .charged _ => true
  | _ => false

end Ledger

namespace Accounts

open Ledger (Request)

/-- There is room for the amount `n`. -/
def Grants (a : Accounts) : Request → Nat → Prop
  | .register id, n => a.table.get? id = none ∧ a.budget.used + n ≤ a.budget.ceiling
  | .charge id cap, n => ∃ e, a.table.get? id = some e ∧
      (cap = 0 ∨ n = 0 ∨ e.packetBytes + n ≤ cap) ∧ a.budget.used + n ≤ a.budget.ceiling

variable {a a' : Accounts} {id : ConnId} {e : Entry} {c : Charge} {n cap : Nat}
variable {asked available : Nat}

theorem le_room_iff (ha : a.budget.used ≤ a.budget.ceiling) :
    n ≤ a.room cap e ↔
      (cap = 0 ∨ n = 0 ∨ e.packetBytes + n ≤ cap) ∧ a.budget.used + n ≤ a.budget.ceiling := by
  simp only [room, Budget.available]
  split <;> omega

theorem register_ok_iff : (∃ a', a.register id n = .ok a') ↔ a.Grants (.register id) n := by
  simp only [register_eq_ok_iff, Grants, Table.contains, Option.isSome_eq_false_iff,
    Option.isNone_iff_eq_none]
  constructor
  · rintro ⟨a', hn, hfits, -⟩
    exact ⟨hn, hfits⟩
  · rintro ⟨hn, hfits⟩
    exact ⟨_, hn, hfits, rfl⟩

theorem charge_ok_iff : (∃ r, a.charge id n cap = .ok r) ↔ a.Grants (.charge id cap) n := by
  constructor
  · rintro ⟨⟨c, a'⟩, h⟩
    obtain ⟨e, he, hcap, hfits, -⟩ := charge_eq_ok_iff.mp h
    exact ⟨e, he, Entry.fits_iff.mp hcap, hfits⟩
  · rintro ⟨e, he, hcap, hfits⟩
    exact ⟨_, charge_eq_ok_iff.mpr ⟨e, he, Entry.fits_iff.mpr hcap, hfits, rfl, rfl⟩⟩

theorem register_exhausted (h : a.register id n = .error (.budgetExhausted asked available)) :
    a.table.get? id = none ∧ asked = n ∧ available = a.budget.available := by
  unfold register at h
  split at h
  · cases h
  · rename_i hc
    split at h
    · cases h
      refine ⟨?_, rfl, rfl⟩
      simpa [Table.contains] using hc
    · cases h

theorem charge_exhausted (h : a.charge id n cap = .error (.budgetExhausted asked available)) :
    ∃ e, a.table.get? id = some e ∧ asked = n ∧ available = a.room cap e := by
  unfold charge at h
  split at h
  · cases h
  · rename_i e he
    split at h
    · cases h
      exact ⟨e, he, rfl, rfl⟩
    · cases h

/-- What a refund frees is what the budget releases. -/
theorem refund?_release (h : a.refund? c = some (n, a')) :
    ∃ m, n = (a.budget.release m).1 ∧ a'.budget = (a.budget.release m).2 := by
  unfold refund? at h
  split at h
  · cases h
  · split at h <;> cases h
    exact ⟨_, rfl, rfl⟩

theorem release?_release {m : Nat} (h : a.release? id m = some (n, a')) :
    ∃ m, n = (a.budget.release m).1 ∧ a'.budget = (a.budget.release m).2 := by
  unfold release? at h
  split at h
  · cases h
  · split at h <;> cases h
    exact ⟨_, rfl, rfl⟩

end Accounts

namespace Ledger

variable {l : Ledger} {r : Request} {k : Call} {f : Fault} {n asked available : Nat}

/-- The ledger after the calls. -/
def run (l : Ledger) (ks : List Call) : Ledger := ks.foldl (fun l k => (l.step k).2) l

/-- All that a call can do. What holds of every call is shown by these cases, so that `step` is
opened only once. -/
inductive Stepped (l : Ledger) : Call → Answer × Ledger → Prop
  | registered {id : ConnId} {n : Nat} {a : Accounts} (ok : l.accounts.register id n = .ok a) :
    Stepped l (.register id n)
      (.registered, { l.tickAll (registerTicks n (.ok a)) with accounts := a })
  | unregistered {id : ConnId} {n : Nat} {f : Fault}
    (refused : l.accounts.register id n = .error f) :
    Stepped l (.register id n) (.rejected f, l.tickAll (registerTicks n (.error f)))
  | charged {id : ConnId} {n cap : Nat} {c : Charge} {a : Accounts}
    (ok : l.accounts.charge id n cap = .ok (c, a)) :
    Stepped l (.charge id n cap)
      (.charged c, { l.tickAll (chargeTicks n (.ok (c, a))) with accounts := a })
  | uncharged {id : ConnId} {n cap : Nat} {f : Fault}
    (refused : l.accounts.charge id n cap = .error f) :
    Stepped l (.charge id n cap) (.rejected f, l.tickAll (chargeTicks n (.error f)))
  | refunded (c : Charge) : Stepped l (.refund c) (.freed (l.refund c).1, (l.refund c).2)
  | released (id : ConnId) (n : Nat) :
    Stepped l (.release id n) (.freed (l.release id n).1, (l.release id n).2)
  | closed {id : ConnId} {e : Entry} {n : Nat} {b : Budget} (found : l.entry? id = some e)
    (freed : l.accounts.budget.release e.charged = (n, b)) :
    Stepped l (.close id) (.freed n, { l.tickAll (closeTicks n) with
      accounts := { l.accounts with budget := b, table := l.table.erase id } })
  | absent {id : ConnId} (absent : l.entry? id = none) : Stepped l (.close id) (.absent, l)
  | removed {id : ConnId} {e : Entry} (found : l.entry? id = some e) :
    Stepped l (.remove id) (.removed (some e), { l with accounts.table := l.table.erase id })
  | missing {id : ConnId} (absent : l.entry? id = none) :
    Stepped l (.remove id) (.removed none, l)
  | reserved {n : Nat} {b : Budget} (fits : l.accounts.budget.reserve? n = some b) :
    Stepped l (.reserve n) (.reserved true, { l with accounts.budget := b })
  | full {n : Nat} (full : l.accounts.budget.reserve? n = none) :
    Stepped l (.reserve n) (.reserved false, l)
  | freed (n : Nat) :
    Stepped l (.free n) (.freed (l.accounts.free n).1, { l with accounts := (l.accounts.free n).2 })

theorem step_stepped (l : Ledger) (k : Call) : Stepped l k (l.step k) := by
  cases k with
  | register id n =>
    cases hr : l.accounts.register id n with
    | error f =>
      simp only [step, register, hr]
      exact .unregistered hr
    | ok a =>
      simp only [step, register, hr]
      exact .registered hr
  | charge id n cap =>
    rcases hr : l.accounts.charge id n cap with f | ⟨c, a⟩
    · simp only [step, charge, hr]
      exact .uncharged hr
    · simp only [step, charge, hr]
      exact .charged hr
  | refund c => exact .refunded c
  | release id n => exact .released id n
  | close id =>
    cases he : l.accounts.table.get? id with
    | none =>
      simp only [step, close, Accounts.remove?, he, Option.map_none]
      exact .absent he
    | some e =>
      simp only [step, close, Accounts.remove?, he, Option.map_some]
      exact .closed he rfl
  | remove id =>
    cases he : l.accounts.table.get? id with
    | none =>
      simp only [step, Accounts.remove?, he, Option.map_none]
      exact .missing he
    | some e =>
      simp only [step, Accounts.remove?, he, Option.map_some]
      exact .removed he
  | reserve n =>
    cases hr : l.accounts.budget.reserve? n with
    | none =>
      simp only [step, hr]
      exact .full hr
    | some b =>
      simp only [step, hr]
      exact .reserved hr
  | free n => exact .freed n

/-- A call that is rejected leaves the accounts alone. -/
theorem accounts_of_rejected (h : (l.step k).1 = .rejected f) :
    (l.step k).2.accounts = l.accounts := by
  have hs := step_stepped l k
  generalize l.step k = x at hs h ⊢
  cases hs with
  | unregistered | uncharged => rfl
  | registered | charged | refunded | released | closed | absent | removed | missing | reserved
  | full | freed => cases h

theorem registered_iff {id : ConnId} :
    (l.step (.register id n)).1 = .registered ↔ l.accounts.Grants (.register id) n := by
  rw [← Accounts.register_ok_iff]
  have hs := step_stepped l (.register id n)
  generalize l.step (.register id n) = x at hs ⊢
  cases hs with
  | registered ok => exact iff_of_true rfl ⟨_, ok⟩
  | unregistered refused =>
    rw [refused]
    exact iff_of_false nofun nofun

theorem charged_iff {id : ConnId} {cap : Nat} :
    (∃ c, (l.step (.charge id n cap)).1 = .charged c) ↔ l.accounts.Grants (.charge id cap) n := by
  rw [← Accounts.charge_ok_iff]
  have hs := step_stepped l (.charge id n cap)
  generalize l.step (.charge id n cap) = x at hs ⊢
  cases hs with
  | charged ok => exact iff_of_true ⟨_, rfl⟩ ⟨_, ok⟩
  | uncharged refused =>
    rw [refused]
    exact iff_of_false nofun nofun

/-- A request is granted by the answer that is its own. -/
theorem granted_iff : (l.step (r.call n)).1.granted = true ↔ l.accounts.Grants r n := by
  cases r with
  | register id =>
    rw [← registered_iff, Request.call]
    have hs := step_stepped l (.register id n)
    generalize l.step (.register id n) = x at hs ⊢
    cases hs with
    | registered => exact iff_of_true rfl rfl
    | unregistered => exact iff_of_false nofun nofun
  | charge id cap =>
    rw [← charged_iff, Request.call]
    have hs := step_stepped l (.charge id n cap)
    generalize l.step (.charge id n cap) = x at hs ⊢
    cases hs with
    | charged => exact iff_of_true rfl ⟨_, rfl⟩
    | uncharged => exact iff_of_false nofun nofun

/-- What a refusal for want of room has to say is what was asked for and the most there is. -/
theorem exhausted (hl : l.used ≤ l.ceiling)
    (h : (l.step (r.call n)).1 = .rejected (.budgetExhausted asked available)) :
    asked = n ∧ ∀ m, l.accounts.Grants r m ↔ m ≤ available := by
  have hs := step_stepped l (r.call n)
  generalize l.step (r.call n) = x at hs h
  cases r with
  | register id =>
    cases hs with
    | registered => cases h
    | unregistered refused =>
      cases h
      obtain ⟨hn, rfl, rfl⟩ := Accounts.register_exhausted refused
      refine ⟨rfl, fun m => ?_⟩
      rw [Budget.le_available_iff hl]
      exact ⟨And.right, fun hm => ⟨hn, hm⟩⟩
  | charge id cap =>
    cases hs with
    | charged => cases h
    | uncharged refused =>
      cases h
      obtain ⟨e, he, rfl, rfl⟩ := Accounts.charge_exhausted refused
      refine ⟨rfl, fun m => ?_⟩
      rw [Accounts.le_room_iff hl]
      constructor
      · rintro ⟨d, hd, hm⟩
        obtain rfl := Option.some.inj (he.symm.trans hd)
        exact hm
      · exact fun hm => ⟨e, he, hm⟩

/-- A return is made of the budget and leaves it within its ceiling. -/
theorem within_book (hl : l.used ≤ l.ceiling) {x : Option (Nat × Accounts)}
    (hx : ∀ m a, x = some (m, a) → ∃ n, m = (l.accounts.budget.release n).1 ∧
      a.budget = (l.accounts.budget.release n).2) :
    (l.book x).2.used ≤ (l.book x).2.ceiling := by
  rcases x with _ | ⟨m, a⟩
  · exact hl
  · obtain ⟨n, -, hb⟩ := hx m a rfl
    show a.budget.used ≤ a.budget.ceiling
    rw [hb]
    exact Budget.within_release hl n

theorem within_step (hl : l.used ≤ l.ceiling) (k : Call) :
    (l.step k).2.used ≤ (l.step k).2.ceiling := by
  have hs := step_stepped l k
  generalize l.step k = x at hs ⊢
  cases hs with
  | registered ok =>
    obtain ⟨-, hfits, rfl⟩ := Accounts.register_eq_ok_iff.mp ok
    exact hfits
  | charged ok =>
    obtain ⟨e, -, -, hfits, -, rfl⟩ := Accounts.charge_eq_ok_iff.mp ok
    exact hfits
  | refunded c => exact within_book hl fun m a => Accounts.refund?_release
  | released id n => exact within_book hl fun m a => Accounts.release?_release
  | @closed _ e _ _ _ freed =>
    have hb := Budget.within_release hl e.charged
    rwa [freed] at hb
  | reserved fits => exact Budget.within_reserve? fits
  | freed n => exact Budget.within_release hl n
  | unregistered | uncharged | absent | removed | missing | full => exact hl

theorem within_run (hl : l.used ≤ l.ceiling) (ks : List Call) :
    (l.run ks).used ≤ (l.run ks).ceiling := by
  induction ks generalizing l with
  | nil => exact hl
  | cons k ks ih => exact ih (within_step hl k)

/-- The ledger decides by the room that there is, and says how much that is. -/
structure Exact (l : Ledger) : Prop where
  registers : ∀ id n, (l.step (.register id n)).1 = .registered ↔
    l.entry? id = none ∧ l.used + n ≤ l.ceiling
  charges : ∀ id n cap, (∃ c, (l.step (.charge id n cap)).1 = .charged c) ↔
    ∃ e, l.entry? id = some e ∧ (cap = 0 ∨ n = 0 ∨ e.packetBytes + n ≤ cap) ∧
      l.used + n ≤ l.ceiling
  /-- The bytes in use, the table and the next epoch are as before. -/
  unchanged : ∀ k f, (l.step k).1 = .rejected f → (l.step k).2.accounts = l.accounts
  /-- Asked again at once, the ledger grants what it has named and less, and no more. -/
  named : ∀ (r : Request) n asked available,
    (l.step (r.call n)).1 = .rejected (.budgetExhausted asked available) →
      asked = n ∧ available < asked ∧
        ∀ m, ((l.step (r.call n)).2.step (r.call m)).1.granted = true ↔ m ≤ available

/-- However a ledger has been used, past its accounting too, it is exact. -/
theorem refusals_are_exact (ceiling : Nat) (ks : List Call) :
    ((ofCeiling ceiling).run ks).Exact := by
  have hl : ((ofCeiling ceiling).run ks).used ≤ ((ofCeiling ceiling).run ks).ceiling :=
    within_run (Nat.zero_le _) ks
  generalize (ofCeiling ceiling).run ks = l at hl
  refine ⟨fun id n => registered_iff, fun id n cap => charged_iff, fun k f => accounts_of_rejected,
    fun r n asked available h => ?_⟩
  obtain ⟨rfl, hroom⟩ := exhausted hl h
  have hsame := accounts_of_rejected h
  refine ⟨rfl, ?_, fun m => ?_⟩
  · -- The request itself has not been granted, so it is larger than what is named.
    apply Nat.not_le.mp
    intro hle
    have hg := granted_iff.mpr ((hroom asked).mpr hle)
    rw [h] at hg
    cases hg
  · rw [granted_iff, hsame]
    exact hroom m

/-- An entry that is past a cap still takes an empty packet, so the cap does not bound what the
entry and the packet come to. -/
theorem empty_packet_fits_past_cap :
    ¬ ∀ ceiling ks id n cap,
      (∃ c, (((ofCeiling ceiling).run ks).step (.charge id n cap)).1 = .charged c) ↔
        ∃ e, entry? ((ofCeiling ceiling).run ks) id = some e ∧
          (cap = 0 ∨ e.packetBytes + n ≤ cap) ∧
          ((ofCeiling ceiling).run ks).used + n ≤ ((ofCeiling ceiling).run ks).ceiling := by
  intro h
  have hg := (h 100 [.register ⟨7⟩ 0, .charge ⟨7⟩ 8 0] ⟨7⟩ 0 5).mp ⟨⟨⟨7⟩, 1, 0⟩, by decide⟩
  obtain ⟨e, he, hcap, -⟩ := hg
  obtain rfl : (⟨1, 0, 8, 1, 1⟩ : Entry) = e := by
    apply Option.some.inj
    rw [← he]
    decide
  exact absurd hcap (by decide)

end Ledger

end PacketBudget
