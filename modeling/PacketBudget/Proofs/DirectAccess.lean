import PacketBudget.Proofs.Decisions
import PacketBudget.Proofs.Refusals

/-!
A ledger whose host also reaches past its accounting: to the budget, where it reserves and frees
bytes of its own, and to the table, where it takes entries off. The table and the budget then
disagree, and a return may find less in use than its entry holds. Every answer is still true of the
bytes in use, and the counters of bytes still come to them, with what the host has done itself.
-/

namespace PacketBudget

namespace Counters

/-- Ticks of other counters leave a counter alone. -/
theorem get_tickAll_of_ne {c : Counter} {ts : List Tick} (s : Counters)
    (h : ∀ t ∈ ts, t.counter ≠ c) : (s.tickAll ts).get c = s.get c := by
  induction ts generalizing s with
  | nil => rfl
  | cons t ts ih =>
    obtain ⟨ht, hts⟩ := List.forall_mem_cons.mp h
    have htick : (s.tick t).get c = s.get c := by
      cases t <;> simp only [tick, get_set] <;> exact if_neg (Ne.symm ht)
    rw [← htick]
    exact ih (s.tick t) hts

/-- An amount is added behind ticks of other counters. -/
theorem get_tickAll_concat {c d : Counter} {ts : List Tick} {n : Nat} (s : Counters)
    (h : ∀ t ∈ ts, t.counter ≠ c) :
    (s.tickAll (ts ++ [.add d n])).get c =
      s.get c + UInt64.ofNat (if c = d then n else 0) := by
  rw [tickAll_append, ← s.get_tickAll_of_ne h]
  simp only [tickAll, List.foldl_cons, List.foldl_nil, tick, get_set]
  split
  · rename_i hc
    rw [hc]
  · exact (UInt64.add_zero _).symm

end Counters

/-- The ticks count no bytes. -/
def Silent (ts : List Tick) : Prop :=
  ∀ t ∈ ts, t.counter ≠ .bytesReserved ∧ t.counter ≠ .bytesReleased

instance (ts : List Tick) : Decidable (Silent ts) :=
  inferInstanceAs (Decidable (∀ t ∈ ts, t.counter ≠ .bytesReserved ∧ t.counter ≠ .bytesReleased))

theorem silent_nil : Silent [] := List.forall_mem_nil _

/-- A rejection ticks its own counter and perhaps one for its fault, none of which counts bytes. -/
theorem silent_rejection {c : Counter} (hc : c ≠ .bytesReserved ∧ c ≠ .bytesReleased)
    (f : Fault) : Silent (.incr c :: f.ticks) := by
  refine List.forall_mem_cons.mpr ⟨hc, ?_⟩
  unfold Fault.ticks
  repeat' split
  all_goals decide

namespace Ledger

/-- The bytes that a call asks for. -/
def Call.asked : Call → Nat
  | .register _ n | .charge _ n _ | .reserve n => n
  | _ => 0

/-- Whether the call goes past the accounting. -/
def Call.isDirect : Call → Bool
  | .remove _ | .reserve _ | .free _ => true
  | _ => false

/-- Whether the call returns bytes, of whatever there is to return. -/
def Call.returns : Call → Bool
  | .refund _ | .release .. | .free _ => true
  | _ => false

/-- Whether the answer is that the bytes asked for are reserved. -/
def Answer.reserves : Answer → Bool
  | .registered | .charged _ | .reserved true => true
  | _ => false

/-- The bytes that came free by the answer. -/
def Answer.bytesFreed : Answer → Nat
  | .freed n => n
  | _ => 0

/-- The bytes that a call has reserved by its answer. -/
def bytesReserved (k : Call) (x : Answer) : Nat := if x.reserves then k.asked else 0

/-- The calls with their answers, in order. -/
def answered (l : Ledger) : List Call → List (Call × Answer)
  | [] => []
  | k :: ks => (k, (l.step k).1) :: answered (l.step k).2 ks

/-- The bytes that the host has reserved past the accounting. -/
def directlyReserved (es : List (Call × Answer)) : Nat :=
  total ((es.filter (·.1.isDirect)).map fun e => bytesReserved e.1 e.2)

/-- The bytes that the host has freed past the accounting. -/
def directlyFreed (es : List (Call × Answer)) : Nat :=
  total ((es.filter (·.1.isDirect)).map fun e => e.2.bytesFreed)

/-- A call with its answer, as the bytes in use and the counters of bytes show it. -/
structure Flows (l : Ledger) (k : Call) (x : Answer) (l' : Ledger) : Prop where
  ceiling : l'.ceiling = l.ceiling
  used : l'.used + x.bytesFreed = l.used + bytesReserved k x
  reserved : l'.counters.bytesReserved = l.counters.bytesReserved +
    UInt64.ofNat (if k.isDirect then 0 else bytesReserved k x)
  released : l'.counters.bytesReleased = l.counters.bytesReleased +
    UInt64.ofNat (if k.isDirect then 0 else x.bytesFreed)

variable {l : Ledger} {k : Call} {x : Answer} {a : Accounts} {n : Nat}

/-- A call that neither reserves nor frees any bytes counts none. -/
theorem flows_nothing (ts : List Tick) (hb : a.budget = l.accounts.budget) (silent : Silent ts)
    (hr : bytesReserved k x = 0) (hf : x.bytesFreed = 0) :
    Flows l k x { l.tickAll ts with accounts := a } := by
  have hused : a.budget.used = l.used := congrArg Budget.used hb
  refine ⟨congrArg Budget.ceiling hb, ?_, ?_, ?_⟩
  · rw [hr, hf]
    exact hused
  · rw [hr, ite_self]
    exact (l.counters.get_tickAll_of_ne fun t ht => (silent t ht).1).trans (UInt64.add_zero _).symm
  · rw [hf, ite_self]
    exact (l.counters.get_tickAll_of_ne fun t ht => (silent t ht).2).trans (UInt64.add_zero _).symm

/-- A call whose last tick counts the bytes that it moves. -/
theorem flows_counted (ts : List Tick) (d : Counter) (m : Nat) (silent : Silent ts)
    (hceiling : a.budget.ceiling = l.ceiling)
    (hused : a.budget.used + x.bytesFreed = l.used + bytesReserved k x)
    (hreserved : (if k.isDirect then 0 else bytesReserved k x) = if .bytesReserved = d then m else 0)
    (hreleased : (if k.isDirect then 0 else x.bytesFreed) = if .bytesReleased = d then m else 0) :
    Flows l k x { l.tickAll (ts ++ [.add d m]) with accounts := a } := by
  refine ⟨hceiling, hused, ?_, ?_⟩
  · rw [hreserved]
    exact l.counters.get_tickAll_concat fun t ht => (silent t ht).1
  · rw [hreleased]
    exact l.counters.get_tickAll_concat fun t ht => (silent t ht).2

/-- A request that is granted counts what it has reserved. -/
theorem flows_granted (ts : List Tick)
    (hb : a.budget = { l.accounts.budget with used := l.used + n }) (silent : Silent ts)
    (hr : bytesReserved k x = n) (hf : x.bytesFreed = 0) (hd : k.isDirect = false) :
    Flows l k x { l.tickAll (ts ++ [.add .bytesReserved n]) with accounts := a } := by
  refine flows_counted ts _ n silent (congrArg (·.ceiling) hb) ?_ ?_ ?_
  · rw [hr, hf]
    exact congrArg Budget.used hb
  · rw [hr, hd]
    rfl
  · rw [hf, hd]
    rfl

/-- A return counts what it has freed, which may be less than it gives back. -/
theorem flows_returned (ts : List Tick) (hb : a.budget = (l.accounts.budget.release n).2)
    (silent : Silent ts) (hr : bytesReserved k (.freed (l.accounts.budget.release n).1) = 0)
    (hd : k.isDirect = false) :
    Flows l k (.freed (l.accounts.budget.release n).1)
      { l.tickAll (ts ++ [.add .bytesReleased (l.accounts.budget.release n).1]) with
        accounts := a } := by
  refine flows_counted ts _ _ silent (congrArg (·.ceiling) hb) ?_ ?_ ?_
  · rw [hr]
    exact (congrArg (·.used + _) hb).trans (l.accounts.budget.used_release n)
  · rw [hr, hd]
    rfl
  · rw [hd]
    rfl

/-- What a refund or a release makes of the accounts is a release of the budget. -/
theorem flows_book {r : Option (Nat × Accounts)}
    (hr : ∀ m a, r = some (m, a) → ∃ n, m = (l.accounts.budget.release n).1 ∧
      a.budget = (l.accounts.budget.release n).2)
    (hk : k.isDirect = false) : Flows l k (.freed (l.book r).1) (l.book r).2 := by
  rcases r with _ | ⟨m, a⟩
  · exact flows_nothing [] rfl silent_nil (by simp [bytesReserved, Answer.reserves]) rfl
  · obtain ⟨n, rfl, hb⟩ := hr m a rfl
    exact flows_returned [] hb silent_nil (by simp [bytesReserved, Answer.reserves]) hk

theorem step_flows (l : Ledger) (k : Call) : Flows l k (l.step k).1 (l.step k).2 := by
  have hs := step_stepped l k
  generalize l.step k = r at hs ⊢
  cases hs with
  | registered ok =>
    obtain ⟨-, -, rfl⟩ := Accounts.register_eq_ok_iff.mp ok
    exact flows_granted [.incr .connectionsAdmitted, .incr .activeConnections] rfl (by decide)
      rfl rfl rfl
  | charged ok =>
    obtain ⟨e, -, -, -, -, rfl⟩ := Accounts.charge_eq_ok_iff.mp ok
    exact flows_granted [.incr .packetsAdmitted] rfl (by decide) rfl rfl rfl
  | @unregistered _ _ f =>
    exact flows_nothing _ rfl (silent_rejection (by decide) f) rfl rfl
  | @uncharged _ _ _ f =>
    exact flows_nothing _ rfl (silent_rejection (by decide) f) rfl rfl
  | refunded c => exact flows_book (fun m a => Accounts.refund?_release) rfl
  | released id n => exact flows_book (fun m a => Accounts.release?_release) rfl
  | closed found freed =>
    cases freed
    exact flows_returned [.decr .activeConnections] rfl (by decide) rfl rfl
  | absent | removed | missing | full => exact flows_nothing [] rfl silent_nil rfl rfl
  | reserved fits =>
    obtain ⟨-, rfl⟩ := Budget.reserve?_eq_some_iff.mp fits
    exact ⟨rfl, rfl, (UInt64.add_zero _).symm, (UInt64.add_zero _).symm⟩
  | freed n =>
    exact ⟨rfl, l.accounts.budget.used_release n, (UInt64.add_zero _).symm,
      (UInt64.add_zero _).symm⟩

variable {es : List (Call × Answer)}

/-- The counters of bytes come to the bytes in use, with what was done past the accounting in the
calls `es`. -/
def Booked (l : Ledger) (es : List (Call × Answer)) : Prop :=
  l.counters.bytesReserved + UInt64.ofNat (directlyReserved es) =
    UInt64.ofNat l.used + l.counters.bytesReleased + UInt64.ofNat (directlyFreed es)

theorem directlyReserved_concat (es : List (Call × Answer)) (k : Call) (x : Answer) :
    directlyReserved (es ++ [(k, x)]) =
      directlyReserved es + if k.isDirect then bytesReserved k x else 0 := by
  simp only [directlyReserved, List.filter_append, List.map_append, total_append]
  cases hd : k.isDirect <;> simp [hd, total]

theorem directlyFreed_concat (es : List (Call × Answer)) (k : Call) (x : Answer) :
    directlyFreed (es ++ [(k, x)]) =
      directlyFreed es + if k.isDirect then x.bytesFreed else 0 := by
  simp only [directlyFreed, List.filter_append, List.map_append, total_append]
  cases hd : k.isDirect <;> simp [hd, total]

/-- What a call moves is counted, or else it is among what was done past the accounting. -/
theorem Booked.step (h : l.Booked es) (k : Call) :
    (l.step k).2.Booked (es ++ [(k, (l.step k).1)]) := by
  obtain ⟨-, hused, hreserved, hreleased⟩ := step_flows l k
  have hused := congrArg UInt64.ofNat hused
  simp only [Booked, UInt64.ofNat_add, directlyReserved_concat, directlyFreed_concat] at *
  rw [hreserved, hreleased]
  cases k.isDirect <;> simp only [↓reduceIte, Bool.false_eq_true] <;> grind

theorem booked_new (ceiling : Nat) : (ofCeiling ceiling).Booked [] := rfl

theorem Booked.run (h : l.Booked es) (ks : List Call) :
    (l.run ks).Booked (es ++ l.answered ks) := by
  induction ks generalizing l es with
  | nil =>
    rw [answered, List.append_nil]
    exact h
  | cons k ks ih =>
    rw [answered, List.append_cons]
    exact ih (h.step k)

theorem ceiling_run (l : Ledger) (ks : List Call) : (l.run ks).ceiling = l.ceiling := by
  induction ks generalizing l with
  | nil => rfl
  | cons k ks ih => exact (ih _).trans (step_flows l k).ceiling

theorem step_returns (l : Ledger) (h : k.returns = true) : ∃ n, (l.step k).1 = .freed n := by
  cases k with
  | refund | release | free => exact ⟨_, rfl⟩
  | register | charge | close | remove | reserve => cases h

theorem step_close (l : Ledger) (id : ConnId) :
    (∃ n, (l.step (.close id)).1 = .freed n) ∨
      l.entry? id = none ∧ l.step (.close id) = (.absent, l) := by
  have hs := step_stepped l (.close id)
  generalize l.step (.close id) = r at hs ⊢
  cases hs with
  | closed => exact Or.inl ⟨_, rfl⟩
  | absent none => exact Or.inr ⟨none, rfl⟩

/-- What the ledger answers and counts is true of the bytes in use, after the calls `es` on one that
began with nothing in use under `ceiling`. -/
structure Truthful (l : Ledger) (ceiling : Nat) (es : List (Call × Answer)) : Prop where
  fixed : l.ceiling = ceiling
  within : l.used ≤ ceiling
  returns : ∀ k : Call, k.returns = true → ∃ n, (l.step k).1 = .freed n
  /-- A close is a return too, if there is something to close. -/
  closes : ∀ id, (∃ n, (l.step (.close id)).1 = .freed n) ∨
    l.entry? id = none ∧ l.step (.close id) = (.absent, l)
  lowers : ∀ k n, (l.step k).1 = .freed n → (l.step k).2.used + n = l.used
  raises : ∀ k, (l.step k).1.reserves = true → (l.step k).2.used = l.used + k.asked
  keeps : ∀ k, (l.step k).1.reserves = false → (∀ n, (l.step k).1 ≠ .freed n) →
    (l.step k).2.used = l.used
  /-- Up to where the counters come round. -/
  counted : l.counters.bytesReserved - l.counters.bytesReleased +
    UInt64.ofNat (directlyReserved es) - UInt64.ofNat (directlyFreed es) = UInt64.ofNat l.used

/-- However a host goes past the accounting, the bytes in use stay within the ceiling, each call
answers by how much it has raised or lowered them, and the counters account for them. -/
theorem direct_access_stays_truthful (ceiling : Nat) (ks : List Call) :
    ((ofCeiling ceiling).run ks).Truthful ceiling ((ofCeiling ceiling).answered ks) := by
  have hceiling := ceiling_run (ofCeiling ceiling) ks
  have hwithin : ((ofCeiling ceiling).run ks).used ≤ ((ofCeiling ceiling).run ks).ceiling :=
    within_run (Nat.zero_le _) ks
  have hbooked := (booked_new ceiling).run ks
  rw [hceiling] at hwithin
  generalize (ofCeiling ceiling).run ks = l at hceiling hwithin hbooked
  refine ⟨hceiling, hwithin, fun k => step_returns l, step_close l, fun k n h => ?_, fun k h => ?_,
    fun k hr hf => ?_, ?_⟩
  · have hused := (step_flows l k).used
    rw [h] at hused
    exact hused
  · have hused := (step_flows l k).used
    generalize (l.step k).1 = x at h hused
    rw [bytesReserved, if_pos h] at hused
    cases x with
    | registered | charged | reserved => exact hused
    | rejected | freed | absent | removed => cases h
  · have hused := (step_flows l k).used
    generalize (l.step k).1 = x at hr hf hused
    rw [bytesReserved, hr] at hused
    cases x with
    | freed n => exact absurd rfl (hf n)
    | registered | charged | reserved | rejected | absent | removed => exact hused
  · rw [Booked, List.nil_append] at hbooked
    grind

/-- The host frees bytes that a packet holds. Its return finds too little in use, and the close
finds nothing. -/
theorem direct_access_stays_truthful_of_clamped_returns :
    let l := (ofCeiling 100).run [.register ⟨7⟩ 10, .charge ⟨7⟩ 30 0, .reserve 20, .free 55]
    l.Truthful 100 ((ofCeiling 100).answered
      [.register ⟨7⟩ 10, .charge ⟨7⟩ 30 0, .reserve 20, .free 55]) ∧
      (l.step (.refund ⟨⟨7⟩, 1, 30⟩)).1 = .freed 5 ∧
      (l.step (.refund ⟨⟨7⟩, 1, 30⟩)).2.used = 0 := by
  intro l
  have ht : l.Truthful 100 _ := direct_access_stays_truthful 100 _
  have hr : (l.step (.refund ⟨⟨7⟩, 1, 30⟩)).1 = .freed 5 := by decide
  have hlow := ht.lowers _ _ hr
  refine ⟨ht, hr, Nat.add_right_cancel (hlow.trans ?_)⟩
  decide

end Ledger

end PacketBudget
