import PacketBudget.Proofs.Counting
import PacketBudget.Proofs.Interleaving

/-!
The moves of one call as the gauge of the registered connections sees them. A call takes an entry
on or off the table in one step and moves the gauge in a later one, and the gauge does not go below
zero. What a call has yet to do to the gauge makes up for the difference, but for a decrement that
finds the gauge at zero.
-/

namespace PacketBudget

/-- The counter that a tick changes. -/
def Tick.counter : Tick → Counter
  | .incr c | .add c _ | .decr c => c

namespace Ledger.Race

/-- The ticks that a call has yet to make. -/
def Progress.ticks : Progress → List Tick
  | .counting ts _ => ts
  | _ => []

/-- How often the call has yet to raise the gauge. -/
def Progress.ups (p : Progress) : Nat := p.ticks.count (.incr .activeConnections)

/-- How often the call has yet to lower the gauge. -/
def Progress.downs : Progress → Nat
  | .freeing _ => 1
  | p => p.ticks.count (.decr .activeConnections)

/-- The id that the call has registered and not counted yet. -/
def Caller.pending? (c : Caller) : Option ConnId :=
  match c.call with
  | .register id _ => if c.progress.ups = 0 then none else some id
  | _ => none

/-- The ticks of a call raise the gauge once at most, for an id that it has registered. -/
structure Caller.Steady (c : Caller) : Prop where
  keeps : ∀ id, c.call ≠ .remove id
  whole : ∀ n, .add .activeConnections n ∉ c.progress.ticks
  once : c.progress.ups ≤ 1
  registers : c.progress.ups ≠ 0 → ∃ id n, c.call = .register id n

/-- What a decision does to the table, and the ticks that it leaves to be made. The arguments after
the call are the table after it and how far the call has come. -/
inductive Decision (t : Table) (c : Call) : Table → Progress → Prop
  | opened {id : ConnId} {n : Nat} {e : Entry} {x : Answer} (registers : c = .register id n)
      (fresh : t.get? id = none) : Decision t c (t.put id e)
        (decided [.incr .connectionsAdmitted, .incr .activeConnections, .add .bytesReserved n] x)
  | closed {id : ConnId} {e : Entry} (closes : c = .close id) (found : t.get? id = some e) :
      Decision t c (t.erase id) (.freeing e)
  | kept (ts : List Tick) {x : Answer} (silent : ∀ k ∈ ts, k.counter ≠ .activeConnections) :
      Decision t c t (decided ts x)
  | changed {id : ConnId} {e e' : Entry} {ts : List Tick} {x : Answer}
      (found : t.get? id = some e) (silent : ∀ k ∈ ts, k.counter ≠ .activeConnections) :
      Decision t c (t.put id e') (decided ts x)

section Deciding

variable {a : Accounts} {c : Call}

theorem silent_fault (f : Fault) : ∀ k ∈ f.ticks, k.counter ≠ .activeConnections := by
  unfold Fault.ticks
  repeat' split
  all_goals decide

theorem returned_cases {r : Option (Nat × Accounts)}
    (hr : ∀ n a', r = some (n, a') → ∃ id e e', a.table.get? id = some e ∧
      a'.table = a.table.put id e') :
    Decision a.table c (decide.returned a r).1.table (decide.returned a r).2 := by
  rcases r with _ | ⟨n, a'⟩
  · exact .kept [] (List.forall_mem_nil _)
  · obtain ⟨id, e, e', he, ht⟩ := hr n a' rfl
    simp only [decide.returned, ht]
    exact .changed he (by simp [Tick.counter])

/-- A call is a registration or a close, or it does not show on the gauge. -/
theorem decide_cases (hc : ∀ id, c ≠ .remove id) :
    Decision a.table c (decide a c).1.table (decide a c).2 := by
  cases c with
  | register id n =>
    cases hr : a.register id n with
    | error f =>
      simp only [decide, hr]
      exact .kept _ (List.forall_mem_cons.mpr ⟨by decide, silent_fault f⟩)
    | ok a' =>
      obtain ⟨hn, -, rfl⟩ := Accounts.register_eq_ok_iff.mp hr
      simp only [decide, hr]
      exact .opened rfl (by simpa [Table.contains] using hn)
  | charge id n cap =>
    cases hr : a.charge id n cap with
    | error f =>
      simp only [decide, hr]
      exact .kept _ (List.forall_mem_cons.mpr ⟨by decide, silent_fault f⟩)
    | ok r =>
      obtain ⟨c, a'⟩ := r
      obtain ⟨e, he, -, -, -, rfl⟩ := Accounts.charge_eq_ok_iff.mp hr
      simp only [decide, hr]
      exact .changed he (by simp [chargeTicks, Tick.counter])
  | refund c =>
    refine returned_cases fun n a' h => ?_
    unfold Accounts.refund? at h
    split at h
    · cases h
    · rename_i e he
      split at h
      · cases h
        exact ⟨_, e, _, he, rfl⟩
      · cases h
  | release id n =>
    refine returned_cases fun m a' h => ?_
    unfold Accounts.release? at h
    split at h
    · cases h
    · rename_i e he
      split at h
      · cases h
      · cases h
        exact ⟨_, e, _, he, rfl⟩
  | close id =>
    cases he : a.table.get? id with
    | none =>
      simp only [decide, Accounts.remove?, he, Option.map_none]
      exact .kept [] (List.forall_mem_nil _)
    | some e =>
      simp only [decide, Accounts.remove?, he, Option.map_some]
      exact .closed rfl he
  | remove id => exact absurd rfl (hc id)
  | reserve n =>
    cases hr : a.budget.reserve? n with
    | none =>
      simp only [decide, hr]
      exact .kept [] (List.forall_mem_nil _)
    | some b =>
      simp only [decide, hr]
      exact .kept [] (List.forall_mem_nil _)
  | free n => exact .kept [] (List.forall_mem_nil _)

end Deciding

theorem ticks_decided (ts : List Tick) (x : Answer) : (decided ts x).ticks = ts := by
  unfold decided
  split
  · subst ts
    rfl
  · rfl

theorem ups_decided (ts : List Tick) (x : Answer) :
    (decided ts x).ups = ts.count (.incr .activeConnections) := by
  rw [Progress.ups, ticks_decided]

theorem downs_decided (ts : List Tick) (x : Answer) :
    (decided ts x).downs = ts.count (.decr .activeConnections) := by
  unfold decided
  split
  · subst ts
    rfl
  · rfl

theorem count_silent {ts : List Tick} (h : ∀ k ∈ ts, k.counter ≠ .activeConnections) :
    ts.count (.incr .activeConnections) = 0 ∧ ts.count (.decr .activeConnections) = 0 :=
  ⟨List.count_eq_zero.mpr fun hm => h _ hm rfl, List.count_eq_zero.mpr fun hm => h _ hm rfl⟩

namespace Decision

variable {t t' : Table} {c : Call} {p : Progress}

theorem steady (h : Decision t c t' p) : (∀ n, .add .activeConnections n ∉ p.ticks) ∧
    p.ups ≤ 1 ∧ (p.ups ≠ 0 → ∃ id n, c = .register id n) := by
  cases h with
  | opened registers fresh =>
    rw [ups_decided, ticks_decided]
    exact ⟨by simp, by simp, fun _ => ⟨_, _, registers⟩⟩
  | closed closes found => exact ⟨fun _ => List.not_mem_nil, Nat.zero_le 1, fun h => absurd rfl h⟩
  | kept _ silent | changed found silent =>
    rw [ups_decided, ticks_decided, (count_silent silent).1]
    exact ⟨fun n hm => silent _ hm rfl, Nat.zero_le 1, fun h => absurd rfl h⟩

/-- With what the call has yet to do to the gauge, as many connections are counted as there are. -/
theorem size (h : Decision t c t' p) (hs : t.Sound) :
    t'.Sound ∧ t'.size + p.downs = t.size + p.ups := by
  cases h with
  | opened registers fresh =>
    rw [ups_decided, downs_decided, Table.size_put_new hs fresh]
    exact ⟨hs.put _ _, by simp⟩
  | closed closes found => exact ⟨hs.erase _, Table.size_erase hs found⟩
  | kept _ silent =>
    rw [ups_decided, downs_decided, (count_silent silent).1, (count_silent silent).2]
    exact ⟨hs, rfl⟩
  | changed found silent =>
    rw [ups_decided, downs_decided, (count_silent silent).1, (count_silent silent).2,
      Table.size_put_old hs found]
    exact ⟨hs.put _ _, rfl⟩

end Decision

variable {l : Ledger} {c : Caller}

theorem advance_steady (h : c.Steady) : (advance l c).2.Steady := by
  obtain ⟨call, p⟩ := c
  obtain ⟨keeps, whole, once, registers⟩ := h
  cases p with
  | waiting =>
    obtain ⟨hw, ho, hr⟩ := (decide_cases (a := l.accounts) keeps).steady
    exact ⟨keeps, hw, ho, hr⟩
  | freeing e =>
    simp only [advance]
    refine ⟨keeps, ?_, ?_, ?_⟩
    · simp [ticks_decided, closeTicks]
    · simp [ups_decided, closeTicks]
    · simp [ups_decided, closeTicks]
  | counting ts x =>
    cases ts with
    | nil => exact ⟨keeps, fun _ => List.not_mem_nil, Nat.zero_le 1, fun h => absurd rfl h⟩
    | cons k ts =>
      have hle : ts.count (.incr .activeConnections) ≤ (k :: ts).count (.incr .activeConnections) :=
        (List.sublist_cons_self k ts).count_le _
      simp only [advance]
      refine ⟨keeps, fun n hm => ?_, ?_, fun hz => registers ?_⟩
      · rw [ticks_decided] at hm
        exact whole n (List.mem_cons_of_mem k hm)
      · rw [ups_decided]
        exact Nat.le_trans hle once
      · rw [ups_decided] at hz
        simp only [Progress.ups, Progress.ticks] at hle ⊢
        omega
  | answered x => exact ⟨keeps, whole, once, registers⟩

/-- Whether the next move of the call is a decrement of a gauge that shows none. -/
def wastes (l : Ledger) (c : Caller) : Bool :=
  c.progress.ticks.head? = some (.decr .activeConnections) && l.counters.activeConnections = 0

/-- The gauge `g`, with `u` increments still to be made, shows that many. -/
def Shows (g : UInt64) (u n : Nat) : Prop := g + UInt64.ofNat u = UInt64.ofNat n

section Showing

variable {g : UInt64} {u u' n n' : Nat}

theorem Shows.shift (h : Shows g u n) (hn : u' + n = u + n') : Shows g u' n' := by
  have hn := congrArg UInt64.ofNat hn
  simp only [UInt64.ofNat_add] at hn
  unfold Shows at *
  grind

theorem Shows.up (h : Shows g (u + 1) n) : Shows (g + 1) u n := by
  unfold Shows at *
  rw [UInt64.ofNat_add] at h
  have h1 : UInt64.ofNat 1 = 1 := rfl
  grind

theorem Shows.down (h : Shows g u (n + 1)) : Shows (g - 1) u n := by
  unfold Shows at *
  rw [UInt64.ofNat_add n] at h
  have h1 : UInt64.ofNat 1 = 1 := rfl
  grind

end Showing

/-- A tick of another counter does not show on the gauge. -/
theorem gauge_tick_of_ne {s : Counters} {k : Tick} (h : k.counter ≠ .activeConnections) :
    (s.tick k).activeConnections = s.activeConnections := by
  have hg : (s.tick k).get .activeConnections = s.get .activeConnections := by
    cases k <;> simp only [Counters.tick, Counters.get_set] <;> exact if_neg (Ne.symm h)
  exact hg

/-- A tick is made, by a call that has `ts` to make besides; `u` and `n` are what the others and the
table come to. -/
theorem tick_shows {k : Tick} {ts : List Tick} {x : Answer} (call : Call) {u n : Nat}
    (whole : ∀ j, k ≠ .add .activeConnections j)
    (hg : Shows l.counters.activeConnections (u + (k :: ts).count (.incr .activeConnections))
      (n + (k :: ts).count (.decr .activeConnections))) :
    Shows (l.counters.tick k).activeConnections (u + ts.count (.incr .activeConnections))
      (n + ts.count (.decr .activeConnections) +
        (wastes l ⟨call, .counting (k :: ts) x⟩).toNat) := by
  by_cases hk : k.counter = .activeConnections
  · cases k with
    | add k j =>
      obtain rfl : k = .activeConnections := hk
      exact absurd rfl (whole j)
    | incr k =>
      obtain rfl : k = .activeConnections := hk
      rw [List.count_cons_self, List.count_cons_of_ne (by decide)] at hg
      exact Shows.up hg
    | decr k =>
      obtain rfl : k = .activeConnections := hk
      rw [List.count_cons_self, List.count_cons_of_ne (by decide)] at hg
      have hget : (l.counters.tick (.decr .activeConnections)).activeConnections =
          if l.counters.activeConnections = 0 then 0 else l.counters.activeConnections - 1 := rfl
      rw [hget]
      by_cases hz : l.counters.activeConnections = 0
      · have hw : wastes l ⟨call, .counting (.decr .activeConnections :: ts) x⟩ = true := by
          simp [wastes, Progress.ticks, hz]
        rw [hw, if_pos hz]
        rw [hz] at hg
        exact hg
      · have hw : wastes l ⟨call, .counting (.decr .activeConnections :: ts) x⟩ = false := by
          simp [wastes, Progress.ticks, hz]
        rw [hw, if_neg hz]
        exact Shows.down hg
  · have hinc : k ≠ .incr .activeConnections := by
      rintro rfl
      exact hk rfl
    have hdec : k ≠ .decr .activeConnections := by
      rintro rfl
      exact hk rfl
    have hw : wastes l ⟨call, .counting (k :: ts) x⟩ = false := by
      simp [wastes, Progress.ticks, hdec]
    rw [hw, gauge_tick_of_ne hk]
    rwa [List.count_cons_of_ne hinc, List.count_cons_of_ne hdec] at hg

/-- A move of one call, with `m` and `n` for what the others have yet to do to the gauge. -/
theorem advance_shows (hs : l.accounts.table.Sound) (h : c.Steady) {m n lost : Nat}
    (hg : Shows l.counters.activeConnections (m + c.progress.ups)
      (l.accounts.table.size + (n + c.progress.downs) + lost)) :
    (advance l c).1.accounts.table.Sound ∧
      Shows (advance l c).1.counters.activeConnections (m + (advance l c).2.progress.ups)
        ((advance l c).1.accounts.table.size + (n + (advance l c).2.progress.downs) +
          (lost + (wastes l c).toNat)) := by
  obtain ⟨call, p⟩ := c
  cases p with
  | waiting =>
    -- The gauge stays; the table and what the call has yet to do change by the same.
    obtain ⟨hsound, hsize⟩ := (decide_cases (a := l.accounts) h.keeps).size hs
    refine ⟨hsound, hg.shift ?_⟩
    simp only at hsize
    change m + (decide l.accounts call).2.ups + (l.accounts.table.size + (n + 0) + lost) =
      m + 0 + ((decide l.accounts call).1.table.size + (n + (decide l.accounts call).2.downs) +
        (lost + 0))
    omega
  | freeing e =>
    refine ⟨hs, hg.shift ?_⟩
    simp only [advance, ups_decided, downs_decided, closeTicks]
    rfl
  | counting ts x =>
    cases ts with
    | nil => exact ⟨hs, hg⟩
    | cons k ts =>
      have hwhole : ∀ j, k ≠ .add .activeConnections j := by
        rintro j rfl
        exact h.whole j List.mem_cons_self
      have hbefore : Shows l.counters.activeConnections
          (m + (k :: ts).count (.incr .activeConnections))
          (l.accounts.table.size + n + lost + (k :: ts).count (.decr .activeConnections)) := by
        refine hg.shift ?_
        simp only [Progress.ups, Progress.downs, Progress.ticks]
        omega
      refine ⟨hs, (tick_shows (x := x) call hwhole hbefore).shift ?_⟩
      simp only [advance, ups_decided, downs_decided, accounts_tickAll]
      omega
  | answered x => exact ⟨hs, hg⟩

/-- What a call may yet take off the gauge. -/
def Progress.weight : Progress → Nat
  | .waiting => 1
  | p => p.downs

theorem downs_le_weight (p : Progress) : p.downs ≤ p.weight := by
  cases p with
  | waiting => exact Nat.zero_le 1
  | freeing | counting | answered => exact Nat.le_refl _

theorem weight_decided (ts : List Tick) (x : Answer) :
    (decided ts x).weight = ts.count (.decr .activeConnections) := by
  rw [← downs_decided ts x]
  unfold decided
  split <;> rfl

theorem Decision.weight_eq {t t' : Table} {c : Call} {p : Progress} (h : Decision t c t' p) :
    p.weight = p.downs := by
  cases h with
  | closed => rfl
  | opened | kept | changed => rw [weight_decided, downs_decided]

/-- No more can be taken off or lost than there is. -/
theorem advance_weight (hs : l.accounts.table.Sound) (h : c.Steady) :
    (advance l c).1.accounts.table.size + (advance l c).2.progress.weight + (wastes l c).toNat ≤
      l.accounts.table.size + c.progress.weight := by
  obtain ⟨call, p⟩ := c
  cases p with
  | waiting =>
    have hd := decide_cases (a := l.accounts) h.keeps
    have hweight := hd.weight_eq
    obtain ⟨-, hsize⟩ := hd.size hs
    obtain ⟨-, honce, -⟩ := hd.steady
    change (decide l.accounts call).1.table.size + (decide l.accounts call).2.weight + 0 ≤
      l.accounts.table.size + 1
    simp only at hsize honce hweight
    omega
  | freeing e =>
    simp only [advance, weight_decided, closeTicks]
    exact Nat.le_refl _
  | counting ts x =>
    cases ts with
    | nil => exact Nat.le_refl _
    | cons k ts =>
      have hweight : (Progress.counting (k :: ts) x).weight =
          (k :: ts).count (.decr .activeConnections) := rfl
      simp only [advance, weight_decided, accounts_tickAll, hweight]
      by_cases hk : k = .decr .activeConnections
      · have hw := Bool.toNat_le (wastes l ⟨call, .counting (k :: ts) x⟩)
        rw [hk, List.count_cons_self, ← hk]
        omega
      · have hw : wastes l ⟨call, .counting (k :: ts) x⟩ = false := by
          simp [wastes, Progress.ticks, hk]
        rw [hw, List.count_cons_of_ne hk]
        exact Nat.le_refl _
  | answered x => exact Nat.le_refl _

section Waiting

variable {ids : List ConnId}

theorem pending?_waiting {call : Call} : (⟨call, .waiting⟩ : Caller).pending? = none := by
  cases call <;> rfl

theorem pending?_register (id : ConnId) (n : Nat) (p : Progress) :
    (⟨.register id n, p⟩ : Caller).pending? = if p.ups = 0 then none else some id := rfl

theorem pending?_eq_none (h : c.progress.ups = 0) : c.pending? = none := by
  unfold Caller.pending?
  split
  · rw [if_pos h]
  · rfl

theorem Caller.Steady.ups_le (h : c.Steady) : c.progress.ups ≤ c.pending?.toList.length := by
  by_cases hz : c.progress.ups = 0
  · omega
  · obtain ⟨id, n, hc⟩ := h.registers hz
    rw [Caller.pending?, hc]
    simp only [hz, ↓reduceIte, Option.toList_some, List.length_singleton]
    exact h.once

/-- A decision takes on the id that it has registered, and no other call loses its own. -/
theorem Decision.pending {t t' : Table} {call : Call} {p : Progress} (h : Decision t call t' p)
    (hn : ids.Nodup) (hr : ∀ id ∈ ids, t.get? id ≠ none)
    (patient : ∀ id, call = .close id → id ∉ ids) :
    ((⟨call, p⟩ : Caller).pending?.toList ++ ids).Nodup ∧
      ∀ id ∈ (⟨call, p⟩ : Caller).pending?.toList ++ ids, t'.get? id ≠ none := by
  cases h with
  | @opened id n e x registers fresh =>
    have hp : (⟨call, decided [.incr .connectionsAdmitted, .incr .activeConnections,
        .add .bytesReserved n] x⟩ : Caller).pending? = some id := by
      rw [Caller.pending?, registers]
      simp [ups_decided]
    rw [hp]
    refine ⟨List.nodup_cons.mpr ⟨fun hm => hr id hm fresh, hn⟩, ?_⟩
    intro j hj
    rw [Table.get?_put]
    split
    · nofun
    · rename_i hne
      exact hr j ((List.mem_cons.mp hj).resolve_left hne)
  | @closed id e closes found =>
    rw [pending?_eq_none rfl]
    refine ⟨hn, fun j hj => ?_⟩
    have hne : j ≠ id := by
      rintro rfl
      exact patient j closes hj
    rw [Table.get?_erase, if_neg hne]
    exact hr j hj
  | kept _ silent =>
    rw [pending?_eq_none (by rw [ups_decided]; exact (count_silent silent).1)]
    exact ⟨hn, hr⟩
  | changed found silent =>
    rw [pending?_eq_none (by rw [ups_decided]; exact (count_silent silent).1)]
    refine ⟨hn, fun j hj => ?_⟩
    rw [Table.get?_put]
    split
    · nofun
    · exact hr j hj

/-- A call that has decided takes on no id any more. -/
theorem pending?_advance (hc : c.progress ≠ .waiting) :
    (advance l c).1.accounts.table = l.accounts.table ∧
      ((advance l c).2.pending? = c.pending? ∨ (advance l c).2.pending? = none) := by
  obtain ⟨call, p⟩ := c
  cases p with
  | waiting => exact absurd rfl hc
  | freeing e =>
    refine ⟨rfl, Or.inr (pending?_eq_none ?_)⟩
    simp only [advance, ups_decided, closeTicks]
    rfl
  | counting ts x =>
    cases ts with
    | nil => exact ⟨rfl, Or.inr (pending?_eq_none rfl)⟩
    | cons k ts =>
      refine ⟨rfl, ?_⟩
      by_cases hz : ts.count (.incr .activeConnections) = 0
      · exact Or.inr (pending?_eq_none (by simpa only [advance, ups_decided] using hz))
      · left
        have hle : ts.count (.incr .activeConnections) ≤
            (k :: ts).count (.incr .activeConnections) := (List.sublist_cons_self k ts).count_le _
        have hcons : (Progress.counting (k :: ts) x).ups ≠ 0 := by
          simp only [Progress.ups, Progress.ticks]
          omega
        have hrest : (decided ts x).ups ≠ 0 := by rwa [ups_decided]
        cases call with
        | register id n =>
          exact (pending?_register id n _ |>.trans (if_neg hrest)).trans
            (pending?_register id n _ |>.trans (if_neg hcons)).symm
        | charge | refund | release | close | remove | reserve | free => rfl
  | answered x => exact ⟨rfl, Or.inl rfl⟩

theorem advance_pending (h : c.Steady) (hn : (c.pending?.toList ++ ids).Nodup)
    (hr : ∀ id ∈ c.pending?.toList ++ ids, l.accounts.table.get? id ≠ none)
    (patient : ∀ id, c = ⟨.close id, .waiting⟩ → id ∉ ids) :
    ((advance l c).2.pending?.toList ++ ids).Nodup ∧
      ∀ id ∈ (advance l c).2.pending?.toList ++ ids,
        (advance l c).1.accounts.table.get? id ≠ none := by
  by_cases hc : c.progress = .waiting
  · obtain ⟨call, p⟩ := c
    obtain rfl : p = .waiting := hc
    rw [pending?_waiting] at hn hr
    exact (decide_cases (a := l.accounts) h.keeps).pending hn hr fun id he =>
      patient id (congrArg (Caller.mk · .waiting) he)
  · obtain ⟨ht, hp | hp⟩ := pending?_advance (l := l) hc
    · rw [ht, hp]
      exact ⟨hn, hr⟩
    · rw [ht, hp]
      exact ⟨(List.nodup_append.mp hn).2.1, fun id hid => hr id (List.mem_append_right _ hid)⟩

end Waiting

end Ledger.Race

end PacketBudget
