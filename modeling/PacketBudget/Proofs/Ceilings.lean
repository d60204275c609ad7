import Mathlib.Data.List.Forall2
import PacketBudget.Proofs.FirstHost
import PacketBudget.Proofs.Orders

/-!
One script under two ceilings. The ceiling shows only in what it refuses: while the demand of a
service stays under the ceiling of another, the two do the same, and the first call whose demand
goes past it is refused there and changes nothing.
-/

namespace PacketBudget

/-- The same accounts under the ceiling `c`. -/
def Accounts.under (a : Accounts) (c : Nat) : Accounts :=
  { a with budget := { a.budget with ceiling := c } }

namespace Service

/-- `t` is `s` under another ceiling. Their logs may differ. -/
structure Alongside (s t : Service) : Prop where
  identity : t.identity = s.identity
  host : t.host = s.host
  accounts : t.ledger.accounts = s.ledger.accounts.under t.ceiling
  counters : t.counters = s.counters

variable {s t : Service} {k : Call} {id : ConnId}

namespace Alongside

theorem used_eq (h : s.Alongside t) : t.used = s.used := by
  rw [used, Ledger.used, h.accounts]
  rfl

theorem entry?_eq (h : s.Alongside t) (id : ConnId) : t.entry? id = s.entry? id := by
  unfold entry? Ledger.entry? Ledger.table
  rw [h.accounts]
  rfl

theorem verdict_eq (h : s.Alongside t) (id : ConnId) (k : Call) :
    t.verdict id k = s.verdict id k := by
  rw [verdict, h.identity, h.host, h.entry?_eq, h.accounts]
  rfl

theorem write_eq (h : s.Alongside t) (id : ConnId) (x : Option Entry) :
    t.ledger.accounts.write id x = (s.ledger.accounts.write id x).under t.ceiling := by
  rw [h.accounts]
  rfl

theorem demand_eq (h : s.Alongside t) (id : ConnId) (k : Call) :
    t.demand id k = s.demand id k := by
  rw [demand, h.verdict_eq, h.write_eq]
  rfl

theorem init (h : s.Alongside t) (c : HostContext) :
    (t.step (.init c)).1 = (s.step (.init c)).1 ∧
      (s.step (.init c)).2.Alongside (t.step (.init c)).2 := by
  have hc := h.counters
  have hh := h.host
  cases hs : s.host with
  | none =>
    rw [hs] at hh
    simp only [step, Service.init, hs, hh, outcome]
    exact ⟨trivial, h.identity, rfl, h.accounts, hc⟩
  | some d =>
    rw [hs] at hh
    simp only [step, Service.init, hs, hh, outcome]
    refine ⟨trivial, h.identity, rfl, h.accounts, ?_⟩
    exact congrArg (fun c => c.tickAll Fault.alreadyInitialized.ticks) hc

theorem follow (h : s.Alongside t) (hs : s.Follows id k) (ht : t.Follows id k) :
    (t.step k).1.roomless = (s.step k).1.roomless ∧
      (s.step k).2.Alongside (t.step k).2 := by
  have hv := h.verdict_eq id k
  have hceil : (t.step k).2.ceiling = t.ceiling := (step_move t k).ceiling
  refine ⟨?_, ?_, ?_, ?_, ?_⟩
  · rw [ht.outcome, hs.outcome, hv]
  · rw [identity_step, identity_step, h.identity]
  · rw [host_step_eq, host_step_eq, h.host]
  · rw [ht.accounts, hs.accounts, hceil, hv, h.write_eq]
  · rw [ht.counters, hs.counters, hv, h.counters]

end Alongside

/-- The bytes in use after a call that has room. -/
theorem used_step_of_roomy (hb : s.ledger.accounts.Balanced) (hk : k.conn? = some id)
    (hr : s.roomy k = true) : (s.step k).2.used = s.demand id k :=
  congrArg (fun a => a.budget.used) (follows_of_roomy hb hk hr).accounts

theorem step_alongside (h : s.Alongside t) (hb : s.ledger.accounts.Balanced)
    (hb' : t.ledger.accounts.Balanced) (hr : s.roomy k = true)
    (fits : (s.step k).2.used ≤ t.ceiling) :
    (t.step k).1.roomless = (s.step k).1.roomless ∧
      (s.step k).2.Alongside (t.step k).2 := by
  cases hk : k.conn? with
  | none =>
    obtain ⟨c, rfl⟩ := eq_init_of_conn? hk
    obtain ⟨ho, ha⟩ := h.init c
    exact ⟨congrArg Outcome.roomless ho, ha⟩
  | some id =>
    apply h.follow (follows_of_roomy hb hk hr)
    apply follows_of_le hb' hk
    rw [h.demand_eq, ← used_step_of_roomy hb hk hr]
    exact fits

theorem step_refused (h : s.Alongside t) (hb : s.ledger.accounts.Balanced)
    (hb' : t.ledger.accounts.Balanced) (hr : s.roomy k = true)
    (beyond : t.ceiling < (s.step k).2.used) :
    (∃ n m, (t.step k).1 = .rejected (.budgetExhausted n m)) ∧
      (t.step k).2.ledger.accounts = t.ledger.accounts := by
  cases hk : k.conn? with
  | none =>
    obtain ⟨c, rfl⟩ := eq_init_of_conn? hk
    have hu : (s.step (.init c)).2.used = t.used := by
      rw [h.used_eq, used, Ledger.used, accounts_init]
      rfl
    rw [hu] at beyond
    exact absurd hb'.used_le (Nat.not_le.mpr beyond)
  | some id =>
    have ho : t.Overflows id k := by
      apply overflows_of_lt hb' hk
      rw [h.demand_eq, ← used_step_of_roomy hb hk hr]
      exact beyond
    exact ⟨ho.outcome, ho.accounts⟩

end Service

/-- The same line with the same effect, but for the room that a refusal reports. -/
structure Stage.Same (g g' : Stage) : Prop where
  order : g'.order = g.order
  outcome : g'.outcome?.map Outcome.roomless = g.outcome?.map Outcome.roomless
  after : g.after.Alongside g'.after

/-- The line is refused, and nothing changes by it. -/
structure Stage.Refused (g g' : Stage) : Prop where
  order : g'.order = g.order
  before : g.before.Alongside g'.before
  outcome : ∃ n m, g'.outcome? = some (.rejected (.budgetExhausted n m))
  used : g'.after.used = g'.before.used
  table : g'.after.ledger.table = g'.before.ledger.table

/-- The second run is like the first up to the line that goes past `c`, and refuses that. -/
inductive Parts (c : Nat) : List Stage → List Stage → Prop
  | here {g g' : Stage} {gs gs' : List Stage} (beyond : c < g.after.used) (refused : g.Refused g') :
      Parts c (g :: gs) (g' :: gs')
  | later {g g' : Stage} {gs gs' : List Stage} (fits : g.after.used ≤ c) (same : g.Same g')
      (rest : Parts c gs gs') : Parts c (g :: gs) (g' :: gs')

/-- The most bytes in use after any of the stages. -/
def peak (gs : List Stage) : Nat := (gs.map fun g => g.after.used).foldr max 0

theorem peak_le_iff {gs : List Stage} {n : Nat} : peak gs ≤ n ↔ ∀ g ∈ gs, g.after.used ≤ n := by
  induction gs with
  | nil => simp [peak]
  | cons g gs ih =>
    simp only [peak, List.map_cons, List.foldr_cons, Nat.max_le, List.forall_mem_cons] at ih ⊢
    rw [ih]

theorem lt_peak_iff {gs : List Stage} {n : Nat} : n < peak gs ↔ ∃ g ∈ gs, n < g.after.used := by
  rw [← Nat.not_le, peak_le_iff]
  simp only [Classical.not_forall, Nat.not_le, exists_prop]

theorem giveBack?_roomless (o : Outcome) : o.roomless.giveBack? = o.giveBack? := by
  cases o <;> rfl

namespace Service

variable {s t : Service} {es fs : List Event} {o : Order}

/-- Both have handed out the same so far. -/
def Handed (es fs : List Event) : Prop := ∀ conn, requests conn fs = requests conn es

theorem call?_eq (h : Handed es fs) (o : Order) : o.call? fs = o.call? es := by
  cases o with
  | call k => rfl
  | giveBack conn n => simp only [Order.call?, h conn]

theorem Handed.snoc (h : Handed es fs) {k : Call} {o o' : Outcome} (ho : o'.roomless = o.roomless) :
    Handed (es ++ [⟨k, o⟩]) (fs ++ [⟨k, o'⟩]) := by
  intro conn
  have hg : o'.giveBack? = o.giveBack? := by
    rw [← giveBack?_roomless, ho, giveBack?_roomless]
  rw [requests_append, requests_append, h conn]
  congr 1
  cases hk : k.requests conn with
  | true => rw [requests_of_asks hk, requests_of_asks hk, hg]
  | false => rw [requests_of_other hk, requests_of_other hk]

/-- `t` has followed `s` so far. -/
structure Tracks (s : Service) (es : List Event) (t : Service) (fs : List Event) : Prop where
  alongside : s.Alongside t
  balanced : s.ledger.accounts.Balanced
  balanced' : t.ledger.accounts.Balanced
  handed : Handed es fs

namespace Tracks

variable (h : Tracks s es t fs) (hr : Stage.roomy ⟨o, s, o.call? es⟩ = true)
include h hr

theorem stage_same (fits : (Stage.after ⟨o, s, o.call? es⟩).used ≤ t.ceiling) :
    Stage.Same ⟨o, s, o.call? es⟩ ⟨o, t, o.call? fs⟩ ∧
      Tracks (Stage.after ⟨o, s, o.call? es⟩) (es ++ Stage.events ⟨o, s, o.call? es⟩)
        (Stage.after ⟨o, t, o.call? fs⟩) (fs ++ Stage.events ⟨o, t, o.call? fs⟩) := by
  rw [call?_eq h.handed]
  cases hk : o.call? es with
  | none =>
    simp only [Stage.events, Stage.calls, Option.toList_none, history, List.append_nil]
    exact ⟨⟨rfl, rfl, h.alongside⟩, h⟩
  | some k =>
    rw [hk] at hr fits
    obtain ⟨ho, ha⟩ := step_alongside h.alongside h.balanced h.balanced' hr fits
    refine ⟨⟨rfl, congrArg some ho, ha⟩, ha, ?_, ?_, h.handed.snoc ho⟩
    · exact (step_move s k).balanced h.balanced
    · exact (step_move t k).balanced h.balanced'

theorem stage_refused (beyond : t.ceiling < (Stage.after ⟨o, s, o.call? es⟩).used) :
    Stage.Refused ⟨o, s, o.call? es⟩ ⟨o, t, o.call? fs⟩ := by
  rw [call?_eq h.handed]
  cases hk : o.call? es with
  | none =>
    rw [hk] at beyond
    have hle : t.used ≤ t.ceiling := h.balanced'.used_le
    rw [h.alongside.used_eq] at hle
    exact absurd hle (Nat.not_le.mpr beyond)
  | some k =>
    rw [hk] at hr beyond
    obtain ⟨⟨n, m, ho⟩, ha⟩ := step_refused h.alongside h.balanced h.balanced' hr beyond
    refine ⟨rfl, h.alongside, ⟨n, m, congrArg some ho⟩, ?_, ?_⟩
    · exact congrArg (fun a => a.budget.used) ha
    · exact congrArg Accounts.table ha

end Tracks

theorem Tracks.carryOut_same (h : Tracks s es t fs) {os : List Order}
    (hr : ∀ g ∈ s.carryOut es os, g.roomy = true)
    (fits : ∀ g ∈ s.carryOut es os, g.after.used ≤ t.ceiling) :
    List.Forall₂ Stage.Same (s.carryOut es os) (t.carryOut fs os) := by
  induction os generalizing s t es fs with
  | nil => exact .nil
  | cons o os ih =>
    obtain ⟨hr, hrs⟩ := List.forall_mem_cons.mp hr
    obtain ⟨fit, fits⟩ := List.forall_mem_cons.mp fits
    obtain ⟨hs, ht⟩ := h.stage_same hr fit
    apply List.Forall₂.cons hs
    apply ih ht hrs
    rw [Stage.ceiling_after]
    exact fits

theorem Tracks.carryOut_parts (h : Tracks s es t fs) {os : List Order}
    (hr : ∀ g ∈ s.carryOut es os, g.roomy = true)
    (beyond : ∃ g ∈ s.carryOut es os, t.ceiling < g.after.used) :
    Parts t.ceiling (s.carryOut es os) (t.carryOut fs os) := by
  induction os generalizing s t es fs with
  | nil =>
    obtain ⟨g, hg, _⟩ := beyond
    cases hg
  | cons o os ih =>
    obtain ⟨hr, hrs⟩ := List.forall_mem_cons.mp hr
    by_cases fit : (Stage.after ⟨o, s, o.call? es⟩).used ≤ t.ceiling
    · obtain ⟨hs, ht⟩ := h.stage_same hr fit
      have hrest := ih ht hrs
      rw [Stage.ceiling_after] at hrest
      apply Parts.later fit hs
      apply hrest
      obtain ⟨g, hg, hbeyond⟩ := beyond
      rcases List.mem_cons.mp hg with rfl | hg
      · exact absurd fit (Nat.not_le.mpr hbeyond)
      · exact ⟨g, hg, hbeyond⟩
    · have hbeyond := Nat.not_le.mp fit
      exact .here hbeyond (h.stage_refused hr hbeyond)

theorem identity_create {limit : Int64} {al al' : Allocator} (h : create limit al = .ok (s, al')) :
    s.identity = al.assign.1 := by
  unfold create at h
  split at h
  · cases h
  · cases h
    rfl

theorem alongside_new {n n' : Nat} (hi : t.identity = s.identity) (hh : t.host = s.host)
    (hl : s.ledger = .ofCeiling n) (hl' : t.ledger = .ofCeiling n') : s.Alongside t := by
  refine ⟨hi, hh, ?_, ?_⟩
  · rw [ceiling, hl, hl']
    rfl
  · rw [counters, counters, hl, hl']
    rfl

theorem tracks_create {limit limit' : Int64} {al al₁ al₂ : Allocator}
    (h : create limit al = .ok (s, al₁)) (h' : create limit' al = .ok (t, al₂)) :
    Tracks s [] t [] := by
  have hi : t.identity = s.identity := by rw [identity_create h, identity_create h']
  have hh : t.host = s.host := by rw [(create_eq h).1, (create_eq h').1]
  have ha := alongside_new hi hh (create_eq h).2 (create_eq h').2
  exact ⟨ha, balanced_create h, balanced_create h', fun _ => rfl⟩

/-- Where the ceiling has refused nothing, any ceiling down to the peak of what was in use does the
same, and a lower one does until it refuses the first call that would go past it. -/
theorem ceilings_only_refuse {limit limit' : Int64} {al al₁ al₂ : Allocator}
    (h : create limit al = .ok (s, al₁)) (h' : create limit' al = .ok (t, al₂)) (os : List Order)
    (roomy : ∀ g ∈ s.carryOut [] os, g.roomy = true) :
    (peak (s.carryOut [] os) ≤ t.ceiling →
        List.Forall₂ Stage.Same (s.carryOut [] os) (t.carryOut [] os)) ∧
      (t.ceiling < peak (s.carryOut [] os) →
        Parts t.ceiling (s.carryOut [] os) (t.carryOut [] os)) := by
  have ht := tracks_create h h'
  constructor
  · intro hp
    exact ht.carryOut_same roomy (peak_le_iff.mp hp)
  · intro hp
    exact ht.carryOut_parts roomy (lt_peak_iff.mp hp)

/-- Under the peak itself the third packet still has room, under one byte less it has not. -/
theorem ceilings_only_refuse_below_peak :
    ∃ s t u al₁ al₂ al₃ os, create 100 {} = .ok (s, al₁) ∧ create 65 {} = .ok (t, al₂) ∧
      create 64 {} = .ok (u, al₃) ∧ peak (s.carryOut [] os) = 65 ∧
      List.Forall₂ Stage.Same (s.carryOut [] os) (t.carryOut [] os) ∧
      Parts 64 (s.carryOut [] os) (u.carryOut [] os) := by
  have h : create 100 {} = .ok (_, _) := rfl
  have h' : create 65 {} = .ok (_, _) := rfl
  have h'' : create 64 {} = .ok (_, _) := rfl
  let os : List Order := [.call (.init ⟨"host", ⟨10, 40⟩⟩), .call (.connect ⟨7⟩),
    .call (.charge ⟨7⟩ 30), .call (.lease ⟨7⟩ 20), .giveBack ⟨7⟩ 1, .giveBack ⟨7⟩ 0,
    .call (.connect ⟨8⟩), .call (.receive ⟨8⟩ 40), .call (.lease ⟨7⟩ 5), .call (.close ⟨8⟩)]
  refine ⟨_, _, _, _, _, _, os, h, h', h'', by decide, ?_, ?_⟩
  · exact (ceilings_only_refuse h h' os (by decide)).1 (by decide)
  · exact (ceilings_only_refuse h h'' os (by decide)).2 (by decide)

end Service

end PacketBudget
