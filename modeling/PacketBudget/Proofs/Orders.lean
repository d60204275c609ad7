import PacketBudget.Proofs.Holdings
import PacketBudget.Proofs.Locality

/-!
Scripts for a service. A script gives a charge back by naming the request that it was handed out
for, so that services which number their registrations differently can carry out the same script.
What a connection was handed is given back on that connection.
-/

namespace PacketBudget

/-- A line of a script. -/
inductive Order
  | call (k : Call)
  /-- Gives back what request number `n` for a packet of the connection was handed. -/
  | giveBack (conn : ConnId) (n : Nat)
  deriving DecidableEq, Repr

/-- The call that gives back what has been handed out. -/
def Outcome.giveBack? : Outcome → Option Call
  | .charged c => some (.refund c)
  | .leased l => some (.drop l)
  | _ => none

/-- The call asks for a packet of `conn`. -/
def Call.requests (k : Call) (conn : ConnId) : Bool := k.packet?.map Prod.fst = some conn

/-- For each request for a packet of `conn`, in order, the call that gives back what came of it. -/
def requests (conn : ConnId) (es : List Event) : List (Option Call) :=
  (es.filter fun v => v.call.requests conn).map fun v => v.outcome.giveBack?

namespace Order

def conn? : Order → Option ConnId
  | call k => k.conn?
  | giveBack conn _ => some conn

/-- The call that the line comes to after the events `es`. -/
def call? (es : List Event) : Order → Option Call
  | call k => some k
  | giveBack conn n => (requests conn es).getD n none

end Order

/-- A line of a script as it is carried out. -/
structure Stage where
  order : Order
  /-- The service that the line finds. -/
  before : Service
  /-- What it comes to; nothing if there is nothing to give back. -/
  call? : Option Call

namespace Stage

def calls (g : Stage) : List Call := g.call?.toList

def outcome? (g : Stage) : Option Outcome := g.call?.map fun k => (g.before.step k).1

def events (g : Stage) : List Event := g.before.history g.calls

def after (g : Stage) : Service := (g.before.run g.calls).2

end Stage

/-- The stages of a script on `s`, where `es` has happened already. -/
def Service.carryOut (s : Service) (es : List Event) : List Order → List Stage
  | [] => []
  | o :: os =>
    let g : Stage := ⟨o, s, o.call? es⟩
    g :: g.after.carryOut (es ++ g.events) os

/-- The calls that have been made. -/
def made (gs : List Stage) : List Call := gs.flatMap Stage.calls

section Requests

variable {conn : ConnId} {es fs : List Event} {k : Call} {o : Outcome}

theorem requests_append (conn : ConnId) (es fs : List Event) :
    requests conn (es ++ fs) = requests conn es ++ requests conn fs := by
  simp only [requests, List.filter_append, List.map_append]

theorem requests_of_asks (h : k.requests conn = true) :
    requests conn [⟨k, o⟩] = [o.giveBack?] := by
  simp only [requests, List.filter_cons, h, ↓reduceIte, List.filter_nil, List.map_cons, List.map_nil]

theorem requests_of_other (h : k.requests conn = false) : requests conn [⟨k, o⟩] = [] := by
  simp only [requests, List.filter_cons, h, Bool.false_eq_true, ↓reduceIte, List.filter_nil,
    List.map_nil]

theorem Call.packet?_of_requests (h : k.requests conn = true) :
    ∃ n, k.packet? = some (conn, n) := by
  rw [Call.requests, decide_eq_true_eq, Option.map_eq_some_iff] at h
  obtain ⟨⟨id, n⟩, hp, rfl⟩ := h
  exact ⟨n, hp⟩

theorem Call.conn?_of_requests (h : k.requests conn = true) : k.conn? = some conn := by
  obtain ⟨n, hp⟩ := packet?_of_requests h
  exact conn?_of_packet? hp

theorem giveBack?_of_charge? {c : Charge} (h : o.charge? = some c) :
    ∃ k, o.giveBack? = some k ∧ k.returned? = some c := by
  cases o with
  | charged | leased =>
    cases h
    exact ⟨_, rfl, rfl⟩
  | done | freed | rejected => cases h

theorem charge?_of_giveBack? (h : o.giveBack? = some k) :
    ∃ c, o.charge? = some c ∧ k.returned? = some c := by
  cases o with
  | charged | leased =>
    cases h
    exact ⟨_, rfl, rfl⟩
  | done | freed | rejected => cases h

theorem giveBack?_eq_none (h : o.charge? = none) : o.giveBack? = none := by
  cases o with
  | charged | leased => cases h
  | done | freed | rejected => rfl

/-- What a connection was handed is given back on that connection. -/
def Addressed (es : List Event) : Prop := ∀ id k, some k ∈ requests id es → k.conn? = some id

theorem addressed_nil : Addressed [] := by
  intro id k hk
  cases hk

theorem Addressed.snoc (h : Addressed es) (s : Service) (k : Call) :
    Addressed (es ++ [⟨k, (s.step k).1⟩]) := by
  intro id l hl
  rw [requests_append] at hl
  rcases List.mem_append.mp hl with hl | hl
  · exact h id l hl
  · cases hk : k.requests id with
    | false =>
      rw [requests_of_other hk] at hl
      cases hl
    | true =>
      rw [requests_of_asks hk, List.mem_singleton] at hl
      obtain ⟨c, hc, hr⟩ := charge?_of_giveBack? hl.symm
      have hp := ((Service.step_move s k).admits hc).packet
      have hid := Call.conn?_of_requests hk
      rw [Call.conn?_of_packet? hp] at hid
      rw [Call.conn?_of_returned? hr]
      exact hid

theorem Addressed.conn? (h : Addressed es) {o : Order} {id : ConnId} (ho : o.conn? = some id)
    (hk : o.call? es = some k) : k.conn? = some id := by
  cases o with
  | call l =>
    cases hk
    exact ho
  | giveBack conn n =>
    cases ho
    have hk : (requests id es).getD n none = some k := hk
    rw [List.getD_eq_getElem?_getD] at hk
    cases hn : (requests id es)[n]? with
    | none =>
      rw [hn] at hk
      cases hk
    | some a =>
      rw [hn] at hk
      cases hk
      exact h id k (List.mem_of_getElem? hn)

end Requests

namespace Service

variable {s : Service} {k : Call} {id : ConnId}

/-- The packet is too large for what its connection has left of the cap. -/
def pastCap (s : Service) (k : Call) : Bool :=
  match s.host, k.packet? with
  | some h, some (conn, n) => (s.entry? conn).any fun e => !e.fits h.policy.cap n
  | _, _ => false

/-- The call is not refused for want of room, unless for its own connection's cap. -/
def roomy (s : Service) (k : Call) : Bool :=
  match (s.step k).1 with
  | .rejected (.budgetExhausted ..) => s.pastCap k
  | _ => true

/-- Past its cap a connection is refused whatever the ceiling is. -/
theorem demand_of_pastCap (hk : k.conn? = some id) (h : s.pastCap k = true) :
    s.demand id k = s.used := by
  unfold pastCap at h
  split at h
  · rename_i c conn n hh hp
    have hid := Call.conn?_of_packet? hp
    rw [hk] at hid
    cases hid
    rw [Option.any_eq_true] at h
    obtain ⟨e, he, hf⟩ := h
    have hf : e.fits c.policy.cap n = false := by simpa using hf
    have hv : (s.verdict conn k).entry = s.ledger.accounts.table.get? conn := by
      rw [verdict, Call.verdict_packet hp]
      simp only [Verdict.packet, hh, he, hf, Bool.false_eq_true, ↓reduceIte, Verdict.refusal]
      exact he.symm
    rw [demand, hv, Accounts.write_get?]
    rfl
  · cases h

theorem follows_of_roomy (hb : s.ledger.accounts.Balanced) (hk : k.conn? = some id)
    (hr : s.roomy k = true) : s.Follows id k := by
  rcases step_local hb hk with h | h
  · exact h
  · obtain ⟨n, m, ho⟩ := h.outcome
    have hp : s.pastCap k = true := by
      unfold roomy at hr
      rwa [ho] at hr
    have hbeyond := h.beyond
    rw [demand_of_pastCap hk hp] at hbeyond
    exact absurd hb.used_le (Nat.not_le.mpr hbeyond)

end Service

namespace Stage

/-- No call that the stage makes is refused for want of room under the ceiling. -/
def roomy (g : Stage) : Bool := g.call?.all g.before.roomy

theorem ceiling_after (g : Stage) : g.after.ceiling = g.before.ceiling :=
  Service.ceiling_run ..

end Stage

end PacketBudget
