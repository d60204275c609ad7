import PacketBudget.Host
import PacketBudget.Proofs.Counting
import PacketBudget.Proofs.Restoring

/-!
One task of a host. Whatever a task does next, it touches the registration of its own connection
alone, and that registration holds its overhead and the payload that the task has.
-/

namespace PacketBudget

namespace Table

variable {t t' : Table} {id : ConnId}

/-- What `id` adds to the sum. -/
def part (t : Table) (f : Entry → Nat) (id : ConnId) : Nat :=
  match t.get? id with
  | none => 0
  | some e => f e

theorem part_of_none (h : t.get? id = none) (f : Entry → Nat) : t.part f id = 0 := by
  rw [part, h]

theorem part_of_some {e : Entry} (h : t.get? id = some e) (f : Entry → Nat) :
    t.part f id = f e := by
  rw [part, h]

theorem sum_split (h : t.Sound) (id : ConnId) (f : Entry → Nat) :
    t.sum f = t.part f id + (t.erase id).sum f := by
  cases he : t.get? id with
  | none => rw [part_of_none he, erase_of_get?_eq_none he, Nat.zero_add]
  | some e => rw [part_of_some he, sum_erase h he]

/-- Tables that are the same but for one id have the same sums but for what they have there. -/
theorem sum_of_others (h : t.Sound) (h' : t'.Sound)
    (others : ∀ j, j ≠ id → t'.get? j = t.get? j) (f : Entry → Nat) :
    t'.sum f + t.part f id = t.sum f + t'.part f id := by
  have hrest : (t'.erase id).sum f = (t.erase id).sum f := by
    refine total_perm (List.Perm.map _ ?_)
    have hn : ∀ {u : Table}, u.Sound → u.toList.Nodup := fun hu =>
      List.Pairwise.of_map Prod.fst (fun _ _ hne he => hne (congrArg Prod.fst he)) hu.nodup_toList
    refine (List.perm_ext_iff_of_nodup (hn (h'.erase id)) (hn (h.erase id))).mpr ?_
    rintro ⟨j, e⟩
    rw [(h'.erase id).mem_toList_iff, (h.erase id).mem_toList_iff, get?_erase, get?_erase]
    split
    · rfl
    · rename_i hj
      rw [others j hj]
  rw [sum_split h id, sum_split h' id, hrest]
  omega

end Table

namespace Accounts

variable {a : Accounts} {id : ConnId}

/-- A packet on a registered connection is refused only for want of room. -/
theorem charge_found {e : Entry} {n cap : Nat} {f : Fault} (found : a.table.get? id = some e)
    (h : a.charge id n cap = .error f) : f.isBudgetExhausted = true := by
  simp only [charge, found] at h
  split at h <;> cases h
  rfl

/-- A connection that is not registered is refused only for want of room. -/
theorem register_fresh {n : Nat} {f : Fault} (fresh : a.table.get? id = none)
    (h : a.register id n = .error f) : f.isBudgetExhausted = true := by
  have hc : a.table.contains id = false := by rw [Table.contains, fresh, Option.isSome_none]
  simp only [register, hc, Bool.false_eq_true, ↓reduceIte] at h
  split at h <;> cases h
  rfl

end Accounts

namespace Notice

/-- A report that the host makes of its own. -/
def remark : Notice → Bool
  | .packet .. | .idle _ | .listening .. | .turnedAway .. | .started .. | .ended .. => true
  | _ => false

/-- A report of the kind that a host gets while it keeps the order of calls: what is refused is
refused for want of room, and what is closed is there. -/
def orderly : Notice → Bool
  | .refused _ _ _ f _ _ => f.isBudgetExhausted
  | .closeUnknown .. | .initRepeated .. => false
  | _ => true

def closes (conn : ConnId) : Notice → Bool
  | .closed _ c _ => c = conn
  | _ => false

theorem orderly_of_remark {n : Notice} (h : n.remark = true) : n.orderly = true := by
  cases n <;> simp_all [remark, orderly]

theorem closes_of_remark {n : Notice} (h : n.remark = true) (conn : ConnId) :
    n.closes conn = false := by
  cases n <;> simp_all [remark, closes]

end Notice

namespace Service

/-- Nothing was reported that comes of calls out of order. -/
def Orderly (s : Service) : Prop := ∀ n ∈ s.journal, n.orderly = true

def closes (s : Service) (conn : ConnId) : Nat := s.journal.countP (Notice.closes conn)

/-- The books agree with some history. -/
def Audited (s : Service) : Prop := ∃ es ended x, s.Counted es ended x

variable {s t : Service} {conn : ConnId} {n : Notice}

theorem Audited.balanced (h : s.Audited) : s.ledger.accounts.Balanced := by
  obtain ⟨es, ended, x, hx⟩ := h
  exact hx.balanced

theorem Audited.of_ledger (h : s.Audited) (hl : t.ledger = s.ledger) : t.Audited := by
  obtain ⟨es, ended, x, hx⟩ := h
  refine ⟨es, ended, x, ?_, ?_, ?_⟩
  · rw [counters, hl]
    exact hx.shown
  · rw [hl]
    exact hx.balanced
  · rw [hl]
    exact hx.tallied

theorem Audited.step (h : s.Audited) (few : s.active < UInt64.size) (k : Call) :
    (s.step k).2.Audited := by
  obtain ⟨es, ended, x, hx⟩ := h
  obtain ⟨y, hy⟩ := counted_step hx k few
  exact ⟨_, _, y, hy⟩

/-- `t` comes of `s` by what was done on behalf of `conn`. -/
structure Shift (s : Service) (conn : ConnId) (t : Service) : Prop where
  host : t.host = s.host
  audited : s.Audited → s.active < UInt64.size → t.Audited
  orderly : s.Orderly → t.Orderly
  others : ∀ id, id ≠ conn → t.entry? id = s.entry? id ∧ t.closes id = s.closes id

theorem Shift.refl (s : Service) (conn : ConnId) : s.Shift conn s :=
  ⟨rfl, fun h _ => h, id, fun _ _ => ⟨rfl, rfl⟩⟩

theorem closes_note (s : Service) (hn : n.remark = true) (conn : ConnId) :
    (s.note n).closes conn = s.closes conn := by
  rw [closes, note, List.countP_cons, Notice.closes_of_remark hn]
  rfl

theorem orderly_note (hn : n.orderly = true) (h : s.Orderly) : (s.note n).Orderly :=
  List.forall_mem_cons.mpr ⟨hn, h⟩

theorem Shift.note (h : s.Shift conn t) (hn : n.remark = true) : s.Shift conn (t.note n) := by
  refine ⟨h.host, fun ha few => (h.audited ha few).of_ledger rfl, fun ho => ?_, fun id hid => ?_⟩
  · exact orderly_note (Notice.orderly_of_remark hn) (h.orderly ho)
  · rw [closes_note t hn]
    exact h.others id hid

/-- What happens after a remark happens all the same without it. -/
theorem Shift.of_note (h : (s.note n).Shift conn t) (hn : n.remark = true) : s.Shift conn t := by
  refine ⟨h.host, fun ha few => h.audited (ha.of_ledger rfl) few, fun ho => ?_, fun id hid => ?_⟩
  · exact h.orderly (orderly_note (Notice.orderly_of_remark hn) ho)
  · rw [← closes_note s hn]
    exact h.others id hid

/-- A call on behalf of `conn`, with its reports. -/
theorem step_shift {k : Call} (ns : List Notice) (hk : k.conn? = some conn)
    (ht : (s.step k).2 = t) (hj : t.journal = ns ++ s.journal) (ho : ∀ n ∈ ns, n.orderly = true)
    (hc : ∀ id, id ≠ conn → ns.countP (Notice.closes id) = 0) : s.Shift conn t := by
  subst ht
  have hhost : (s.step k).2.host = s.host := by
    rcases host_step s k with hh | ⟨-, h, rfl, -⟩
    · exact hh
    · cases hk
  refine ⟨hhost, fun ha few => ha.step few k, fun h n hn => ?_, fun id hid => ⟨?_, ?_⟩⟩
  · rw [hj] at hn
    rcases List.mem_append.mp hn with hn | hn
    · exact ho n hn
    · exact h n hn
  · exact (step_move s k).others hk hid
  · rw [closes, hj, List.countP_append, hc id hid, Nat.zero_add]
    rfl

variable {ctx : HostContext} {e : Entry} {l : Lease}

/-- A packet on a registered connection is leased, or refused for want of room. -/
theorem lease_spec (taken : s.host = some ctx) (found : s.entry? conn = some e) (n : Nat) :
    s.Shift conn (s.lease conn n).2 ∧ (s.lease conn n).2.closes conn = s.closes conn ∧
      ((∃ f, (s.lease conn n).1 = .error f ∧ entry? (s.lease conn n).2 conn = some e) ∨
        ∃ l, (s.lease conn n).1 = .ok l ∧ l.charge = ⟨conn, e.epoch, n⟩ ∧
          entry? (s.lease conn n).2 conn = some (e.charge n)) := by
  have hstep : (s.step (.lease conn n)).2 = (s.lease conn n).2 := outcome_service ..
  cases hr : s.ledger.accounts.charge conn n ctx.policy.cap with
  | error f =>
    have hf : f.isBudgetExhausted = true := Accounts.charge_found found hr
    obtain ⟨t, ht, -, ha, u, c, hj⟩ := lease_of_refusal taken hr
    rw [ht] at hstep ⊢
    refine ⟨step_shift [_] rfl hstep hj (List.forall_mem_singleton.mpr hf) fun _ _ => rfl,
      ?_, Or.inl ⟨f, rfl, ?_⟩⟩
    · rw [closes, hj]
      rfl
    · rw [Service.entry?, Ledger.entry?, Ledger.table, ha]
      exact found
  | ok r =>
    obtain ⟨c, a⟩ := r
    obtain ⟨x, hx, -, -, rfl, rfl⟩ := Accounts.charge_eq_ok_iff.mp hr
    obtain rfl : e = x := Option.some.inj (found.symm.trans hx)
    obtain ⟨t, ht, -, ha, hj⟩ := lease_of_charge taken hr
    have ha : t.ledger.accounts = s.ledger.accounts.charged conn e n := ha
    rw [ht] at hstep ⊢
    refine ⟨step_shift [] rfl hstep hj (List.forall_mem_nil _) fun _ _ => rfl, ?_,
      Or.inr ⟨_, rfl, rfl, ?_⟩⟩
    · rw [closes, hj]
      rfl
    · rw [Service.entry?, Ledger.entry?, Ledger.table, ha, Accounts.get?_charged, if_pos rfl]

theorem dropLease_spec (found : s.entry? conn = some e)
    (hl : l.charge = ⟨conn, e.epoch, e.packetBytes⟩) :
    s.Shift conn (s.dropLease l) ∧ (s.dropLease l).closes conn = s.closes conn ∧
      entry? (s.dropLease l) conn = some (e.credit e.packetBytes) := by
  have hr : s.ledger.accounts.refund? l.charge =
      some (s.ledger.accounts.credit conn e e.packetBytes) := by
    have hg : s.ledger.accounts.table.get? conn = some e := found
    simp only [Accounts.refund?, hl, hg, ↓reduceIte, Nat.min_self]
  have hk : (Call.drop l).conn? = some conn := by rw [Call.conn?, hl]
  refine ⟨step_shift [] hk rfl rfl (List.forall_mem_nil _) fun _ _ => rfl, rfl, ?_⟩
  simp only [Service.dropLease, refund, Ledger.refund, hr, Ledger.book]
  exact (Accounts.get?_credit s.ledger.accounts conn e e.packetBytes conn).trans (if_pos rfl)

theorem close_spec (found : s.entry? conn = some e) :
    s.Shift conn (s.close conn).2 ∧ (s.close conn).2.closes conn = s.closes conn + 1 ∧
      entry? (s.close conn).2 conn = none := by
  obtain ⟨n, t, ht, hj, ha⟩ : ∃ n t, s.close conn = (n, t) ∧
      t.journal = .closed s.identity conn n :: s.journal ∧
      t.ledger.accounts = s.ledger.accounts.closed conn e := by
    have hg : s.ledger.accounts.table.get? conn = some e := found
    simp only [close, Ledger.close, Accounts.remove?, hg, Option.map_some]
    exact ⟨_, _, rfl, rfl, rfl⟩
  have hstep : (s.step (.close conn)).2 = t := by simp only [step, ht]
  rw [ht]
  refine ⟨step_shift [_] rfl hstep hj (List.forall_mem_singleton.mpr rfl) ?_, ?_, ?_⟩
  · intro id hid
    simp [Notice.closes, Ne.symm hid]
  · rw [closes, hj, List.countP_cons]
    simp [Notice.closes, closes]
  · rw [Service.entry?, Ledger.entry?, Ledger.table, ha, Accounts.get?_closed, if_pos rfl]

/-- A new connection is registered, or refused for want of room. -/
theorem connect_spec (taken : s.host = some ctx) (fresh : s.entry? conn = none) :
    s.Shift conn (s.connect conn).2 ∧ (s.connect conn).2.closes conn = s.closes conn ∧
      ((∃ f, (s.connect conn).1 = .error f ∧ entry? (s.connect conn).2 conn = none) ∨
        ∃ e, (s.connect conn).1 = .ok () ∧ entry? (s.connect conn).2 conn = some e ∧
          e.overhead = ctx.policy.overhead ∧ e.packetBytes = 0) := by
  have hstep : (s.step (.connect conn)).2 = (s.connect conn).2 := outcome_service ..
  cases hr : s.ledger.accounts.register conn ctx.policy.overhead with
  | error f =>
    have hf : f.isBudgetExhausted = true := Accounts.register_fresh fresh hr
    obtain ⟨t, ht, hj, he⟩ : ∃ t, s.connect conn = (.error f, t) ∧
        (∃ u c, t.journal = .refused s.identity conn .connection f u c :: s.journal) ∧
        t.entry? conn = none := by
      simp only [connect, taken, Ledger.register, hr]
      exact ⟨_, rfl, ⟨_, _, rfl⟩, fresh⟩
    obtain ⟨u, c, hj⟩ := hj
    rw [ht] at hstep ⊢
    refine ⟨step_shift [_] rfl hstep hj (List.forall_mem_singleton.mpr hf) fun _ _ => rfl,
      ?_, Or.inl ⟨f, rfl, he⟩⟩
    rw [closes, hj]
    rfl
  | ok a =>
    obtain ⟨-, -, rfl⟩ := Accounts.register_eq_ok_iff.mp hr
    obtain ⟨t, ht, hj, ha⟩ : ∃ t, s.connect conn = (.ok (), t) ∧
        t.journal = .connected s.identity conn :: s.journal ∧
        t.ledger.accounts = s.ledger.accounts.opened conn ctx.policy.overhead := by
      simp only [connect, taken, Ledger.register, hr]
      exact ⟨_, rfl, rfl, rfl⟩
    rw [ht] at hstep ⊢
    have he := Accounts.get?_opened s.ledger.accounts conn ctx.policy.overhead conn
    rw [← ha, if_pos rfl] at he
    refine ⟨step_shift [_] rfl hstep hj (List.forall_mem_singleton.mpr rfl) fun _ _ => rfl,
      ?_, Or.inr ⟨_, rfl, he, rfl, rfl⟩⟩
    rw [closes, hj]
    rfl

end Service

/-- What a task in this state has of the entry `e` of its connection. -/
def TaskState.Holds (conn : ConnId) (e : Entry) : TaskState → Prop
  | .reading (.payload l got missing) =>
    0 < missing ∧ l.charge = ⟨conn, e.epoch, e.packetBytes⟩ ∧ e.packetBytes = got.length + missing
  | .holding p => p.lease.charge = ⟨conn, e.epoch, e.packetBytes⟩ ∧ e.packetBytes = p.payload.length
  | .spawned | .reading (.header _) | .ending _ => e.packetBytes = 0
  | .refused | .ended => False

/-- `s'` comes of `s` on behalf of `conn`, whose entry is then as a task in this state has it. -/
structure Service.Carries (overhead : Nat) (s : Service) (conn : ConnId) (s' : Service)
    (state : TaskState) : Prop where
  shift : s.Shift conn s'
  closes : s'.closes conn = s.closes conn
  entry : ∃ e, s'.entry? conn = some e ∧ e.overhead = overhead ∧ state.Holds conn e

namespace Frame

def Progress.state : Progress → TaskState
  | .more a => .reading a
  | .packet p => .holding p
  | .failed e => .ending (some e)

variable {s : Service} {ctx : HostContext} {conn : ConnId} {e : Entry} {a : Assembly}
variable {maxFrame n : Nat}

namespace Assembly

theorem begin_carries (taken : s.host = some ctx) (found : s.entry? conn = some e)
    (hz : e.packetBytes = 0) : s.Carries e.overhead conn (begin conn maxFrame n s).2
      (begin conn maxFrame n s).1.state := by
  rw [begin]
  split
  · exact ⟨.refl s conn, rfl, e, found, rfl, hz⟩
  · obtain ⟨hs, hc, hl⟩ := Service.lease_spec taken found n
    rcases hr : s.lease conn n with ⟨f | l, t⟩
    · simp only [hr, reduceCtorEq, false_and, exists_false, or_false] at hs hc hl
      obtain ⟨-, -, hl⟩ := hl
      exact ⟨hs, hc, e, hl, rfl, hz⟩
    · simp only [hr, reduceCtorEq, false_and, exists_false, false_or, Except.ok.injEq] at hs hc hl
      obtain ⟨_, rfl, hch, hl⟩ := hl
      have hb : (e.charge n).packetBytes = n := by simp [Entry.charge, hz]
      have hch : l.charge = ⟨conn, (e.charge n).epoch, (e.charge n).packetBytes⟩ := by
        rw [hb]
        exact hch
      refine ⟨hs, hc, _, hl, rfl, ?_⟩
      by_cases hn : n = 0
      · simp only [hn, ↓reduceIte] at hch hb ⊢
        exact ⟨hch, hb⟩
      · simp only [hn, ↓reduceIte]
        exact ⟨Nat.pos_of_ne_zero hn, hch, by simpa using hb⟩

/-- A byte more, and the task has what it comes to. -/
theorem push_carries (maxFrame : Nat) (taken : s.host = some ctx) (found : s.entry? conn = some e)
    (holds : (TaskState.reading a).Holds conn e) (b : UInt8) :
    s.Carries e.overhead conn (a.push conn maxFrame s b).2
      (a.push conn maxFrame s b).1.state := by
  cases a with
  | header got =>
    rw [push]
    split
    · exact ⟨.refl s conn, rfl, e, found, rfl, holds⟩
    · exact begin_carries taken found holds
  | payload l got missing =>
    obtain ⟨hpos, hch, hb⟩ := holds
    rw [push]
    split
    · refine ⟨.refl s conn, rfl, e, found, rfl, hch, ?_⟩
      simp only [List.length_reverse, List.length_cons]
      omega
    · refine ⟨.refl s conn, rfl, e, found, rfl, ?_, hch, ?_⟩
      · omega
      · simp only [List.length_cons]
        omega

theorem abandon_carries (found : s.entry? conn = some e)
    (holds : (TaskState.reading a).Holds conn e) (failure : Option IoError) :
    s.Carries e.overhead conn (a.abandon s) (.ending failure) := by
  cases a with
  | header got => exact ⟨.refl s conn, rfl, e, found, rfl, holds⟩
  | payload l got missing =>
    obtain ⟨-, hch, -⟩ := holds
    obtain ⟨hs, hc, he⟩ := Service.dropLease_spec found hch
    exact ⟨hs, hc, _, he, rfl, Nat.sub_self _⟩

end Assembly

end Frame

namespace Task

/-- Whether the connection of the task was admitted, and the service has not been told yet that it
is gone. -/
def live (t : Task) : Bool :=
  match t.state with
  | .refused | .ended => false
  | _ => true

/-- The length of the payload that is being read under a charge, or that is there. -/
def payload (t : Task) : Nat :=
  match t.state with
  | .reading (.payload _ got missing) => got.length + missing
  | .holding p => p.payload.length
  | _ => 0

/-- The bytes of the budget that are there for the task. -/
def share (overhead : Nat) (t : Task) : Nat := if t.live then overhead + t.payload else 0

/-- How the service stands to the connection of a task: while the task goes on, it is registered
with what the task holds; and it is reported closed at the end of the task and not before. -/
structure Backed (overhead : Nat) (s : Service) (t : Task) : Prop where
  closes : s.closes t.conn = if t.state = .ended then 1 else 0
  gone : t.live = false → s.entry? t.conn = none
  entry : t.live = true →
    ∃ e, s.entry? t.conn = some e ∧ e.overhead = overhead ∧ t.state.Holds t.conn e

variable {overhead : Nat} {s s' : Service} {t t' : Task}

/-- What a move of a task does. -/
structure Turn (overhead : Nat) (s : Service) (t : Task) (s' : Service) (t' : Task) : Prop where
  shift : s.Shift t.conn s'
  conn : t'.conn = t.conn
  peer : t'.peer = t.peer
  backed : t'.Backed overhead s'

theorem Turn.refl (h : t.Backed overhead s) : Turn overhead s t s t :=
  ⟨.refl s _, rfl, rfl, h⟩

theorem Turn.on (h : t.Backed overhead s) (hl : t.live = true)
    (carries : s.Carries overhead t.conn s' t'.state) (conn : t'.conn = t.conn)
    (peer : t'.peer = t.peer) : Turn overhead s t s' t' := by
  obtain ⟨e, entry, ho, holds⟩ := carries.entry
  have hne : t.state ≠ .ended := by
    intro he
    simp [live, he] at hl
  have hne' : t'.state ≠ .ended := by
    intro he
    simp [he, TaskState.Holds] at holds
  have hl' : t'.live = true := by
    unfold live
    split <;> simp_all [TaskState.Holds]
  refine ⟨carries.shift, conn, peer, ?_, fun hd => ?_, fun _ => ?_⟩
  · rw [conn, carries.closes, h.closes, if_neg hne, if_neg hne']
  · rw [hl'] at hd
    cases hd
  · rw [conn]
    exact ⟨e, entry, ho, holds⟩

variable {ctx : HostContext} {l : Limits} {h : Handler} {a : Frame.Assembly}

theorem atEnd_turn (hb : t.Backed overhead s) (hst : t.state = .reading a) (rest : List Arrival) :
    Turn overhead s t (advance.atEnd t a rest s).1 (advance.atEnd t a rest s).2 := by
  have hl : t.live = true := by rw [live, hst]
  obtain ⟨e, found, rfl, holds⟩ := hb.entry hl
  rw [hst] at holds
  have hs := a.finish_service s
  rcases hf : a.finish s with ⟨stop, u⟩
  rw [hf] at hs
  simp only [advance.atEnd, hf, hs]
  exact .on hb hl (Frame.Assembly.abandon_carries found holds _) rfl rfl

theorem reading_turn (taken : s.host = some ctx) (hb : t.Backed overhead s)
    (hst : t.state = .reading a) : Turn overhead s t (t.advance l h s).1 (t.advance l h s).2 := by
  have hl : t.live = true := by rw [live, hst]
  obtain ⟨e, found, rfl, holds⟩ := hb.entry hl
  have hread := holds
  rw [hst] at hread
  unfold advance
  rw [hst]
  simp only
  split
  · exact atEnd_turn hb hst []
  · exact atEnd_turn hb hst _
  · rename_i b bs rest _
    have hp := Frame.Assembly.push_carries l.maxFrame taken found hread b
    rcases hr : a.push t.conn l.maxFrame s b with ⟨a' | p | f, u⟩
    all_goals
      rw [hr] at hp
      exact .on hb hl hp rfl rfl
  · exact .on hb hl (Frame.Assembly.abandon_carries found hread _) rfl rfl
  · exact .on hb hl ⟨.refl s _, rfl, e, found, rfl, hread⟩ rfl rfl
  · exact .refl hb

/-- The handler has seen the packet, and it is let go. -/
theorem holding_turn {p : Packet} (quiet : h.Quiet) (hb : t.Backed overhead s)
    (hst : t.state = .holding p) : Turn overhead s t (t.advance l h s).1 (t.advance l h s).2 := by
  have hl : t.live = true := by rw [live, hst]
  obtain ⟨e, found, rfl, holds⟩ := hb.entry hl
  rw [hst] at holds
  obtain ⟨seen, rfl, hserve⟩ := Conversation.serve_quiet quiet t.conn p
    { input := t.input, sink := t.sink, service := s, exchanges := t.exchanges }
  have hn : (Notice.packet t.conn p.payload.length).remark = true := rfl
  -- The packet is reported first, so it is the service with the report that gets the lease back.
  obtain ⟨hs, hc, he⟩ := Service.dropLease_spec
    (s := s.note (.packet t.conn p.payload.length)) found holds.1
  rw [Service.closes_note s hn] at hc
  simp only [advance, hst, hserve]
  refine .on hb hl ⟨hs.of_note hn, hc, _, he, rfl, ?_⟩ rfl rfl
  split <;> exact Nat.sub_self _

theorem ending_turn {failure : Option IoError} (hb : t.Backed overhead s)
    (hst : t.state = .ending failure) :
    Turn overhead s t (t.advance l h s).1 (t.advance l h s).2 := by
  have hl : t.live = true := by rw [live, hst]
  obtain ⟨e, found, -⟩ := hb.entry hl
  have hn : (Notice.ended t.conn t.peer failure).remark = true := rfl
  obtain ⟨hs, hc, he⟩ := Service.close_spec (s := s.note (.ended t.conn t.peer failure)) found
  rw [Service.closes_note s hn, hb.closes, hst] at hc
  simp only [advance, hst]
  exact ⟨hs.of_note hn, rfl, rfl, hc, fun _ => he, nofun⟩

theorem advance_turn (quiet : h.Quiet) (taken : s.host = some ctx) (hb : t.Backed overhead s) :
    Turn overhead s t (t.advance l h s).1 (t.advance l h s).2 := by
  cases hst : t.state with
  | refused | ended =>
    simp only [advance, hst]
    exact .refl hb
  | spawned =>
    have hl : t.live = true := by rw [live, hst]
    obtain ⟨e, found, rfl, holds⟩ := hb.entry hl
    rw [hst] at holds
    simp only [advance, hst]
    exact .on hb hl ⟨(Service.Shift.refl s _).note rfl, Service.closes_note s rfl _, e, found, rfl,
      holds⟩ rfl rfl
  | reading a => exact reading_turn taken hb hst
  | holding p => exact holding_turn quiet hb hst
  | ending failure => exact ending_turn hb hst

theorem expire_turn (hb : t.Backed overhead s) :
    Turn overhead s t (t.expire l s).1 (t.expire l s).2 := by
  unfold expire
  split
  · rename_i a hst
    have hl : t.live = true := by rw [live, hst]
    obtain ⟨e, found, rfl, holds⟩ := hb.entry hl
    rw [hst] at holds
    split
    · exact .refl hb
    · obtain ⟨hs, hc, he⟩ := Frame.Assembly.abandon_carries found holds none
      exact .on hb hl ⟨hs.note rfl, (Service.closes_note _ rfl _).trans hc, he⟩ rfl rfl
  · exact .refl hb

end Task

end PacketBudget
