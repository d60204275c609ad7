import PacketBudget.Proofs.Tasks

/-!
A host and all its tasks. However the sockets that it accepts and the moves of their tasks follow
on one another, the service has just the connections whose tasks go on, with what they hold, and
each that was admitted is closed once.
-/

namespace PacketBudget

/-- One element is replaced, and with it what it adds to a sum. -/
theorem total_set {α : Type} {xs : List α} {i : Nat} {x : α} (h : xs[i]? = some x) (y : α)
    (f : α → Nat) : total ((xs.set i y).map f) + f x = total (xs.map f) + f y := by
  induction xs generalizing i with
  | nil => cases h
  | cons z xs ih =>
    cases i with
    | zero =>
      cases h
      simp only [List.set_cons_zero, List.map_cons, total]
      omega
    | succ i =>
      have hi := ih (i := i) h
      simp only [List.set_cons_succ, List.map_cons, total]
      omega

theorem map_set_of_eq {α β : Type} {xs : List α} {i : Nat} {x y : α} {f : α → β}
    (h : xs[i]? = some x) (hf : f y = f x) : (xs.set i y).map f = xs.map f := by
  obtain ⟨hi, rfl⟩ := List.getElem?_eq_some_iff.mp h
  have hm : i < (xs.map f).length := by simpa using hi
  have hx : f xs[i] = (xs.map f)[i] := (List.getElem_map f).symm
  rw [List.map_set, hf, hx, List.set_getElem_self]

theorem of_getElem?_set {α : Type} {xs : List α} {x y : α} {i j : Nat}
    (h : (xs.set i x)[j]? = some y) : j = i ∧ y = x ∨ j ≠ i ∧ xs[j]? = some y := by
  rw [List.getElem?_set] at h
  split at h
  · rename_i hij
    split at h
    · exact Or.inl ⟨hij.symm, (Option.some.inj h).symm⟩
    · cases h
  · rename_i hij
    exact Or.inr ⟨Ne.symm hij, h⟩

namespace Task

variable {overhead : Nat} {s s' : Service} {t : Task}

theorem payload_of_not_live (h : t.live = false) : t.payload = 0 := by
  unfold live at h
  split at h
  · rename_i hs
    rw [payload, hs]
  · rename_i hs
    rw [payload, hs]
  · cases h

theorem packetBytes_eq {conn : ConnId} {e : Entry} (h : t.state.Holds conn e) :
    e.packetBytes = t.payload := by
  unfold payload
  rcases hs : t.state with _ | _ | (got | ⟨l, got, missing⟩) | p | failure | _ <;> rw [hs] at h
  · exact h.elim
  · exact h
  · exact h
  · exact h.2.2
  · exact h.2
  · exact h
  · exact h.elim

theorem Backed.entry_eq (h : t.Backed overhead s) :
    s.ledger.table.part Entry.charged t.conn = t.share overhead ∧
      s.ledger.table.part (fun _ => 1) t.conn = t.live.toNat := by
  cases hl : t.live with
  | false =>
    rw [Table.part_of_none (h.gone hl), Table.part_of_none (h.gone hl), share, hl]
    exact ⟨rfl, rfl⟩
  | true =>
    obtain ⟨e, he, ho, holds⟩ := h.entry hl
    rw [Table.part_of_some he, Table.part_of_some he, share, hl, ← ho, ← packetBytes_eq holds]
    exact ⟨rfl, rfl⟩

/-- What is done on behalf of another connection does not show. -/
theorem Backed.of_shift {conn : ConnId} (h : t.Backed overhead s) (shift : s.Shift conn s')
    (hne : t.conn ≠ conn) : t.Backed overhead s' := by
  obtain ⟨he, hc⟩ := shift.others t.conn hne
  exact ⟨hc.trans h.closes, fun hl => he.trans (h.gone hl), fun hl => he ▸ h.entry hl⟩

end Task

namespace Service

variable {s t : Service} {conn : ConnId}

/-- What is in use and how many connections there are changes with the entry of `conn`. -/
theorem Shift.sums (h : s.Shift conn t) (hs : s.Audited) (ht : t.Audited) :
    t.used + s.ledger.table.part Entry.charged conn =
        s.used + t.ledger.table.part Entry.charged conn ∧
      t.active + s.ledger.table.part (fun _ => 1) conn =
        s.active + t.ledger.table.part (fun _ => 1) conn := by
  have hsum := Table.sum_of_others hs.balanced.sound ht.balanced.sound
    (fun j hj => (h.others j hj).1)
  constructor
  · have hs := hs.balanced.used_eq
    have ht := ht.balanced.used_eq
    rw [used, Ledger.used, ht, used, Ledger.used, hs]
    exact hsum Entry.charged
  · rw [active, active, Table.size_eq_sum, Table.size_eq_sum]
    exact hsum fun _ => 1

end Service

namespace Host

/-- The number of a socket that was accepted after `i` others. -/
def connOf (i : Nat) : ConnId := ⟨UInt64.ofNat (i + 1)⟩

theorem connOf_inj {i j m : Nat} (hi : i < m) (hj : j < m) (few : m < UInt64.size)
    (h : connOf i = connOf j) : i = j := by
  have hv := congrArg (·.val.toNat) h
  simp only [connOf] at hv
  rw [UInt64.toNat_ofNat_of_lt' (by omega), UInt64.toNat_ofNat_of_lt' (by omega)] at hv
  omega

/-- The service has just the connections whose tasks go on, with what they hold. -/
structure Kept (ctx : HostContext) (peers : List String) (h : Host) : Prop where
  quiet : h.handler.Quiet
  sockets : h.tasks.map Task.peer = peers
  taken : h.service.host = some ctx
  audited : h.service.Audited
  orderly : h.service.Orderly
  next : h.nextConn = UInt64.ofNat (h.tasks.length + 1)
  numbered : ∀ (i : Nat) (t : Task), h.tasks[i]? = some t → t.conn = connOf i
  backed : ∀ (i : Nat) (t : Task), h.tasks[i]? = some t → t.Backed ctx.policy.overhead h.service
  strangers : ∀ id, (∀ (i : Nat) (t : Task), h.tasks[i]? = some t → t.conn ≠ id) →
    h.service.entry? id = none ∧ h.service.closes id = 0
  used : h.service.used = total (h.tasks.map (Task.share ctx.policy.overhead))
  active : h.service.active = total (h.tasks.map fun t => t.live.toNat)

variable {ctx : HostContext} {ps : List String} {h : Host}

theorem total_live (ts : List Task) :
    total (ts.map fun t => t.live.toNat) = ts.countP Task.live := by
  induction ts with
  | nil => rfl
  | cons t ts ih =>
    rw [List.map_cons, total, ih, countP_cons_toNat, Nat.add_comm]

theorem Kept.few (k : h.Kept ctx ps) (few : h.tasks.length < UInt64.size) :
    h.service.active < UInt64.size := by
  rw [k.active, total_live]
  exact Nat.lt_of_le_of_lt List.countP_le_length few

theorem accept_of_ok {peer : String} {input : List Arrival} {sink : Sink} {s : Service}
    (hs : h.service.connect ⟨h.nextConn⟩ = (.ok (), s)) :
    h.accept peer input sink = { h with
      service := s
      nextConn := h.nextConn + 1
      tasks := h.tasks ++ [⟨⟨h.nextConn⟩, peer, input, sink, [], .spawned⟩] } := by
  simp only [accept, hs]

theorem accept_of_error {peer : String} {input : List Arrival} {sink : Sink} {s : Service}
    {f : Fault} (hs : h.service.connect ⟨h.nextConn⟩ = (.error f, s)) :
    h.accept peer input sink = { h with
      service := s.note (.turnedAway ⟨h.nextConn⟩ peer f)
      nextConn := h.nextConn + 1
      tasks := h.tasks ++ [⟨⟨h.nextConn⟩, peer, input, sink, [], .refused⟩] } := by
  simp only [accept, hs]

/-- The next number is nobody's. -/
theorem Kept.fresh (k : h.Kept ctx ps) (few : h.tasks.length + 1 < UInt64.size) (i : Nat) (t : Task)
    (ht : h.tasks[i]? = some t) : t.conn ≠ connOf h.tasks.length := by
  intro he
  have hi := (List.getElem?_eq_some_iff.mp ht).1
  rw [k.numbered i t ht] at he
  have := connOf_inj (m := h.tasks.length + 1) (by omega) (by omega) few he
  omega

/-- One more task, for a connection that there was not. -/
theorem Kept.snoc {s : Service} {t : Task} (k : h.Kept ctx ps)
    (few : h.tasks.length + 1 < UInt64.size) (conn : t.conn = connOf h.tasks.length)
    (shift : h.service.Shift t.conn s) (backed : t.Backed ctx.policy.overhead s) :
    Kept ctx (ps ++ [t.peer])
      { h with service := s, nextConn := h.nextConn + 1, tasks := h.tasks ++ [t] } := by
  have haudited : s.Audited := shift.audited k.audited (k.few (by omega))
  have hother : ∀ (i : Nat) (u : Task), h.tasks[i]? = some u → u.conn ≠ t.conn := by
    rw [conn]
    exact k.fresh few
  obtain ⟨hnone, -⟩ := k.strangers t.conn hother
  obtain ⟨hused, hactive⟩ := shift.sums k.audited haudited
  obtain ⟨hshare, hlive⟩ := backed.entry_eq
  rw [Table.part_of_none hnone, hshare] at hused
  rw [Table.part_of_none hnone, hlive] at hactive
  constructor
  · exact k.quiet
  · simp only [List.map_append, k.sockets, List.map_cons, List.map_nil]
  · exact shift.host.trans k.taken
  · exact haudited
  · exact shift.orderly k.orderly
  · simp only [List.length_append, List.length_singleton, k.next]
    rw [UInt64.ofNat_add (h.tasks.length + 1) 1]
    rfl
  · intro i u hu
    rcases getElem?_snoc hu with hu | ⟨rfl, rfl⟩
    · exact k.numbered i u hu
    · exact conn
  · intro i u hu
    rcases getElem?_snoc hu with hu | ⟨rfl, rfl⟩
    · exact (k.backed i u hu).of_shift shift (hother i u hu)
    · exact backed
  · intro id hid
    have hne : id ≠ t.conn := by
      rintro rfl
      exact hid h.tasks.length t (by simp) rfl
    obtain ⟨he, hc⟩ := shift.others id hne
    obtain ⟨hn, hz⟩ := k.strangers id fun i u hu => by
      refine hid i u ?_
      exact (List.getElem?_append_left (List.getElem?_eq_some_iff.mp hu).1).trans hu
    exact ⟨he.trans hn, hc.trans hz⟩
  · simp only [List.map_append, total_append, List.map_cons, List.map_nil, total, ← k.used]
    exact hused
  · simp only [List.map_append, total_append, List.map_cons, List.map_nil, total, ← k.active]
    exact hactive

/-- A socket is accepted. -/
theorem kept_accept (k : h.Kept ctx ps) (few : h.tasks.length + 1 < UInt64.size) (peer : String)
    (input : List Arrival) (sink : Sink) : (h.accept peer input sink).Kept ctx (ps ++ [peer]) := by
  have hnext : (⟨h.nextConn⟩ : ConnId) = connOf h.tasks.length := congrArg ConnId.mk k.next
  obtain ⟨hnone, hzero⟩ := k.strangers _ (k.fresh few)
  rw [← hnext] at hnone hzero
  obtain ⟨hs, hc, ho⟩ := Service.connect_spec k.taken hnone
  rcases hr : h.service.connect ⟨h.nextConn⟩ with ⟨f | u, s⟩
  all_goals simp only [hr] at hs hc ho
  · rw [accept_of_error hr]
    obtain ⟨-, -, hgone⟩ := ho.resolve_right nofun
    refine k.snoc (t := ⟨⟨h.nextConn⟩, peer, input, sink, [], .refused⟩) few hnext (hs.note rfl)
      ⟨?_, fun _ => hgone, nofun⟩
    exact (Service.closes_note s rfl _).trans (hc.trans hzero)
  · rw [accept_of_ok hr]
    obtain ⟨e, -, he, hover, hz⟩ := ho.resolve_left nofun
    exact k.snoc (t := ⟨⟨h.nextConn⟩, peer, input, sink, [], .spawned⟩) few hnext hs
      ⟨hc.trans hzero, nofun, fun _ => ⟨e, he, hover, hz⟩⟩

/-- One task makes a move, on behalf of its connection. -/
theorem Kept.replaced {s : Service} {t t' : Task} {i : Nat} (k : h.Kept ctx ps)
    (few : h.tasks.length < UInt64.size) (ht : h.tasks[i]? = some t)
    (turn : Task.Turn ctx.policy.overhead h.service t s t') :
    Kept ctx ps { h with service := s, tasks := h.tasks.set i t' } := by
  have hb := k.backed i t ht
  obtain ⟨shift, conn, peer, backed⟩ := turn
  have haudited : s.Audited := shift.audited k.audited (k.few few)
  obtain ⟨hi, -⟩ := List.getElem?_eq_some_iff.mp ht
  obtain ⟨hused, hactive⟩ := shift.sums k.audited haudited
  have hafter := backed.entry_eq
  rw [conn] at hafter
  rw [hb.entry_eq.1, hafter.1, k.used] at hused
  rw [hb.entry_eq.2, hafter.2, k.active] at hactive
  have hshares := total_set ht t' (Task.share ctx.policy.overhead)
  have hlive := total_set ht t' fun t => t.live.toNat
  constructor
  · exact k.quiet
  · exact (map_set_of_eq ht peer).trans k.sockets
  · exact shift.host.trans k.taken
  · exact haudited
  · exact shift.orderly k.orderly
  · simp only [List.length_set]
    exact k.next
  · intro j u hu
    rcases of_getElem?_set hu with ⟨rfl, rfl⟩ | ⟨-, hu⟩
    · rw [conn]
      exact k.numbered j t ht
    · exact k.numbered j u hu
  · intro j u hu
    rcases of_getElem?_set hu with ⟨rfl, rfl⟩ | ⟨hj, hu⟩
    · exact backed
    · -- Ids number the sockets, and have not come round: another task has another id.
      refine (k.backed j u hu).of_shift shift fun he => hj ?_
      rw [k.numbered j u hu, k.numbered i t ht] at he
      exact connOf_inj (List.getElem?_eq_some_iff.mp hu).1 hi few he
  · intro id hid
    have hne : id ≠ t.conn := by
      rintro rfl
      exact hid i t' (List.getElem?_set_self hi) conn
    obtain ⟨he, hc⟩ := shift.others id hne
    obtain ⟨hn, hz⟩ := k.strangers id fun j u hu => by
      by_cases hj : j = i
      · subst hj
        obtain rfl := Option.some.inj (ht.symm.trans hu)
        exact Ne.symm hne
      · exact hid j u ((List.getElem?_set_ne (Ne.symm hj)).trans hu)
    exact ⟨he.trans hn, hc.trans hz⟩
  · simp only
    omega
  · simp only
    omega

/-- A task makes a move. -/
theorem kept_onTask {f : Service → Task → Service × Task} (k : h.Kept ctx ps)
    (few : h.tasks.length < UInt64.size) (i : Nat)
    (turn : ∀ t, t.Backed ctx.policy.overhead h.service →
      Task.Turn ctx.policy.overhead h.service t (f h.service t).1 (f h.service t).2) :
    (h.onTask i f).Kept ctx ps := by
  unfold onTask
  split
  · exact k
  · rename_i t ht
    exact k.replaced few ht (turn t (k.backed i t ht))

/-- The clients of the sockets that are accepted, in order. -/
def peers : List Move → List String
  | [] => []
  | .accept peer _ _ :: ms => peer :: peers ms
  | .advance _ :: ms | .expire _ :: ms => peers ms

theorem kept_run (k : h.Kept ctx ps) (ms : List Move)
    (few : (ps ++ peers ms).length < UInt64.size) : (h.run ms).Kept ctx (ps ++ peers ms) := by
  induction ms generalizing h ps with
  | nil =>
    rw [peers, List.append_nil]
    exact k
  | cons m ms ih =>
    have hlen : h.tasks.length = ps.length := by rw [← k.sockets, List.length_map]
    have hps : ps.length ≤ (ps ++ peers (m :: ms)).length := by
      rw [List.length_append]
      exact Nat.le_add_right _ _
    cases m with
    | accept peer input sink =>
      rw [peers, List.append_cons] at few ⊢
      refine ih (kept_accept k ?_ peer input sink) few
      simp only [List.length_append, List.length_singleton] at few
      omega
    | advance i =>
      exact ih (kept_onTask k (by omega) i fun t hb => Task.advance_turn k.quiet k.taken hb) few
    | expire i => exact ih (kept_onTask k (by omega) i fun t hb => Task.expire_turn hb) few

/-- A host whose sockets came from `peers`, at some moment. -/
structure InOrder (overhead : Nat) (peers : List String) (h : Host) : Prop where
  sockets : h.tasks.map Task.peer = peers
  numbered : ∀ (i : Nat) (t : Task), h.tasks[i]? = some t → t.conn.val.toNat = i + 1
  reports : h.service.Orderly
  registered : ∀ id, h.service.entry? id ≠ none ↔ ∃ t ∈ h.tasks, t.conn = id ∧ t.live = true
  active : h.service.active = h.tasks.countP Task.live
  used : h.service.used = overhead * h.service.active + total (h.tasks.map Task.payload)
  gauge : h.service.counters.activeConnections.toNat = h.service.active
  closed : ∀ t ∈ h.tasks, h.service.closes t.conn = if t.state = .ended then 1 else 0
  noOther : ∀ id, (∀ t ∈ h.tasks, t.conn ≠ id) → h.service.closes id = 0
  /-- When all tasks are over, everything has been given back. -/
  finished : (∀ t ∈ h.tasks, t.live = false) →
    h.service.used = 0 ∧ h.service.counters.activeConnections = 0 ∧
      h.service.counters.bytesReserved = h.service.counters.bytesReleased

theorem total_share (overhead : Nat) (ts : List Task) :
    total (ts.map (Task.share overhead)) =
      overhead * ts.countP Task.live + total (ts.map Task.payload) := by
  induction ts with
  | nil => rfl
  | cons t ts ih =>
    have ht : t.share overhead = overhead * t.live.toNat + t.payload := by
      rcases hl : t.live with _ | _
      · rw [Task.share, hl, Task.payload_of_not_live hl]
        rfl
      · rw [Task.share, hl, Bool.toNat_true, Nat.mul_one, if_pos rfl]
    rw [List.map_cons, total, ih, ht, countP_cons_toNat, List.map_cons, total, Nat.mul_add]
    omega

theorem Kept.inOrder (k : h.Kept ctx ps) (few : ps.length < UInt64.size) :
    h.InOrder ctx.policy.overhead ps := by
  have hlen : h.tasks.length = ps.length := by rw [← k.sockets, List.length_map]
  have hactive : h.service.active = h.tasks.countP Task.live := k.active.trans (total_live h.tasks)
  have hused : h.service.used =
      ctx.policy.overhead * h.service.active + total (h.tasks.map Task.payload) := by
    rw [k.used, hactive, total_share]
  have hbacked : ∀ t ∈ h.tasks, t.Backed ctx.policy.overhead h.service := by
    intro t ht
    obtain ⟨i, hi⟩ := List.mem_iff_getElem?.mp ht
    exact k.backed i t hi
  obtain ⟨es, ended, x, hx⟩ := k.audited
  have hgauge : h.service.counters.activeConnections.toNat = h.service.active := by
    have hxa : x .activeConnections = h.service.active := hx.tallied.active
    exact (hx.toNat_eq (c := .activeConnections) (hxa ▸ k.few (hlen ▸ few))).trans hxa
  refine ⟨k.sockets, fun i t ht => ?_, k.orderly, fun id => ⟨fun he => ?_, ?_⟩, hactive, hused,
    hgauge, fun t ht => (hbacked t ht).closes, fun id hid => ?_, fun hover => ?_⟩
  · have hi := (List.getElem?_eq_some_iff.mp ht).1
    rw [k.numbered i t ht, connOf, UInt64.toNat_ofNat_of_lt' (by omega)]
  · by_cases hid : ∃ t ∈ h.tasks, t.conn = id
    · obtain ⟨t, ht, rfl⟩ := hid
      cases hl : t.live with
      | true => exact ⟨t, ht, rfl, hl⟩
      | false => exact absurd ((hbacked t ht).gone hl) he
    · obtain ⟨hn, -⟩ := k.strangers id fun i t ht hc => hid ⟨t, List.mem_of_getElem? ht, hc⟩
      exact absurd hn he
  · rintro ⟨t, ht, rfl, hl⟩
    obtain ⟨e, he, -⟩ := (hbacked t ht).entry hl
    rw [he]
    nofun
  · refine (k.strangers id fun i t ht => ?_).2
    exact hid t (List.mem_of_getElem? ht)
  · have hzero : h.service.active = 0 := by
      rw [hactive]
      exact List.countP_eq_zero.mpr fun t ht => by simp [hover t ht]
    have hempty : h.service.used = 0 := by
      rw [k.used]
      exact total_eq_zero fun t ht => by rw [Task.share, hover t ht]; rfl
    refine ⟨hempty, UInt64.toNat_inj.mp (hgauge.trans hzero), ?_⟩
    have hb : x .bytesReserved = x .bytesReleased + h.service.used := hx.tallied.bytes
    have hr : h.service.counters.bytesReserved = _ := hx.shown .bytesReserved
    have hf : h.service.counters.bytesReleased = _ := hx.shown .bytesReleased
    rw [hr, hf, hb, hempty, Nat.add_zero]

end Host

end PacketBudget
