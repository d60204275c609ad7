import PacketBudget.Proofs.Balance
import PacketBudget.Proofs.Epochs
import PacketBudget.Proofs.FirstHost
import PacketBudget.Proofs.Reception

/-!
Conversations whose handler calls the service back. A packet is charged to the registration that
its connection has when its header is complete, and is let go when the handler is done with it,
whatever the handler has done to the connection in between: a registration that the handler has
ended gets nothing back, and one that it has opened loses nothing. The books balance throughout.
-/

namespace PacketBudget

namespace Frame

/-- The bytes `cs` come in one after another and in time, in whatever pieces and with whatever
delays between them. -/
inductive Brings (deadline : Option Nat) : Nat → List Arrival → Bytes → Prop
  | nothing {now : Nat} {as : List Arrival} : Brings deadline now as []
  | byte {now : Nat} {b : UInt8} {bs cs : Bytes} {as : List Arrival}
      (more : Brings deadline now (requeue bs as) cs) :
      Brings deadline now (.data (b :: bs) :: as) (b :: cs)
  | delay {now ms : Nat} {cs : Bytes} {as : List Arrival}
      (early : inTime deadline (now + ms) = true) (more : Brings deadline (now + ms) as cs) :
      Brings deadline now (.delay ms :: as) cs

variable {conn : ConnId} {maxFrame : Nat} {deadline : Option Nat}

/-- Pieces can be read byte by byte. -/
theorem read_byte (b : UInt8) (bs : Bytes) (as : List Arrival) (a : Assembly) (now : Nat)
    (s : Service) :
    read conn maxFrame deadline (.data (b :: bs) :: as) a now s =
      match a.push conn maxFrame s b with
      | (.more a, s) => read conn maxFrame deadline (requeue bs as) a now s
      | (.packet p, s) => ⟨.packet p, requeue bs as, now, s⟩
      | (.failed e, s) => ⟨.failed e, requeue bs as, now, s⟩ := by
  rw [read, Assembly.feed]
  rcases a.push conn maxFrame s b with ⟨a' | p | e, t⟩
  · cases bs with
    | nil => rfl
    | cons c cs =>
      show _ = read conn maxFrame deadline (.data (c :: cs) :: as) a' now t
      rw [read]
  · rfl
  · rfl

/-- A header that comes in and is refused is the end of the reading. -/
theorem read_refused {as : List Arrival} {got hd : Bytes} {now : Nat} {s t : Service}
    {e : IoError} (hb : Brings deadline now as hd) (hg : got.length < headerSize)
    (hw : got.length + hd.length = headerSize)
    (hr : Assembly.begin conn maxFrame (lengthOf (got.reverse ++ hd)) s = (.failed e, t)) :
    (read conn maxFrame deadline as (.header got) now s).stop = .failed e := by
  induction hb generalizing got with
  | nothing =>
    rw [List.length_nil] at hw
    omega
  | @byte now b bs cs as more ih =>
    have hcons : (b :: got).reverse ++ cs = got.reverse ++ b :: cs := by
      rw [List.reverse_cons, List.append_assoc, List.singleton_append]
    rw [List.length_cons] at hw
    rw [read_byte, Assembly.push]
    by_cases hlt : got.length + 1 < headerSize
    · rw [if_pos hlt]
      apply ih
      · exact hlt
      · rw [List.length_cons]
        omega
      · rw [hcons]
        exact hr
    · obtain rfl : cs = [] := List.eq_nil_of_length_eq_zero (by omega)
      rw [List.append_nil] at hcons
      rw [if_neg hlt, hcons, hr]
  | delay early more ih =>
    rw [read, if_pos early]
    exact ih hg hw hr

/-- A packet that comes of the bytes has been granted as things stood before the first of them. -/
theorem Assembly.granted_of_feed {s t : Service} {bs left : Bytes} {p : Packet}
    (h : fresh.feed conn maxFrame s bs = (.packet p, left, t)) :
    s.lease conn p.payload.length = (.ok p.lease, t) := by
  by_cases hs : bs.length < headerSize
  · rw [fresh, feed_header (by simpa using hs)] at h
    cases h
  obtain ⟨hd, tl, rfl, hh⟩ := exists_header hs
  by_cases hm : maxFrame < lengthOf hd
  · rw [feed_fresh hh, begin, if_pos hm] at h
    cases h
  rcases hl : s.lease conn (lengthOf hd) with ⟨f | l, u⟩
  · rw [feed_fresh hh, begin, if_neg hm] at h
    simp only [hl, Prod.mk.injEq, reduceCtorEq, false_and] at h
  · rw [feed_granted hh (Nat.not_lt.mp hm) hl] at h
    split at h
    · rename_i hn
      cases h
      rw [List.length_take_of_le hn]
      exact hl
    · cases h

theorem read_granted {as rest : List Arrival} {now now' : Nat} {s t : Service} {p : Packet}
    (h : read conn maxFrame deadline as .fresh now s = ⟨.packet p, rest, now', t⟩) :
    s.lease conn p.payload.length = (.ok p.lease, t) := by
  obtain ⟨front, -, hf⟩ := read_packet (congrArg Reading.stop h)
  rw [h] at hf
  exact Assembly.granted_of_feed hf

end Frame

namespace Service

variable {s t : Service} {conn : ConnId} {n m : Nat} {l : Lease}

theorem step_lease (h : s.lease conn n = (.ok l, t)) : s.step (.lease conn n) = (.leased l, t) := by
  simp only [step, h, outcome]

theorem Numbered.lease (hn : s.Numbered m) (h : s.lease conn n = (.ok l, t)) : t.Numbered m := by
  have hs := numbered_step hn (.lease conn n)
  rw [step_lease h] at hs
  simpa only [opened, step_lease h, List.length_nil, Nat.add_zero] using hs

theorem Numbered.dropLease (hn : s.Numbered m) (l : Lease) : (s.dropLease l).Numbered m :=
  numbered_step hn (.drop l)

theorem Numbered.note (hn : s.Numbered m) (x : Notice) : (s.note x).Numbered m :=
  ⟨hn.next, hn.live⟩

/-- `t` comes of `s` by calls and reports. -/
inductive Reaches (s : Service) : Service → Prop
  | refl : Reaches s s
  | call {t : Service} (h : Reaches s t) (k : Call) : Reaches s (t.step k).2
  | note {t : Service} (h : Reaches s t) (x : Notice) : Reaches s (t.note x)

namespace Reaches

theorem trans {u : Service} (h : s.Reaches t) (h' : t.Reaches u) : s.Reaches u := by
  induction h' with
  | refl => exact h
  | call _ k ih => exact ih.call k
  | note _ x ih => exact ih.note x

theorem run (h : s.Reaches t) (ks : List Call) : s.Reaches (t.run ks).2 :=
  run_keeps (fun _ k ht => ht.call k) h ks

theorem lease (h : s.Reaches t) (conn : ConnId) (n : Nat) : s.Reaches (t.lease conn n).2 := by
  have hk := h.call (.lease conn n)
  rwa [step, outcome_service] at hk

theorem dropLease (h : s.Reaches t) (l : Lease) : s.Reaches (t.dropLease l) := h.call (.drop l)

theorem balanced (h : s.Reaches t) (hb : s.ledger.accounts.Balanced) :
    t.ledger.accounts.Balanced := by
  induction h with
  | refl => exact hb
  | @call t _ k ih => exact (step_move t k).balanced ih
  | note _ x ih => exact ih

theorem initialized (h : s.Reaches t) (hs : s.isInitialized = true) : t.isInitialized = true := by
  induction h with
  | refl => exact hs
  | call _ k ih =>
    rw [isInitialized, host_step_eq, Option.isSome_or, Bool.or_eq_true]
    exact Or.inl ih
  | note _ x ih => exact ih

end Reaches

/-- A packet of a connection that is not registered is refused once there is a host. -/
theorem lease_unregistered (hs : s.isInitialized = true) (gone : s.entry? conn = none) (n : Nat) :
    ∃ t, s.lease conn n = (.error (.unknownConnection conn), t) := by
  obtain ⟨host, taken⟩ := Option.isSome_iff_exists.mp hs
  have hc : s.ledger.accounts.charge conn n host.policy.cap = .error (.unknownConnection conn) := by
    have hg : s.ledger.accounts.table.get? conn = none := gone
    simp only [Accounts.charge, hg]
  obtain ⟨t, ht, -⟩ := lease_of_refusal taken hc
  exact ⟨t, ht⟩

end Service

namespace Frame

variable {conn : ConnId} {maxFrame : Nat} {s t : Service}

namespace Assembly

theorem reaches_abandon (h : s.Reaches t) (a : Assembly) : s.Reaches (a.abandon t) := by
  cases a with
  | header => exact h
  | payload l => exact h.dropLease l

theorem reaches_begin (h : s.Reaches t) (conn : ConnId) (maxFrame n : Nat) :
    s.Reaches (begin conn maxFrame n t).2 := by
  have hlease := h.lease conn n
  rw [begin]
  split
  · exact h
  · split <;> rename_i hr <;> rw [hr] at hlease <;> exact hlease

theorem reaches_push (h : s.Reaches t) (conn : ConnId) (maxFrame : Nat) (a : Assembly)
    (b : UInt8) : s.Reaches (a.push conn maxFrame t b).2 := by
  cases a with
  | header got =>
    rw [push]
    split
    · exact h
    · exact reaches_begin h conn maxFrame _
  | payload l got missing =>
    rw [push]
    split <;> exact h

theorem reaches_feed (h : s.Reaches t) (conn : ConnId) (maxFrame : Nat) (a : Assembly)
    (bs : Bytes) : s.Reaches (a.feed conn maxFrame t bs).2.2 := by
  induction bs generalizing a t with
  | nil => exact h
  | cons b bs ih =>
    have hp := reaches_push h conn maxFrame a b
    rw [feed]
    rcases hb : a.push conn maxFrame t b with ⟨a' | p | e, u⟩
    all_goals rw [hb] at hp
    · exact ih hp a'
    · exact hp
    · exact hp

end Assembly

theorem reaches_read (h : s.Reaches t) (conn : ConnId) (maxFrame : Nat) (deadline : Option Nat)
    (as : List Arrival) (a : Assembly) (now : Nat) :
    s.Reaches (read conn maxFrame deadline as a now t).service := by
  fun_induction read conn maxFrame deadline as a now t with
  | case1 a now t stop u hf | case2 rest a now t stop u hf =>
    have hu := a.reaches_abandon h
    rwa [← a.finish_service, hf] at hu
  | case3 b bs rest a now t a' left u hf ih =>
    have hu := a.reaches_feed h conn maxFrame (b :: bs)
    rw [hf] at hu
    exact ih hu
  | case4 b bs rest a now t p left u hf | case5 b bs rest a now t e left u hf =>
    have hu := a.reaches_feed h conn maxFrame (b :: bs)
    rwa [hf] at hu
  | case6 e rest a now t => exact a.reaches_abandon h
  | case7 ms rest a now t ht ih => exact ih h
  | case8 ms rest a now t ht => exact h
  | case9 rest a now t => exact h

end Frame

namespace Conversation

open PacketBudget.Frame (Brings)

/-- A packet that a conversation has read: where it began to read, and what that came to. -/
structure Visit (l : Limits) (conn : ConnId) (patience : Option Nat) where
  start : Conversation
  packet : Packet
  rest : List Arrival
  now : Nat
  /-- The service with the packet charged. -/
  held : Service
  read : Frame.read conn l.maxFrame (earlier (l.deadline start.now) patience) start.input .fresh
    start.now start.service = ⟨.packet packet, rest, now, held⟩

variable {l : Limits} {h : Handler} {conn : ConnId} {patience : Option Nat}
variable {c d : Conversation}

namespace Visit

/-- The service that the handler meets. -/
def seen (v : Visit l conn patience) : Service :=
  v.held.note (.packet conn v.packet.payload.length)

/-- The calls that the handler makes. -/
def calls (v : Visit l conn patience) (h : Handler) : List Call :=
  (h.respond v.start.exchanges v.seen conn v.packet.payload).calls

/-- The service that the handler leaves. -/
def left (v : Visit l conn patience) (h : Handler) : Service := (v.seen.run (v.calls h)).2

/-- How many registrations the handler opens. -/
def opens (v : Visit l conn patience) (h : Handler) : Nat :=
  (v.seen.registrations (v.calls h)).length

/-- The conversation after the visit, and the failure to reply if there is one. -/
def served (v : Visit l conn patience) (h : Handler) : Option IoError × Conversation :=
  serve h conn v.packet { v.start with input := v.rest, now := v.now, service := v.held }

def exchange (v : Visit l conn patience) (h : Handler) : Exchange :=
  ⟨v.packet.payload, v.seen, (v.seen.run (v.calls h)).1⟩

variable (v : Visit l conn patience) (h : Handler)

theorem service_served : (v.served h).2.service = (v.left h).dropLease v.packet.lease := rfl

theorem exchanges_served : (v.served h).2.exchanges = v.exchange h :: v.start.exchanges := rfl

theorem granted : v.start.service.lease conn v.packet.payload.length =
    (.ok v.packet.lease, v.held) :=
  Frame.read_granted v.read

/-- The packet is charged to the registration that there is when it is read. -/
theorem charged : ∃ e, v.start.service.entry? conn = some e ∧
    v.packet.lease.charge = ⟨conn, e.epoch, v.packet.payload.length⟩ ∧
    v.seen.entry? conn = some (e.charge v.packet.payload.length) := by
  obtain ⟨e, found, hcharge, hold⟩ := Service.lease_ok v.granted
  exact ⟨e, found, hcharge, hold.found⟩

variable {v}

theorem reaches_seen (v : Visit l conn patience) : v.start.service.Reaches v.seen := by
  have hheld := Service.Reaches.refl.lease (s := v.start.service) conn v.packet.payload.length
  rw [v.granted] at hheld
  exact hheld.note _

theorem reaches_served (v : Visit l conn patience) (h : Handler) :
    v.start.service.Reaches (v.served h).2.service :=
  (v.reaches_seen.run (v.calls h)).dropLease v.packet.lease

theorem numbered_seen {n : Nat} (hn : v.start.service.Numbered n) : v.seen.Numbered n :=
  (hn.lease v.granted).note _

theorem numbered_served {n : Nat} (hn : v.start.service.Numbered n) (h : Handler) :
    (v.served h).2.service.Numbered (n + v.opens h) :=
  (Service.numbered_run (numbered_seen hn) _).dropLease _

/-- If the handler has closed the connection, its packet has nothing to give back. -/
theorem refund_of_close {n : Nat} (hn : v.start.service.Numbered n)
    (hc : .close conn ∈ v.calls h) (few : n + v.opens h < UInt64.size) :
    (v.left h).refund v.packet.lease.charge = (0, v.left h) := by
  obtain ⟨e, found, hcharge, -⟩ := v.charged
  have early : v.packet.lease.charge.epoch.toNat ≤ n := by
    rw [hcharge]
    exact hn.live conn e found
  have hclose : .close v.packet.lease.charge.conn ∈ v.calls h := by
    rw [hcharge]
    exact hc
  exact Service.refund_of_ended
    (Service.ended_of_close (numbered_seen hn) early hclose few).gone

end Visit

/-- The conversation `c` serves the packets of `vs`, one after another, and then is at `d`, about
to read the next frame. -/
inductive Visits (h : Handler) : Conversation → List (Visit l conn patience) → Conversation → Prop
  | nothing {c : Conversation} : Visits h c [] c
  | visit {v : Visit l conn patience} {vs : List (Visit l conn patience)} {d : Conversation}
      (replied : (v.served h).1 = none) (more : Visits h (v.served h).2 vs d) :
      Visits h v.start (v :: vs) d

variable {vs : List (Visit l conn patience)} {v : Visit l conn patience}

theorem goOn_visit (h : Handler) (v : Visit l conn patience) :
    v.start.goOn l h conn patience .fresh =
      match (v.served h).1 with
      | none => (v.served h).2.goOn l h conn patience .fresh
      | some e => (.failed e, (v.served h).2) := by
  rw [goOn]
  have hread := v.read
  split <;> rename_i hr <;> rw [hr] at hread <;> cases hread
  split <;> rename_i hs
  · have hserved : v.served h = _ := hs
    rw [hserved]
  · have hserved : v.served h = _ := hs
    rw [hserved]

namespace Visits

/-- What comes of the conversation is what comes of it from there on. -/
theorem goOn_eq (hv : Visits h c vs d) :
    c.goOn l h conn patience .fresh = d.goOn l h conn patience .fresh := by
  induction hv with
  | nothing => rfl
  | visit replied more ih => rw [goOn_visit, replied, ← ih]

theorem exchanges (hv : Visits h c vs d) :
    d.exchanges = (vs.map fun v => v.exchange h).reverse ++ c.exchanges := by
  induction hv with
  | nothing => rfl
  | @visit v vs d replied more ih =>
    rw [ih, v.exchanges_served, List.map_cons, List.reverse_cons, List.append_assoc]
    rfl

theorem reaches (hv : Visits h c vs d) : c.service.Reaches d.service := by
  induction hv with
  | nothing => exact .refl
  | @visit v vs d replied more ih => exact (v.reaches_served h).trans ih

theorem reaches_seen (hv : Visits h c vs d) : ∀ v ∈ vs, c.service.Reaches v.seen := by
  induction hv with
  | nothing => nofun
  | @visit v vs d replied more ih =>
    intro w hw
    rcases List.mem_cons.mp hw with rfl | hw
    · exact w.reaches_seen
    · exact (v.reaches_served h).trans (ih w hw)

/-- Where the connection is not registered, no packet is read. -/
theorem eq_of_gone (hv : Visits h c vs d) (gone : c.service.entry? conn = none) :
    vs = [] ∧ d = c := by
  cases hv with
  | nothing => exact ⟨rfl, rfl⟩
  | visit replied more =>
    obtain ⟨e, found, -⟩ := Visit.charged _
    rw [gone] at found
    cases found

theorem numbered {n : Nat} (hv : Visits h c vs d) (hn : c.service.Numbered n) :
    d.service.Numbered (n + total (vs.map fun v => v.opens h)) := by
  induction hv generalizing n with
  | nothing => exact hn
  | visit replied more ih =>
    rw [List.map_cons, total, ← Nat.add_assoc]
    exact ih (Visit.numbered_served hn h)

end Visits

/-- The ways in which the conversation `c` comes to an end. Behind the visits that it has made,
either a reply cannot be written, or no packet is to come and whatever has been taken for one is
given up. -/
inductive Finishes (l : Limits) (h : Handler) (conn : ConnId) (patience : Option Nat)
    (c : Conversation) : Ending → Conversation → Prop
  | broken {v : Visit l conn patience} {vs : List (Visit l conn patience)} {e : IoError}
      (visits : Visits h c vs v.start) (unwritten : (v.served h).1 = some e) :
      Finishes l h conn patience c (.failed e) (v.served h).2
  | ended {d c' : Conversation} {vs : List (Visit l conn patience)} {ending : Ending}
      (visits : Visits h c vs d) (uncalled : c'.exchanges = d.exchanges)
      (reached : d.service.Reaches c'.service) (returned : d.service.Restores c'.service) :
      Finishes l h conn patience c ending c'

namespace Finishes

variable {ending : Ending} {c' : Conversation}

theorem visit (replied : (v.served h).1 = none)
    (hf : Finishes l h conn patience (v.served h).2 ending c') :
    Finishes l h conn patience v.start ending c' := by
  cases hf with
  | broken visits unwritten => exact .broken (.visit replied visits) unwritten
  | ended visits uncalled reached returned =>
    exact .ended (.visit replied visits) uncalled reached returned

theorem reaches (hf : Finishes l h conn patience c ending c') : c.service.Reaches c'.service := by
  cases hf with
  | broken visits unwritten => exact visits.reaches.trans (Visit.reaches_served _ h)
  | ended visits uncalled reached returned => exact visits.reaches.trans reached

/-- The handler has met the service on the way of the conversation. -/
theorem exchanges (hf : Finishes l h conn patience c ending c') :
    ∃ xs, c'.exchanges = xs ++ c.exchanges ∧ ∀ x ∈ xs, c.service.Reaches x.seen := by
  have hseen : ∀ {vs : List (Visit l conn patience)} {d : Conversation}, Visits h c vs d →
      ∀ x ∈ (vs.map fun v => v.exchange h).reverse, c.service.Reaches x.seen := by
    intro vs d hv x hx
    obtain ⟨v, hv', rfl⟩ := List.mem_map.mp (List.mem_reverse.mp hx)
    exact hv.reaches_seen v hv'
  cases hf with
  | @broken v vs e visits unwritten =>
    refine ⟨v.exchange h :: (vs.map fun v => v.exchange h).reverse, ?_, ?_⟩
    · rw [v.exchanges_served, visits.exchanges, List.cons_append]
    · intro x hx
      rcases List.mem_cons.mp hx with rfl | hx
      · exact visits.reaches.trans v.reaches_seen
      · exact hseen visits x hx
  | ended visits uncalled reached returned =>
    exact ⟨_, uncalled.trans visits.exchanges, hseen visits⟩

/-- No packet is read while the connection is not registered. -/
theorem exchanges_of_gone (hf : Finishes l h conn patience c ending c')
    (gone : c.service.entry? conn = none) : c'.exchanges = c.exchanges := by
  cases hf with
  | @broken v vs e visits unwritten =>
    obtain ⟨e, found, -⟩ := v.charged
    rw [(visits.eq_of_gone gone).2, gone] at found
    cases found
  | ended visits uncalled reached returned => rw [uncalled, (visits.eq_of_gone gone).2]

end Finishes

theorem run_finishes (l : Limits) (h : Handler) (conn : ConnId) (patience : Option Nat)
    (c : Conversation) :
    Finishes l h conn patience c (c.run l h conn patience).1 (c.run l h conn patience).2 := by
  rw [run_eq]
  generalize ha : Frame.Assembly.fresh = a
  -- Each frame has its own deadline, so this is said of all deadlines.
  have hread : ∀ deadline, ∃ r, r =
      Frame.read conn l.maxFrame deadline c.input a c.now c.service ∧
        c.service.Reaches r.service ∧ c.service.Restores (r.stop.letGo r.service) := by
    rw [← ha]
    exact fun _ => ⟨_, rfl, Frame.reaches_read .refl .., Frame.read_restores _ _ _ _ _ (.refl _)⟩
  fun_induction goOn l h conn patience a c with
  | case1 a c due rest now t hr | case2 a c due e rest now t hr =>
    obtain ⟨_, rfl, hreach, hrestore⟩ := hread (earlier due patience)
    rw [hr] at hreach hrestore
    exact .ended .nothing rfl hreach hrestore
  | case3 a c due a' rest now t hr late =>
    obtain ⟨_, rfl, hreach, hrestore⟩ := hread (earlier due patience)
    rw [hr] at hreach hrestore
    exact .ended .nothing rfl ((a'.reaches_abandon hreach).note _) (hrestore.note _)
  | case4 a c due a' rest now t hr inTime =>
    obtain ⟨_, rfl, hreach, hrestore⟩ := hread (earlier due patience)
    rw [hr] at hreach hrestore
    exact .ended .nothing rfl (a'.reaches_abandon hreach) hrestore
  | case5 a c due p rest now t hr e served hserve =>
    subst ha
    let v : Visit l conn patience := ⟨c, p, rest, now, t, hr⟩
    have hserved : v.served h = (some e, served) := hserve
    have hf := Finishes.broken (h := h) (v := v) .nothing (by rw [hserved])
    rwa [hserved] at hf
  | case6 a c due p rest now t hr served hserve ih =>
    subst ha
    let v : Visit l conn patience := ⟨c, p, rest, now, t, hr⟩
    have hserved : v.served h = (none, served) := hserve
    have hserved' : (v.served h).2 = served := congrArg Prod.snd hserved
    apply Finishes.visit (v := v)
    · exact congrArg Prod.fst hserved
    · rw [hserved']
      exact ih rfl fun _ =>
        ⟨_, rfl, Frame.reaches_read .refl .., Frame.read_restores _ _ _ _ _ (.refl _)⟩

theorem run_failed {e : IoError}
    (hr : (Frame.read conn l.maxFrame (earlier (l.deadline c.now) patience) c.input .fresh c.now
      c.service).stop = .failed e) : (c.run l h conn patience).1 = .failed e := by
  rw [run_eq, goOn]
  split <;> rename_i hr' <;> rw [hr'] at hr <;> cases hr
  rfl

/-- While the connection is not registered, the next header that comes in and is not too large ends
the conversation. -/
theorem run_of_gone (hs : c.service.isInitialized = true) (gone : c.service.entry? conn = none)
    {hd : Bytes} (hb : Brings (earlier (l.deadline c.now) patience) c.now c.input hd)
    (whole : hd.length = Frame.headerSize) (bounded : Frame.lengthOf hd ≤ l.maxFrame) :
    (c.run l h conn patience).1 = .failed (Fault.unknownConnection conn).toIoError := by
  obtain ⟨t, ht⟩ := Service.lease_unregistered hs gone (Frame.lengthOf hd)
  apply run_failed
  apply Frame.read_refused (t := t) hb
  · decide
  · rw [List.length_nil, Nat.zero_add]
    exact whole
  · rw [List.reverse_nil, List.nil_append, Frame.Assembly.begin,
      if_neg (Nat.not_lt.mpr bounded), ht]

/-- What the books show of a visit. Before its packet was read `n` registrations had been opened. -/
structure Visit.Kept (v : Visit l conn patience) (h : Handler) (n : Nat) : Prop where
  /-- The packet is charged to the registration of the moment, and the handler finds it so. -/
  charged : ∃ e, v.start.service.entry? conn = some e ∧
    v.packet.lease.charge = ⟨conn, e.epoch, v.packet.payload.length⟩ ∧
    v.seen.entry? conn = some (e.charge v.packet.payload.length)
  books : v.seen.InBalance
  dropped : (v.served h).2.service = (v.left h).dropLease v.packet.lease
  /-- A handler that has closed the connection, and perhaps registered it again, leaves things as
  they stay. The epochs have not come round. -/
  spared : .close conn ∈ v.calls h → n + v.opens h < UInt64.size →
    (v.left h).refund v.packet.lease.charge = (0, v.left h) ∧ (v.served h).2.service = v.left h

theorem Visit.kept {v : Visit l conn patience} {n : Nat}
    (hb : v.start.service.ledger.accounts.Balanced) (hn : v.start.service.Numbered n)
    (h : Handler) : v.Kept h n where
  charged := v.charged
  books := Service.inBalance (v.reaches_seen.balanced hb)
  dropped := v.service_served h
  spared hc few := by
    have hr := refund_of_close h hn hc few
    refine ⟨hr, ?_⟩
    rw [v.service_served, Service.dropLease, hr]

/-- Whatever the handler calls, the books balance whenever it is called and in the end. Each packet
is charged to the registration that there is when it is read and given back to that alone; without a
registration there is no packet, and a header that asks for one ends the conversation. -/
theorem callbacks_keep_books {limit : Int64} {al al' : Allocator} {s₀ : Service}
    (hcreate : Service.create limit al = .ok (s₀, al')) (ks : List Call) (l : Limits) (h : Handler)
    (conn : ConnId) (patience : Option Nat) {c c' : Conversation} {ending : Ending}
    (hs : c.service = (s₀.run ks).2) (taken : c.service.isInitialized = true)
    (hrun : c.run l h conn patience = (ending, c')) :
    c'.service.InBalance ∧
      (∃ xs, c'.exchanges = xs ++ c.exchanges ∧ ∀ x ∈ xs, x.seen.InBalance) ∧
      Finishes l h conn patience c ending c' ∧
      ∀ (vs : List (Visit l conn patience)) (d : Conversation), Visits h c vs d →
        d.exchanges = (vs.map fun v => v.exchange h).reverse ++ c.exchanges ∧
        (∀ v : Visit l conn patience, v.start = d →
          v.Kept h ((s₀.registrations ks).length + total (vs.map fun v => v.opens h))) ∧
        (d.service.entry? conn = none → c'.exchanges = d.exchanges ∧
          ∀ hd, Brings (earlier (l.deadline d.now) patience) d.now d.input hd →
            hd.length = Frame.headerSize → Frame.lengthOf hd ≤ l.maxFrame →
              ∃ e, ending = .failed e ∧ e.kind = .notFound) := by
  have hb : c.service.ledger.accounts.Balanced := by
    rw [hs]
    exact Service.balanced_run (Service.balanced_create hcreate) ks
  have hn : c.service.Numbered (s₀.registrations ks).length := by
    have hn := Service.numbered_run (Service.numbered_create hcreate) ks
    rw [Nat.zero_add] at hn
    rwa [hs]
  have hfinish := run_finishes l h conn patience c
  rw [hrun] at hfinish
  refine ⟨Service.inBalance (hfinish.reaches.balanced hb), ?_, hfinish, ?_⟩
  · obtain ⟨xs, hx, hseen⟩ := hfinish.exchanges
    exact ⟨xs, hx, fun x hm => Service.inBalance ((hseen x hm).balanced hb)⟩
  intro vs d hv
  have hd : d.run l h conn patience = (ending, c') := by
    rw [← hrun, run_eq, run_eq, hv.goOn_eq]
  refine ⟨hv.exchanges, ?_, fun gone => ⟨?_, fun hd' hbrings whole bounded => ?_⟩⟩
  · rintro v rfl
    exact Visit.kept (hv.reaches.balanced hb) (hv.numbered hn) h
  · have hlast := run_finishes l h conn patience d
    rw [hd] at hlast
    exact hlast.exchanges_of_gone gone
  · have hfailed := run_of_gone (h := h) (hv.reaches.initialized taken) gone hbrings whole bounded
    rw [hd] at hfailed
    exact ⟨_, hfailed, rfl⟩

/-- The first packet is its connection's last if the handler closes it, and the handler's new
registration keeps what it has if it opens one. -/
theorem callbacks_keep_books_of_closed_connection :
    ∃ s al, Service.create 100 {} = .ok (s, al) ∧
      ∃ (c c' : Conversation) (closing reopening : Handler) (e : IoError)
        (v : Visit ⟨8, 0⟩ ⟨7⟩ none),
        c.service = (s.run [.init ⟨"host", ⟨10, 0⟩⟩, .connect ⟨7⟩]).2 ∧
        c.run ⟨8, 0⟩ closing ⟨7⟩ none = (.failed e, c') ∧ e.kind = .notFound ∧
        c'.exchanges.map Exchange.payload = [[104, 105]] ∧ c'.service.InBalance ∧
        v.start = c ∧ Service.entry? (v.left reopening) ⟨7⟩ = some ⟨2, 10, 0, 0, 0⟩ ∧
        (v.served reopening).2.service = v.left reopening := by
  let s : Service := ⟨⟨1⟩, none, .ofCeiling 100, [.constructed ⟨1⟩ 100]⟩
  let ks : List Call := [.init ⟨"host", ⟨10, 0⟩⟩, .connect ⟨7⟩]
  let c : Conversation :=
    ⟨[.data [0, 0, 0, 2, 104, 105, 0], .data [0, 0, 1, 9]], .unlimited, (s.run ks).2, 0, []⟩
  let closing : Handler := ⟨fun _ _ conn _ => { calls := [.close conn] }⟩
  let reopening : Handler := ⟨fun _ _ conn _ => { calls := [.close conn, .connect conn] }⟩
  let v : Visit ⟨8, 0⟩ ⟨7⟩ none :=
    ⟨c, ⟨⟨⟨1⟩, ⟨⟨7⟩, 1, 2⟩⟩, [104, 105]⟩, [.data [0], .data [0, 0, 1, 9]], 0, _, rfl⟩
  have hcreate : Service.create 100 {} = .ok (s, _) := rfl
  have hclosed : Visits closing c [v] (v.served closing).2 := .visit (v := v) rfl .nothing
  obtain ⟨ending, c', hrun⟩ : ∃ ending c', c.run ⟨8, 0⟩ closing ⟨7⟩ none = (ending, c') :=
    ⟨_, _, rfl⟩
  obtain ⟨hbooks, -, -, hheads⟩ :=
    callbacks_keep_books hcreate ks ⟨8, 0⟩ closing ⟨7⟩ none rfl rfl hrun
  obtain ⟨-, -, hgone⟩ := hheads _ _ hclosed
  obtain ⟨hcalls, hrefused⟩ := hgone (by decide)
  obtain ⟨e, rfl, hkind⟩ :=
    hrefused [0, 0, 0, 1] (.byte (.byte (.byte (.byte .nothing)))) rfl (by decide)
  obtain ⟨-, -, -, hheads⟩ :=
    callbacks_keep_books hcreate ks ⟨8, 0⟩ reopening ⟨7⟩ none (c := c) rfl rfl rfl
  obtain ⟨-, hkept, -⟩ := hheads [] c .nothing
  have hspared := (hkept v rfl).spared (by decide) (by decide)
  refine ⟨s, _, hcreate, c, c', closing, reopening, e, v, rfl, hrun, hkind, ?_, hbooks, rfl,
    by decide, hspared.2⟩
  rw [hcalls]
  rfl

end Conversation

end PacketBudget
