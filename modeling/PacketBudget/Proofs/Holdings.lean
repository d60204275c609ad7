import PacketBudget.Proofs.Balance
import PacketBudget.Proofs.Epochs

/-!
The charges that callers hold, which no service knows of. Where each is returned at most once, an
entry is at any time the tally of the charges that are held on its registration, whatever is held
of earlier registrations of the id.
-/

namespace PacketBudget

/-- The charges that a history has handed out, as charges or under leases. -/
def taken (es : List Event) : List Charge := es.flatMap fun v => v.outcome.charge?.toList

/-- What is held after a call. There is no answer where a charge is returned that is not held, or
where bytes come and go without a charge. -/
def Event.heldAfter? (v : Event) (held : List Charge) : Option (List Charge) :=
  match v.call with
  | .receive _ _ | .release _ _ => none
  | k =>
    match k.returned? with
    | some c => if c ∈ held then some (held.erase c) else none
    | none => some (held ++ v.outcome.charge?.toList)

/-- What is held after a history, if `held` was held before. -/
def heldFrom? (held : List Charge) : List Event → Option (List Charge)
  | [] => some held
  | v :: es => (v.heldAfter? held).bind fun now => heldFrom? now es

/-- Those of the charges that are on the registration of `id` with the epoch. -/
def chargesOn (id : ConnId) (epoch : UInt64) (cs : List Charge) : List Charge :=
  cs.filter fun c => c.conn = id ∧ c.epoch = epoch

/-- An entry counts the charges held on its registration, and all that were taken on it. -/
structure Tally (id : ConnId) (taken held : List Charge) (e : Entry) : Prop where
  packetBytes_eq : e.packetBytes = total ((chargesOn id e.epoch held).map Charge.bytes)
  inFlight_eq : e.inFlight = (chargesOn id e.epoch held).length
  total_eq : e.total = (chargesOn id e.epoch taken).length

section Charges

variable {id : ConnId} {x : UInt64} {c : Charge} {cs held now : List Charge} {k : Call} {o : Outcome}

theorem chargesOn_append (id : ConnId) (x : UInt64) (cs ds : List Charge) :
    chargesOn id x (cs ++ ds) = chargesOn id x cs ++ chargesOn id x ds := List.filter_append ..

theorem chargesOn_erase (id : ConnId) (x : UInt64) (cs : List Charge) (c : Charge) :
    chargesOn id x (cs.erase c) = (chargesOn id x cs).erase c := List.erase_filter.symm

theorem mem_chargesOn : c ∈ chargesOn id x cs ↔ c ∈ cs ∧ c.conn = id ∧ c.epoch = x := by
  simp [chargesOn]

theorem chargesOn_eq_nil (h : ∀ c ∈ cs, c.conn = id → c.epoch ≠ x) : chargesOn id x cs = [] := by
  rw [List.eq_nil_iff_forall_not_mem]
  intro c hc
  obtain ⟨hm, hi, hx⟩ := mem_chargesOn.mp hc
  exact h c hm hi hx

theorem chargesOn_erase_of_other (h : c.conn = id → c.epoch ≠ x) :
    chargesOn id x (cs.erase c) = chargesOn id x cs := by
  rw [chargesOn_erase, List.erase_of_not_mem]
  intro hc
  obtain ⟨_, hi, hx⟩ := mem_chargesOn.mp hc
  exact h hi hx

theorem total_erase (h : c ∈ cs) (f : Charge → Nat) :
    f c + total ((cs.erase c).map f) = total (cs.map f) :=
  (total_perm ((List.perm_cons_erase h).map f)).symm

/-- A call that is accounted for returns what is held, or hands out what is then held. -/
theorem heldAfter_cases (h : Event.heldAfter? ⟨k, o⟩ held = some now) :
    (∀ id n, k ≠ .receive id n ∧ k ≠ .release id n) ∧
      ((∃ c, c ∈ held ∧ k.returned? = some c ∧ now = held.erase c) ∨
        k.returned? = none ∧ now = held ++ o.charge?.toList) := by
  have hk : ∀ id n, k ≠ .receive id n ∧ k ≠ .release id n := by
    intro id n
    constructor
    all_goals
      rintro rfl
      cases h
  refine ⟨hk, ?_⟩
  have hs : (match k.returned? with
      | some c => if c ∈ held then some (held.erase c) else none
      | none => some (held ++ o.charge?.toList)) = some now := by
    cases k with
    | receive id n => exact absurd rfl (hk id n).1
    | release id n => exact absurd rfl (hk id n).2
    | init | connect | charge | lease | refund | drop | close => exact h
  split at hs
  · rename_i c hc
    split at hs
    · rename_i hm
      cases hs
      exact Or.inl ⟨c, hm, hc, rfl⟩
    · cases hs
  · rename_i hc
    cases hs
    exact Or.inr ⟨hc, rfl⟩

end Charges

namespace Tally

variable {id : ConnId} {e e' : Entry} {ts held now : List Charge} {k : Call} {o : Outcome} {n : Nat}

/-- Nothing has been taken on a registration that has just been opened. -/
theorem fresh {x : UInt64} (m : Nat) (ht : ∀ c ∈ ts, c.epoch ≠ x) (hh : ∀ c ∈ held, c.epoch ≠ x) :
    Tally id ts held { epoch := x, overhead := m } := by
  have hts : chargesOn id x ts = [] := chargesOn_eq_nil fun c hc _ => ht c hc
  have hheld : chargesOn id x held = [] := chargesOn_eq_nil fun c hc _ => hh c hc
  refine ⟨?_, ?_, ?_⟩
  · rw [hheld]
    rfl
  · rw [hheld]
    rfl
  · rw [hts]
    rfl

/-- What is done on other registrations leaves the tally as it is. -/
theorem kept (h : Tally id ts held e) (handed : ∀ c, o.charge? = some c → c.conn ≠ id)
    (returned : ∀ c, k.returned? = some c → c.conn = id → e.epoch ≠ c.epoch)
    (hh : Event.heldAfter? ⟨k, o⟩ held = some now) : Tally id (ts ++ o.charge?.toList) now e := by
  have hnew : chargesOn id e.epoch o.charge?.toList = [] := by
    apply chargesOn_eq_nil
    intro c hc hi
    exact absurd hi (handed c (Option.mem_toList.mp hc))
  have hnow : chargesOn id e.epoch now = chargesOn id e.epoch held := by
    rcases (heldAfter_cases hh).2 with ⟨c, _, hr, rfl⟩ | ⟨_, rfl⟩
    · exact chargesOn_erase_of_other fun hi => (returned c hr hi).symm
    · rw [chargesOn_append, hnew, List.append_nil]
  refine ⟨?_, ?_, ?_⟩
  · rw [hnow]
    exact h.packetBytes_eq
  · rw [hnow]
    exact h.inFlight_eq
  · rw [chargesOn_append, hnew, List.append_nil]
    exact h.total_eq

theorem charged (h : Tally id ts held e) (n : Nat) :
    Tally id (ts ++ [⟨id, e.epoch, n⟩]) (held ++ [⟨id, e.epoch, n⟩]) (e.charge n) := by
  have hone : chargesOn id e.epoch [⟨id, e.epoch, n⟩] = [⟨id, e.epoch, n⟩] := by
    simp [chargesOn]
  refine ⟨?_, ?_, ?_⟩
  · simp only [Entry.charge, chargesOn_append, hone, List.map_append, total_append,
      h.packetBytes_eq]
    rfl
  · simp only [Entry.charge, chargesOn_append, hone, List.length_append, h.inFlight_eq]
    rfl
  · simp only [Entry.charge, chargesOn_append, hone, List.length_append, h.total_eq]
    rfl

theorem covers (h : Tally id ts held e) (hm : ⟨id, e.epoch, n⟩ ∈ held) :
    n ≤ e.packetBytes ∧ 1 ≤ e.inFlight := by
  have hon : ⟨id, e.epoch, n⟩ ∈ chargesOn id e.epoch held := mem_chargesOn.mpr ⟨hm, rfl, rfl⟩
  rw [h.packetBytes_eq, h.inFlight_eq]
  exact ⟨le_total (List.mem_map_of_mem hon), List.length_pos_of_mem hon⟩

theorem refunded (h : Tally id ts held e) (hm : ⟨id, e.epoch, n⟩ ∈ held) :
    Tally id ts (held.erase ⟨id, e.epoch, n⟩) (e.credit n) := by
  have hon : ⟨id, e.epoch, n⟩ ∈ chargesOn id e.epoch held := mem_chargesOn.mpr ⟨hm, rfl, rfl⟩
  have hsum := total_erase hon Charge.bytes
  have hb := h.packetBytes_eq
  refine ⟨?_, ?_, h.total_eq⟩
  · simp only [Entry.credit, chargesOn_erase] at hb hsum ⊢
    omega
  · simp only [Entry.credit, chargesOn_erase, List.length_erase_of_mem hon, h.inFlight_eq]

theorem change {used : Nat} (h : Tally id ts held e) (hc : e.Change id used k o e')
    (handed : ∀ c, o.charge? = some c → Admits c k o)
    (hh : Event.heldAfter? ⟨k, o⟩ held = some now) : Tally id (ts ++ o.charge?.toList) now e' := by
  obtain ⟨hk, hnow⟩ := heldAfter_cases hh
  cases hc with
  | kept admits returned =>
    exact h.kept (fun c ho => admits c (handed c ho)) returned hh
  | charged admits =>
    cases admits with
    | receive => exact absurd rfl (hk _ _).1
    | charge | lease =>
      rcases hnow with ⟨_, _, hr, _⟩ | ⟨_, rfl⟩
      · cases hr
      · exact h.charged _
  | @refunded _ n returned =>
    rcases hnow with ⟨c, hm, hr, rfl⟩ | ⟨hr, _⟩
    · rw [returned] at hr
      cases hr
      rw [Nat.min_eq_left (h.covers hm).1]
      simpa only [Outcome.charge?, Option.toList_none, List.append_nil] using h.refunded hm
    · rw [returned] at hr
      cases hr
  | released => exact absurd rfl (hk _ _).2

end Tally

namespace Accounts

variable {host : Option HostContext} {a a' : Accounts} {k : Call} {o : Outcome} {c : Charge}

theorem Move.admits (h : Move host a k o a') (ho : o.charge? = some c) : Admits c k o := by
  rcases h.admission with ⟨hn, _⟩ | ⟨_, _, _, _, _, admits, _⟩
  · rw [hn] at ho
    cases ho
  · rw [admits.eq_of_charge? ho]
    exact admits

/-- Returning a charge of a live registration credits its entry. -/
theorem Move.returns {e : Entry} (h : Move host a k o a') (hr : k.returned? = some c)
    (found : a.table.get? c.conn = some e) (live : e.epoch = c.epoch) :
    o = .freed (min a.budget.used (min c.bytes e.packetBytes)) ∧
      a' = (a.credit c.conn e (min c.bytes e.packetBytes)).2 := by
  cases h with
  | refused f asks =>
    rw [asks] at hr
    cases hr
  | charged taken found cap fits admits =>
    have hp := admits.packet
    rw [Call.packet?_of_returned? hr] at hp
    cases hp
  | refunded returned hx =>
    rw [returned] at hr
    cases hr
    rw [hx] at found
    cases found
    exact ⟨rfl, rfl⟩
  | stale returned ended =>
    rw [returned] at hr
    cases hr
    exact absurd live (ended e found)
  | init | opened | released | spared | closed | absent => cases hr

end Accounts

namespace Service

variable {s s₀ : Service} {n : Nat} {ts held now : List Charge} {k : Call}

/-- After `n` registrations the entries tally with what was taken and what is held, none of it on a
registration that is yet to come. -/
structure Accounted (s : Service) (n : Nat) (ts held : List Charge) : Prop where
  numbered : s.Numbered n
  tally : ∀ id e, s.entry? id = some e → Tally id ts held e
  taken_early : ∀ c ∈ ts, c.epoch.toNat ≤ n
  held_early : ∀ c ∈ held, c.epoch.toNat ≤ n

theorem accounted_create {limit : Int64} {al al' : Allocator} (h : create limit al = .ok (s, al')) :
    s.Accounted 0 [] [] := by
  refine ⟨numbered_create h, ?_, nofun, nofun⟩
  intro id e he
  rw [create_no_entry h] at he
  cases he

theorem accounted_step (h : s.Accounted n ts held)
    (hh : Event.heldAfter? ⟨k, (s.step k).1⟩ held = some now)
    (few : n + (s.opened k).length < UInt64.size) :
    (s.step k).2.Accounted (n + (s.opened k).length)
      (ts ++ (s.step k).1.charge?.toList) now := by
  have hn := numbered_step h.numbered k
  have hle : n ≤ n + (s.opened k).length := Nat.le_add_right _ _
  have hnew : ∀ c ∈ (s.step k).1.charge?.toList, c.epoch.toNat ≤ n + (s.opened k).length := by
    intro c hc
    obtain ⟨e, he, hx⟩ := (step_move s k).handed (Option.mem_toList.mp hc)
    rw [← hx]
    exact hn.live c.conn e he
  refine ⟨hn, ?_, ?_, ?_⟩
  · intro id e he
    rcases (step_move s k).origin he with ⟨d, hd, hc⟩ | ⟨_, rfl, ho, c, _, rfl⟩
    · exact (h.tally id d hd).change hc (fun c ho => (step_move s k).admits ho) hh
    · have hnow : now = held := by
        rcases (heldAfter_cases hh).2 with ⟨_, _, hr, _⟩ | ⟨_, rfl⟩
        · cases hr
        · rw [ho]
          exact List.append_nil held
      have late : ∀ c : Charge, c.epoch.toNat ≤ n → c.epoch ≠ s.ledger.accounts.nextEpoch := by
        intro c hc hx
        rw [opened_connect ho] at few
        rw [hx, h.numbered.next, UInt64.toNat_ofNat_of_lt' few] at hc
        omega
      subst hnow
      rw [ho]
      refine .fresh _ ?_ fun c hc => late c (h.held_early c hc)
      intro c hc
      rcases List.mem_append.mp hc with hc | hc
      · exact late c (h.taken_early c hc)
      · cases hc
  · intro c hc
    rcases List.mem_append.mp hc with hc | hc
    · exact Nat.le_trans (h.taken_early c hc) hle
    · exact hnew c hc
  · intro c hc
    rcases (heldAfter_cases hh).2 with ⟨d, _, _, rfl⟩ | ⟨_, rfl⟩
    · exact Nat.le_trans (h.held_early c (List.mem_of_mem_erase hc)) hle
    · rcases List.mem_append.mp hc with hc | hc
      · exact Nat.le_trans (h.held_early c hc) hle
      · exact hnew c hc

theorem accounted_run (h : s.Accounted n ts held) (ks : List Call)
    (hh : heldFrom? held (s.history ks) = some now)
    (few : n + (s.registrations ks).length < UInt64.size) :
    (s.run ks).2.Accounted (n + (s.registrations ks).length) (ts ++ taken (s.history ks)) now := by
  induction ks generalizing s n ts held with
  | nil =>
    cases hh
    rw [history, taken, List.flatMap_nil, List.append_nil]
    exact h
  | cons k ks ih =>
    simp only [registrations, List.length_append, ← Nat.add_assoc] at few ⊢
    obtain ⟨mid, hk, hrest⟩ := Option.bind_eq_some_iff.mp hh
    have hs := accounted_step h hk (by omega)
    have hr := ih hs hrest few
    rwa [List.append_assoc] at hr

theorem used_of_empty (hb : s.ledger.accounts.Balanced) (h : ∀ id, s.entry? id = none) :
    s.used = 0 := by
  have hu : s.used = total (s.registered.map fun p => p.2.charged) := hb.used_eq
  rw [hu, registered_eq_nil hb h]
  rfl

/-- What a call that returns a charge does where nothing is cut short. -/
structure ReturnsWhole (s : Service) (k : Call) (c : Charge) (e : Entry) : Prop where
  freed : (s.step k).1 = .freed c.bytes
  used : (s.step k).2.used + c.bytes = s.used
  entry : ∃ e', entry? (s.step k).2 c.conn = some e' ∧ e'.packetBytes + c.bytes = e.packetBytes ∧
    e'.inFlight + 1 = e.inFlight

theorem returnsWhole {c : Charge} {e : Entry} (hb : s.ledger.accounts.Balanced)
    (ht : Tally c.conn ts held e) (hm : c ∈ held) (hr : k.returned? = some c)
    (he : s.entry? c.conn = some e) (live : e.epoch = c.epoch) : s.ReturnsWhole k c e := by
  have hc : ⟨c.conn, e.epoch, c.bytes⟩ ∈ held := by
    rw [live]
    exact hm
  obtain ⟨hle, hpos⟩ := ht.covers hc
  have hu : c.bytes ≤ s.ledger.accounts.budget.used := Nat.le_trans hle (hb.packetBytes_le he)
  obtain ⟨ho, ha⟩ := (step_move s k).returns hr he live
  rw [Nat.min_eq_left hle] at ho ha
  refine ⟨?_, ?_, e.credit c.bytes, ?_, Nat.sub_add_cancel hle, Nat.sub_add_cancel hpos⟩
  · rw [ho, Nat.min_eq_right hu]
  · have hs : (s.step k).2.used = s.ledger.accounts.budget.used - c.bytes :=
      congrArg (fun a => a.budget.used) ha
    rw [hs]
    exact Nat.sub_add_cancel hu
  · have hg := Accounts.get?_credit s.ledger.accounts c.conn e c.bytes c.conn
    rw [if_pos rfl, ← ha] at hg
    exact hg

/-- Where each charge is returned at most once, the entries tally with the charges that are held,
returning one of a live registration gives back all of it, and nothing is left in use once all
connections are closed. The bound is that of the epochs, which come round after it. -/
theorem charges_are_accounted {limit : Int64} {al al' : Allocator}
    (h : create limit al = .ok (s₀, al')) (ks : List Call)
    (few : (s₀.registrations ks).length < UInt64.size)
    (hh : heldFrom? [] (s₀.history ks) = some held) :
    (∀ id e, entry? (s₀.run ks).2 id = some e → Tally id (taken (s₀.history ks)) held e) ∧
      (∀ c k e, c ∈ held → k.returned? = some c → entry? (s₀.run ks).2 c.conn = some e →
        e.epoch = c.epoch → (s₀.run ks).2.ReturnsWhole k c e) ∧
      ((∀ id, entry? (s₀.run ks).2 id = none) → (s₀.run ks).2.used = 0) := by
  have ha := accounted_run (accounted_create h) ks hh (by rwa [Nat.zero_add])
  have hb := balanced_run (balanced_create h) ks
  refine ⟨ha.tally, ?_, used_of_empty hb⟩
  intro c k e hm hr he live
  exact returnsWhole hb (ha.tally c.conn e he) hm hr he live

/-- A lease of an earlier registration is held and dropped without a trace in the tally. -/
theorem charges_are_accounted_on_reused_id :
    ∃ s al' ks, create 100 {} = .ok (s, al') ∧
      heldFrom? [] (s.history ks) = some [⟨⟨7⟩, 1, 30⟩, ⟨⟨7⟩, 2, 5⟩, ⟨⟨7⟩, 2, 0⟩] ∧
      Tally ⟨7⟩ (taken (s.history ks)) [⟨⟨7⟩, 1, 30⟩, ⟨⟨7⟩, 2, 5⟩, ⟨⟨7⟩, 2, 0⟩] ⟨2, 10, 5, 2, 2⟩ ∧
      (s.run ks).2.ReturnsWhole (.refund ⟨⟨7⟩, 2, 5⟩) ⟨⟨7⟩, 2, 5⟩ ⟨2, 10, 5, 2, 2⟩ := by
  have h : create 100 {} = .ok (_, _) := rfl
  have ha := charges_are_accounted h [.init ⟨"host", ⟨10, 0⟩⟩, .connect ⟨7⟩, .lease ⟨7⟩ 20,
    .charge ⟨7⟩ 30, .close ⟨7⟩, .connect ⟨7⟩, .charge ⟨7⟩ 5, .drop ⟨⟨1⟩, ⟨7⟩, 1, 20⟩,
    .lease ⟨7⟩ 0] (by decide)
    (show heldFrom? [] _ = some [⟨⟨7⟩, 1, 30⟩, ⟨⟨7⟩, 2, 5⟩, ⟨⟨7⟩, 2, 0⟩] by decide)
  exact ⟨_, _, _, h, by decide, ha.1 _ _ (by decide),
    ha.2.1 _ _ _ (by decide) (by decide) (by decide) (by decide)⟩

end Service

end PacketBudget
