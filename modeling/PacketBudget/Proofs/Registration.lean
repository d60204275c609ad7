import PacketBudget.Proofs.Moves

/-!
The table seen from one id. A call opens a registration of the id, changes its entry, ends it or
leaves it alone; what happens to other ids does not show.
-/

namespace PacketBudget

/-- The connection whose bytes a call gives back, the connection itself going on. -/
def Call.creditor? : Call → Option ConnId
  | .refund c => some c.conn
  | .drop l => some l.charge.conn
  | .release conn _ => some conn
  | _ => none

theorem Call.creditor?_of_returned? {k : Call} {c : Charge} (h : k.returned? = some c) :
    k.creditor? = some c.conn := by
  cases k <;> simp_all [Call.returned?, Call.creditor?]

/-- The connection that a call is about. -/
def Call.conn? : Call → Option ConnId
  | .init _ => none
  | .connect id | .charge id _ | .receive id _ | .lease id _ | .release id _ | .close id => some id
  | .refund c => some c.conn
  | .drop l => some l.charge.conn

theorem Call.conn?_of_packet? {k : Call} {p : ConnId × Nat} (h : k.packet? = some p) :
    k.conn? = some p.1 := by
  cases k <;> cases h <;> rfl

theorem Call.conn?_of_returned? {k : Call} {c : Charge} (h : k.returned? = some c) :
    k.conn? = some c.conn := by
  cases k <;> cases h <;> rfl

/-- What a call does to the entry `e` of `id` while the registration goes on. -/
inductive Entry.Change (id : ConnId) (used : Nat) (e : Entry) : Call → Outcome → Entry → Prop
  | kept {k : Call} {o : Outcome} (admits : ∀ c, Admits c k o → c.conn ≠ id)
      (returned : ∀ c, k.returned? = some c → c.conn = id → e.epoch ≠ c.epoch)
      (nothing : k.creditor? = some id → ∀ n, o = .freed n → n = 0) : Change id used e k o e
  | charged {k : Call} {o : Outcome} {n : Nat} (admits : Admits ⟨id, e.epoch, n⟩ k o) :
      Change id used e k o (e.charge n)
  | refunded {k : Call} {n : Nat} (returned : k.returned? = some ⟨id, e.epoch, n⟩) :
      Change id used e k (.freed (min used (min n e.packetBytes)))
        (e.credit (min n e.packetBytes))
  | released {m : Nat} (held : min m e.packetBytes ≠ 0) :
      Change id used e (.release id m) (.freed (min used (min m e.packetBytes)))
        (e.credit (min m e.packetBytes))

namespace Entry.Change

variable {id : ConnId} {used : Nat} {e e' : Entry} {k : Call} {o : Outcome}

theorem epoch_eq (h : Change id used e k o e') : e'.epoch = e.epoch := by
  cases h <;> rfl

theorem overhead_eq (h : Change id used e k o e') : e'.overhead = e.overhead := by
  cases h <;> rfl

/-- One packet more at most, and none in flight that has not come in. -/
theorem tallies (h : Change id used e k o e') (he : e.inFlight ≤ e.total) :
    e'.inFlight ≤ e'.total ∧ e'.total ≤ e.total + 1 := by
  cases h with
  | kept => exact ⟨he, Nat.le_succ _⟩
  | charged => exact ⟨Nat.succ_le_succ he, Nat.le_refl _⟩
  | refunded | released => exact ⟨Nat.le_trans (Nat.sub_le _ _) he, Nat.le_succ _⟩

end Entry.Change

namespace Accounts

variable {host : Option HostContext} {a a' : Accounts} {k : Call} {o : Outcome}
variable {id : ConnId} {e : Entry}

theorem get?_opened (a : Accounts) (id : ConnId) (n : Nat) (j : ConnId) :
    (a.opened id n).table.get? j =
      if j = id then some { epoch := a.nextEpoch, overhead := n } else a.table.get? j :=
  Table.get?_put ..

theorem get?_charged (a : Accounts) (id : ConnId) (e : Entry) (n : Nat) (j : ConnId) :
    (a.charged id e n).table.get? j = if j = id then some (e.charge n) else a.table.get? j :=
  Table.get?_put ..

theorem get?_credit (a : Accounts) (id : ConnId) (e : Entry) (n : Nat) (j : ConnId) :
    (a.credit id e n).2.table.get? j = if j = id then some (e.credit n) else a.table.get? j :=
  Table.get?_put ..

theorem get?_closed (a : Accounts) (id : ConnId) (e : Entry) (j : ConnId) :
    (a.closed id e).table.get? j = if j = id then none else a.table.get? j :=
  Table.get?_erase ..

theorem ne_of_get? {j : ConnId} (gone : a.table.get? id = none) (found : a.table.get? j = some e) :
    id ≠ j := by
  rintro rfl
  rw [gone] at found
  cases found

theorem same_or_other {conn : ConnId} {x : Entry} (hx : a.table.get? conn = some x)
    (found : a.table.get? id = some e) : (id = conn ∧ x = e) ∨ id ≠ conn := by
  by_cases hid : id = conn
  · subst hid
    rw [hx] at found
    exact Or.inl ⟨rfl, Option.some.inj found⟩
  · exact Or.inr hid

/-- A packet is refused, or it is admitted on the registration there is; nothing else hands out
charges. -/
theorem Move.admission (h : Move host a k o a') :
    (o.charge? = none ∧ ∀ p, k.packet? = some p → ∃ f, o = .rejected f) ∨
      ∃ id e n, a.table.get? id = some e ∧ a.budget.used + n ≤ a.budget.ceiling ∧
        Admits ⟨id, e.epoch, n⟩ k o ∧ a' = a.charged id e n := by
  cases h with
  | charged taken found cap fits admits => exact Or.inr ⟨_, _, _, found, fits, admits, rfl⟩
  | refused f => exact Or.inl ⟨rfl, fun _ _ => ⟨f, rfl⟩⟩
  | refunded returned | stale returned =>
    refine Or.inl ⟨rfl, ?_⟩
    rw [Call.packet?_of_returned? returned]
    nofun
  | init | opened | released | spared | closed | absent => exact Or.inl ⟨rfl, nofun⟩

/-- An id without an entry stays without one unless it is registered. -/
theorem Move.of_absent (h : Move host a k o a') (gone : a.table.get? id = none) :
    a'.table.get? id = none ∨ ∃ c, host = some c ∧ k = .connect id ∧ o = .done ∧
      a'.table.get? id = some { epoch := a.nextEpoch, overhead := c.policy.overhead } := by
  cases h with
  | init | refused | stale | spared | absent => exact Or.inl gone
  | @opened c conn taken fresh fits =>
    rw [get?_opened]
    by_cases hid : id = conn
    · subst hid
      exact Or.inr ⟨c, taken, rfl, rfl, by rw [if_pos rfl]⟩
    · rw [if_neg hid]
      exact Or.inl gone
  | charged taken found cap fits admits =>
    rw [get?_charged, if_neg (ne_of_get? gone found)]
    exact Or.inl gone
  | refunded returned found live =>
    rw [get?_credit, if_neg (ne_of_get? gone found)]
    exact Or.inl gone
  | released found held =>
    rw [get?_credit, if_neg (ne_of_get? gone found)]
    exact Or.inl gone
  | closed found =>
    rw [get?_closed, if_neg (ne_of_get? gone found)]
    exact Or.inl gone

/-- A call that gives nothing to `id` and takes nothing on it leaves its entry alone. -/
theorem change_of_other {used : Nat} (hp : ∀ p, k.packet? = some p → p.1 ≠ id)
    (hc : k.creditor? ≠ some id) : e.Change id used k o e := by
  refine .kept ?_ ?_ fun h => absurd h hc
  · intro c hm
    exact hp _ hm.packet
  · rintro c hr rfl
    exact absurd (Call.creditor?_of_returned? hr) hc

/-- An entry goes only when its id is closed, and changes only through calls on its id. -/
theorem Move.of_present (h : Move host a k o a') (found : a.table.get? id = some e) :
    (k = .close id ∧ o = .freed (min a.budget.used e.charged) ∧ a'.table.get? id = none) ∨
      k ≠ .close id ∧ ∃ e', a'.table.get? id = some e' ∧ e.Change id a.budget.used k o e' := by
  cases h with
  | init h => exact Or.inr ⟨nofun, e, found, change_of_other nofun nofun⟩
  | refused f asks stays =>
    refine Or.inr ⟨stays id, e, found, .kept nofun ?_ nofun⟩
    intro c hc
    rw [asks] at hc
    cases hc
  | @opened c conn taken fresh fits =>
    refine Or.inr ⟨nofun, e, ?_, change_of_other nofun nofun⟩
    rw [get?_opened, if_neg (ne_of_get? fresh found).symm]
    exact found
  | @charged c _ _ conn n x taken hx cap fits admits =>
    have hk : k ≠ .close id := by
      rintro rfl
      cases admits
    rcases same_or_other hx found with ⟨rfl, rfl⟩ | hid
    · exact Or.inr ⟨hk, _, by rw [get?_charged, if_pos rfl], .charged admits⟩
    · refine Or.inr ⟨hk, e, ?_, change_of_other ?_ ?_⟩
      · rw [get?_charged, if_neg hid]
        exact found
      · intro p hp
        rw [admits.packet] at hp
        cases hp
        exact Ne.symm hid
      · cases admits <;> nofun
  | @refunded _ c x returned hx live =>
    have hk : k ≠ .close id := by
      rintro rfl
      cases returned
    rcases same_or_other hx found with ⟨rfl, rfl⟩ | hid
    · refine Or.inr ⟨hk, _, by rw [get?_credit, if_pos rfl], .refunded ?_⟩
      rw [returned, live]
    · refine Or.inr ⟨hk, e, ?_, change_of_other ?_ ?_⟩
      · rw [get?_credit, if_neg hid]
        exact found
      · rw [Call.packet?_of_returned? returned]
        nofun
      · rw [Call.creditor?_of_returned? returned]
        intro h
        exact hid (Option.some.inj h).symm
  | @stale _ c returned ended =>
    have hk : k ≠ .close id := by
      rintro rfl
      cases returned
    refine Or.inr ⟨hk, e, found, .kept nofun ?_ ?_⟩
    · rintro d hd rfl
      rw [returned] at hd
      cases hd
      exact ended e found
    · intro _ n h
      exact (Outcome.freed.inj h).symm
  | @released conn m x hx held =>
    rcases same_or_other hx found with ⟨rfl, rfl⟩ | hid
    · exact Or.inr ⟨nofun, _, by rw [get?_credit, if_pos rfl], .released held⟩
    · refine Or.inr ⟨nofun, e, ?_, change_of_other nofun ?_⟩
      · rw [get?_credit, if_neg hid]
        exact found
      · intro h
        exact hid (Option.some.inj h).symm
  | spared empty =>
    refine Or.inr ⟨nofun, e, found, .kept nofun nofun ?_⟩
    intro _ n h
    exact (Outcome.freed.inj h).symm
  | @closed conn x hx =>
    rcases same_or_other hx found with ⟨rfl, rfl⟩ | hid
    · exact Or.inl ⟨rfl, rfl, by rw [get?_closed, if_pos rfl]⟩
    · refine Or.inr ⟨?_, e, ?_, change_of_other nofun nofun⟩
      · rintro ⟨⟩
        exact hid rfl
      · rw [get?_closed, if_neg hid]
        exact found
  | @absent conn gone =>
    refine Or.inr ⟨?_, e, found, change_of_other nofun nofun⟩
    rintro ⟨⟩
    rw [gone] at found
    cases found

/-- A call leaves the other connections alone. -/
theorem Move.others (h : Move host a k o a') (hk : k.conn? = some id) {j : ConnId} (hj : j ≠ id) :
    a'.table.get? j = a.table.get? j := by
  cases h with
  | init | refused | stale | spared | absent => rfl
  | opened =>
    cases hk
    rw [get?_opened, if_neg hj]
  | charged taken found cap fits admits =>
    obtain rfl := Option.some.inj ((Call.conn?_of_packet? admits.packet).symm.trans hk)
    rw [get?_charged, if_neg hj]
  | refunded returned =>
    obtain rfl := Option.some.inj ((Call.conn?_of_returned? returned).symm.trans hk)
    rw [get?_credit, if_neg hj]
  | released =>
    cases hk
    rw [get?_credit, if_neg hj]
  | closed =>
    cases hk
    rw [get?_closed, if_neg hj]

/-- An entry comes from the entry before the call, or the call has registered its id. -/
theorem Move.origin (h : Move host a k o a') (found : a'.table.get? id = some e) :
    (∃ d, a.table.get? id = some d ∧ d.Change id a.budget.used k o e) ∨
      a.table.get? id = none ∧ k = .connect id ∧ o = .done ∧
        ∃ c, host = some c ∧ e = { epoch := a.nextEpoch, overhead := c.policy.overhead } := by
  cases hd : a.table.get? id with
  | some d =>
    rcases h.of_present hd with ⟨_, _, hn⟩ | ⟨_, e', he', hc⟩
    · rw [hn] at found
      cases found
    · rw [he'] at found
      cases found
      exact Or.inl ⟨d, rfl, hc⟩
  | none =>
    rcases h.of_absent hd with hn | ⟨c, hh, hk, ho, he⟩
    · rw [hn] at found
      cases found
    · rw [he] at found
      cases found
      exact Or.inr ⟨rfl, hk, ho, c, hh, rfl⟩

end Accounts

end PacketBudget
