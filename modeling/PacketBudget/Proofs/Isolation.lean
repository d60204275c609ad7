import Mathlib.Data.List.Forall2
import PacketBudget.Proofs.FirstHost
import PacketBudget.Proofs.Orders

/-!
Connections do not notice each other. Where the ceiling refuses nothing, a script comes to the same
for some of the connections if all the others are left out of it. The two runs number their
registrations differently; a charge of one is live where its counterpart is live in the other.
-/

namespace PacketBudget

def Charge.unnumbered (c : Charge) : Charge := { c with epoch := 0 }

/-- The outcome without the epoch of what is handed out. -/
def Outcome.unnumbered : Outcome → Outcome
  | .charged c => .charged c.unnumbered
  | .leased l => .leased { l with charge := l.charge.unnumbered }
  | o => o

/-- The same entry but for its epoch, or none in both places. -/
inductive Entry.Twins : Option Entry → Option Entry → Prop
  | absent : Twins none none
  | found (e : Entry) (epoch : UInt64) : Twins (some e) (some { e with epoch })

/-- Charges of the same bytes that are both live on the entries `x` and `y`, or both stale. -/
structure Charge.Twins (x y : Option Entry) (c d : Charge) : Prop where
  conn : d.conn = c.conn
  bytes : d.bytes = c.bytes
  live : ∀ e f, x = some e → y = some f → (e.epoch = c.epoch ↔ f.epoch = d.epoch)

/-- The same call, or returns of charges that are twins. -/
inductive Call.Twins (x y : Option Entry) : Call → Call → Prop
  | same {k : Call} (asks : k.returned? = none) : Twins x y k k
  | returned {k k' : Call} {c d : Charge} (hc : k.returned? = some c) (hd : k'.returned? = some d)
      (charge : c.Twins x y d) : Twins x y k k'

section Verdicts

variable {x y : Option Entry} {k k' : Call} {c d : Charge}

theorem Entry.Twins.bytesOf_eq (h : Twins x y) : bytesOf y = bytesOf x := by
  cases h <;> rfl

theorem Entry.Twins.eq_none_iff (h : Twins x y) : y = none ↔ x = none := by
  cases h <;> simp

/-- What is done on twins leaves twins. -/
structure Verdict.Twins (v w : Verdict) : Prop where
  outcome : w.outcome.unnumbered = v.outcome.unnumbered
  entry : Entry.Twins v.entry w.entry

namespace Verdict

theorem Twins.refusal (hx : Entry.Twins x y) (t : Counter) (f : Fault) :
    Twins (refusal t f x) (refusal t f y) :=
  ⟨rfl, hx⟩

theorem Twins.connect (hx : Entry.Twins x y) (host : Option HostContext) (p q : UInt64)
    (id : ConnId) : Twins (connect host p id x) (connect host q id y) := by
  cases host with
  | none => exact .refusal hx _ _
  | some h =>
    cases hx with
    | absent => exact ⟨rfl, .found _ _⟩
    | found e epoch => exact .refusal (.found e epoch) _ _

theorem unnumbered_hands (k : Call) (holder : Identity) (id : ConnId) (p q : UInt64) (n : Nat) :
    (k.hands holder ⟨id, q, n⟩).unnumbered = (k.hands holder ⟨id, p, n⟩).unnumbered := by
  cases k <;> rfl

theorem Twins.packet (hx : Entry.Twins x y) (host : Option HostContext) (k : Call)
    (holder : Identity) (id : ConnId) (n : Nat) :
    Twins (packet host (k.hands holder) id n x) (packet host (k.hands holder) id n y) := by
  cases host with
  | none => exact .refusal hx _ _
  | some h =>
    cases hx with
    | absent => exact .refusal .absent _ _
    | found e epoch =>
      have hf : Entry.fits { e with epoch } h.policy.cap n = e.fits h.policy.cap n := rfl
      simp only [Verdict.packet, hf]
      split
      · exact ⟨unnumbered_hands .., .found (e.charge n) epoch⟩
      · exact .refusal (.found e epoch) _ _

theorem Twins.refund (hx : Entry.Twins x y) (h : c.Twins x y d) :
    Twins (refund c x) (refund d y) := by
  cases hx with
  | absent => exact ⟨rfl, .absent⟩
  | found e epoch =>
    have hl := h.live e _ rfl rfl
    simp only at hl
    simp only [Verdict.refund, h.bytes]
    by_cases he : e.epoch = c.epoch
    · rw [if_pos he, if_pos (hl.mp he)]
      exact ⟨rfl, .found _ epoch⟩
    · rw [if_neg he, if_neg fun hd => he (hl.mpr hd)]
      exact ⟨rfl, .found e epoch⟩

theorem Twins.release (hx : Entry.Twins x y) (n : Nat) : Twins (release n x) (release n y) := by
  cases hx with
  | absent => exact ⟨rfl, .absent⟩
  | found e epoch =>
    simp only [Verdict.release]
    split
    · exact ⟨rfl, .found e epoch⟩
    · exact ⟨rfl, .found _ epoch⟩

theorem Twins.close (hx : Entry.Twins x y) : Twins (close x) (close y) := by
  cases hx <;> exact ⟨rfl, .absent⟩

end Verdict

theorem Call.Twins.verdict (h : k.Twins x y k') (hx : Entry.Twins x y) (holder : Identity)
    (host : Option HostContext) (p q : UInt64) :
    (k.verdict holder host p x).Twins (k'.verdict holder host q y) := by
  cases h with
  | returned hc hd charge =>
    rw [verdict_returned hc, verdict_returned hd]
    exact .refund hx charge
  | same asks =>
    cases k with
    | init => exact ⟨rfl, hx⟩
    | connect id => exact .connect hx host p q id
    | charge id n | receive id n | lease id n => exact .packet hx host _ holder id n
    | refund | drop => cases asks
    | release id n => exact .release hx n
    | close => exact .close hx

end Verdicts

/-- The entry `y` has come of `x`, or has been opened after `n` others. -/
def Ages (n : Nat) (x y : Option Entry) : Prop :=
  ∀ f, y = some f → (∃ e, x = some e ∧ f.epoch = e.epoch) ∨ x = none ∧ n < f.epoch.toNat

theorem Ages.refl (n : Nat) (x : Option Entry) : Ages n x x := by
  intro f hf
  exact Or.inl ⟨f, hf, rfl⟩

/-- What two requests for a packet were handed: nothing, or charges that are twins. -/
inductive Handout (x y : Option Entry) (n m : Nat) : Option Call → Option Call → Prop
  | nothing : Handout x y n m none none
  | charge {k k' : Call} {c d : Charge} (hc : k.returned? = some c) (hd : k'.returned? = some d)
      (twins : c.Twins x y d) (early : c.epoch.toNat ≤ n) (early' : d.epoch.toNat ≤ m) :
      Handout x y n m (some k) (some k')

section Ages

variable {x y x' y' : Option Entry} {c d : Charge} {n m n' m' : Nat}

/-- A registration that is opened later makes neither of two early charges live. -/
theorem Charge.Twins.age (h : c.Twins x y d) (hxy : Entry.Twins x y) (early : c.epoch.toNat ≤ n)
    (early' : d.epoch.toNat ≤ m) (hx : Ages n x x') (hy : Ages m y y') : c.Twins x' y' d := by
  refine ⟨h.conn, h.bytes, ?_⟩
  intro e' f' he' hf'
  rcases hx e' he' with ⟨e, he, hee⟩ | ⟨hn, hlt⟩
  · rcases hy f' hf' with ⟨f, hf, hff⟩ | ⟨hn', _⟩
    · rw [hee, hff]
      exact h.live e f he hf
    · rw [hxy.eq_none_iff.mp hn'] at he
      cases he
  · rcases hy f' hf' with ⟨f, hf, _⟩ | ⟨_, hlt'⟩
    · rw [hxy.eq_none_iff.mpr hn] at hf
      cases hf
    · -- Both are fresh, so that neither charge is theirs.
      constructor
      · intro heq
        rw [heq] at hlt
        omega
      · intro heq
        rw [heq] at hlt'
        omega

theorem Handout.age {a b : Option Call} (h : Handout x y n m a b) (hxy : Entry.Twins x y)
    (hx : Ages n x x') (hy : Ages m y y') (hn : n ≤ n') (hm : m ≤ m') :
    Handout x' y' n' m' a b := by
  cases h with
  | nothing => exact .nothing
  | charge hc hd twins early early' =>
    exact .charge hc hd (twins.age hxy early early' hx hy) (Nat.le_trans early hn)
      (Nat.le_trans early' hm)

end Ages

theorem charge?_of_twins {o o' : Outcome}
    (h : o'.roomless.unnumbered = o.roomless.unnumbered) :
    o'.charge?.map Charge.unnumbered = o.charge?.map Charge.unnumbered := by
  have hc : ∀ o : Outcome, o.roomless.unnumbered.charge? = o.charge?.map Charge.unnumbered := by
    intro o
    cases o <;> rfl
  rw [← hc, h, hc]

theorem forall₂_getD {α : Type} {R : Option α → Option α → Prop} (hn : R none none)
    {as bs : List (Option α)} (h : List.Forall₂ R as bs) (n : Nat) :
    R (as.getD n none) (bs.getD n none) := by
  induction h generalizing n with
  | nil => exact hn
  | cons hab _ ih =>
    cases n with
    | zero => exact hab
    | succ n => exact ih n

namespace Service

/-- `s'` comes of `s`, which has opened `n` registrations; it has opened `n'`. -/
structure Later (s : Service) (n : Nat) (s' : Service) (n' : Nat) : Prop where
  identity : s'.identity = s.identity
  ceiling : s'.ceiling = s.ceiling
  balanced : s'.ledger.accounts.Balanced
  numbered : s'.Numbered n'
  le : n ≤ n'
  ages : ∀ id, Ages n (s.entry? id) (s'.entry? id)

/-- `t` has done for the connections in `S` what `s` has done for them and for all others. -/
structure Mirrors (S : ConnId → Bool) (s : Service) (n : Nat) (es : List Event) (t : Service)
    (m : Nat) (fs : List Event) : Prop where
  identity : t.identity = s.identity
  host : t.host = s.host
  ceiling : t.ceiling = s.ceiling
  balanced : s.ledger.accounts.Balanced
  balanced' : t.ledger.accounts.Balanced
  numbered : s.Numbered n
  numbered' : t.Numbered m
  le : m ≤ n
  inside : ∀ id, S id = true → Entry.Twins (s.entry? id) (t.entry? id)
  outside : ∀ id, S id = false → t.entry? id = none
  addressed : Addressed es
  handed : ∀ id, S id = true →
    List.Forall₂ (Handout (s.entry? id) (t.entry? id) n m) (requests id es) (requests id fs)

variable {S : ConnId → Bool} {s s' t t' : Service} {n n' m m' : Nat} {es fs : List Event}
variable {k k' : Call} {id : ConnId} {x y : Option Entry}

theorem later_refl (hb : s.ledger.accounts.Balanced) (hn : s.Numbered n) : s.Later n s n :=
  ⟨rfl, rfl, hb, hn, Nat.le_refl n, fun id => .refl n (s.entry? id)⟩

theorem later_step (hb : s.ledger.accounts.Balanced) (hn : s.Numbered n)
    (few : n + (s.opened k).length < UInt64.size) :
    s.Later n (s.step k).2 (n + (s.opened k).length) := by
  have hm := step_move s k
  refine ⟨identity_step s k, hm.ceiling, hm.balanced hb, numbered_step hn k,
    Nat.le_add_right _ _, ?_⟩
  intro id f hf
  rcases hm.origin hf with ⟨e, he, hc⟩ | ⟨gone, rfl, ho, c, _, rfl⟩
  · exact Or.inl ⟨e, he, hc.epoch_eq⟩
  · rw [opened_connect ho] at few
    refine Or.inr ⟨gone, ?_⟩
    simp only [hn.next, UInt64.toNat_ofNat_of_lt' few]
    exact Nat.lt_succ_self n

namespace Mirrors

variable (h : Mirrors S s n es t m fs)
include h

theorem used_le : t.used ≤ s.used := by
  have hs := h.balanced.used_eq
  have ht := h.balanced'.used_eq
  rw [used, Ledger.used, used, Ledger.used, hs, ht]
  apply Table.sum_le_sum h.balanced'.sound h.balanced.sound
  intro id f hf
  have hf : t.entry? id = some f := hf
  cases hS : S id with
  | false =>
    rw [h.outside id hS] at hf
    cases hf
  | true =>
    have ht := h.inside id hS
    rw [hf] at ht
    generalize he : s.entry? id = x at ht
    cases ht with
    | found e epoch => exact ⟨e, he, rfl⟩

theorem later (hs : s.Later n s' n') (ht : t.Later m t' m') (le : m' ≤ n')
    (host : t'.host = s'.host)
    (inside : ∀ id, S id = true → Entry.Twins (s'.entry? id) (t'.entry? id))
    (outside : ∀ id, S id = false → t'.entry? id = none) : Mirrors S s' n' es t' m' fs where
  identity := by rw [ht.identity, hs.identity, h.identity]
  host := host
  ceiling := by rw [ht.ceiling, hs.ceiling, h.ceiling]
  balanced := hs.balanced
  balanced' := ht.balanced
  numbered := hs.numbered
  numbered' := ht.numbered
  le := le
  inside := inside
  outside := outside
  addressed := h.addressed
  handed id hS := (h.handed id hS).imp fun _ _ hab =>
    hab.age (h.inside id hS) (hs.ages id) (ht.ages id) hs.le ht.le

theorem log {vs ws : List Event} (ha : Addressed (es ++ vs)) (hv : ∀ id, S id = true →
      List.Forall₂ (Handout (s.entry? id) (t.entry? id) n m) (requests id vs) (requests id ws)) :
    Mirrors S s n (es ++ vs) t m (fs ++ ws) := by
  refine { h with addressed := ha, handed := ?_ }
  intro id hS
  rw [requests_append, requests_append]
  exact List.rel_append (h.handed id hS) (hv id hS)

/-- A call about another connection does not show. -/
theorem step_outside (hk : k.conn? = some id) (hS : S id = false)
    (few : n + (s.opened k).length < UInt64.size) :
    Mirrors S (s.step k).2 (n + (s.opened k).length) (es ++ [⟨k, (s.step k).1⟩]) t m fs := by
  have hne : ∀ j, S j = true → j ≠ id := by
    rintro j hj rfl
    rw [hS] at hj
    cases hj
  have hl := later_step h.balanced h.numbered few
  have hm := h.later hl (later_refl h.balanced' h.numbered') (Nat.le_trans h.le hl.le) ?_ ?_ h.outside
  · rw [← List.append_nil fs]
    apply hm.log (h.addressed.snoc s _)
    intro j hj
    have hr : k.requests j = false := by
      rw [Bool.eq_false_iff]
      intro hr
      rw [Call.conn?_of_requests hr] at hk
      exact hne j hj (Option.some.inj hk)
    rw [requests_of_other hr]
    exact .nil
  · rw [host_of_conn? hk, h.host]
  · intro j hj
    have he : entry? (s.step k).2 j = s.entry? j := (step_move s k).others hk (hne j hj)
    rw [he]
    exact h.inside j hj

theorem step_init (c : HostContext) (few : n < UInt64.size) : (t.step (.init c)).1 = (s.step (.init c)).1 ∧
    Mirrors S (s.step (.init c)).2 n (es ++ [⟨.init c, (s.step (.init c)).1⟩])
      (t.step (.init c)).2 m (fs ++ [⟨.init c, (t.step (.init c)).1⟩]) := by
  have hh := h.host
  have entry_eq : ∀ (u : Service) id, entry? (u.step (.init c)).2 id = u.entry? id := by
    intro u id
    unfold entry? Ledger.entry? Ledger.table
    rw [accounts_init]
  constructor
  · cases hs : s.host <;> rw [hs] at hh <;> simp only [step, init, hs, hh, outcome]
  · have hs := later_step (k := .init c) h.balanced h.numbered few
    have ht := later_step (k := .init c) h.balanced' h.numbered' (Nat.lt_of_le_of_lt h.le few)
    have hm := h.later hs ht h.le ?_ ?_ ?_
    · apply hm.log (h.addressed.snoc s _)
      intro id _
      rw [requests_of_other rfl, requests_of_other rfl]
      exact .nil
    · rw [host_step_eq, host_step_eq, hh]
    · intro id hS
      rw [entry_eq, entry_eq]
      exact h.inside id hS
    · intro id hS
      rw [entry_eq]
      exact h.outside id hS

/-- The demand of the part is at most the demand of the whole. -/
theorem demand_le (hS : S id = true) (hk : k.Twins (s.entry? id) (t.entry? id) k') :
    t.demand id k' ≤ s.demand id k := by
  have hv := hk.verdict (h.inside id hS) s.identity s.host s.ledger.accounts.nextEpoch
    t.ledger.accounts.nextEpoch
  have hx : bytesOf (t.ledger.accounts.table.get? id) = bytesOf (s.ledger.accounts.table.get? id) :=
    (h.inside id hS).bytesOf_eq
  have hu : t.ledger.accounts.budget.used ≤ s.ledger.accounts.budget.used := h.used_le
  simp only [demand, verdict, h.identity, h.host, Accounts.write, hv.entry.bytesOf_eq, hx]
  omega

end Mirrors

theorem opened_le (hk : k.Twins x y k')
    (ho : (t.step k').1.roomless.unnumbered = (s.step k).1.roomless.unnumbered) :
    (t.opened k').length ≤ (s.opened k).length := by
  cases hk with
  | returned _ hd =>
    have hn : t.opened k' = [] := by cases k' <;> cases hd <;> rfl
    rw [hn]
    exact Nat.zero_le _
  | same asks =>
    cases k with
    | connect id =>
      by_cases hd : (t.step (.connect id)).1 = .done
      · have hs : (s.step (.connect id)).1 = .done := by
          rw [hd] at ho
          generalize (s.step (.connect id)).1 = o at ho
          cases o <;> cases ho
          rfl
        exact Nat.le_of_eq ((opened_connect hd).trans (opened_connect hs).symm)
      · have hn : t.opened (.connect id) = [] := by
          unfold opened
          split
          · rename_i hk ho
            cases hk
            exact absurd ho hd
          · rfl
        rw [hn]
        exact Nat.zero_le _
    | init | charge | receive | lease | refund | drop | release | close => exact Nat.le_refl 0

theorem handout_step {p : Nat} (hk : k.packet? = some (id, p))
    (ho : (t.step k).1.roomless.unnumbered = (s.step k).1.roomless.unnumbered)
    (hn : (s.step k).2.Numbered n) (hn' : (t.step k).2.Numbered m) :
    Handout (Service.entry? (s.step k).2 id) (Service.entry? (t.step k).2 id) n m (s.step k).1.giveBack?
      (t.step k).1.giveBack? := by
  have hc := charge?_of_twins ho
  cases hs : (s.step k).1.charge? with
  | none =>
    rw [hs, Option.map_none, Option.map_eq_none_iff] at hc
    rw [giveBack?_eq_none hs, giveBack?_eq_none hc]
    exact .nothing
  | some c =>
    rw [hs, Option.map_some, Option.map_eq_some_iff] at hc
    obtain ⟨d, ht, hcd⟩ := hc
    obtain ⟨a, ha, hac⟩ := giveBack?_of_charge? hs
    obtain ⟨b, hb, hbd⟩ := giveBack?_of_charge? ht
    obtain ⟨e, he, hx⟩ := (step_move s k).handed hs
    obtain ⟨f, hf, hy⟩ := (step_move t k).handed ht
    have hconn : c.conn = id := by
      have hp := ((step_move s k).admits hs).packet
      rw [hk] at hp
      exact (congrArg Prod.fst (Option.some.inj hp)).symm
    simp only [Charge.unnumbered, Charge.mk.injEq, true_and] at hcd
    obtain ⟨hdc, hbytes⟩ := hcd
    have he : entry? (s.step k).2 id = some e := hconn ▸ he
    have hf : entry? (t.step k).2 id = some f := hconn ▸ hdc ▸ hf
    rw [ha, hb]
    refine .charge hac hbd ⟨hdc, hbytes, ?_⟩ ?_ ?_
    · intro e' f' he' hf'
      rw [he] at he'
      rw [hf] at hf'
      cases he'
      cases hf'
      exact iff_of_true hx hy
    · exact hx ▸ hn.live id e he
    · exact hy ▸ hn'.live id f hf

/-- A call about one of the connections comes to the same in both. -/
theorem Mirrors.step_inside (h : Mirrors S s n es t m fs) (hS : S id = true)
    (hc : k.conn? = some id) (hc' : k'.conn? = some id)
    (hk : k.Twins (s.entry? id) (t.entry? id) k') (hr : s.roomy k = true)
    (few : n + (s.opened k).length < UInt64.size) :
    (t.step k').1.roomless.unnumbered = (s.step k).1.roomless.unnumbered ∧
      Mirrors S (s.step k).2 (n + (s.opened k).length) (es ++ [⟨k, (s.step k).1⟩])
        (t.step k').2 (m + (t.opened k').length) (fs ++ [⟨k', (t.step k').1⟩]) := by
  have hv := hk.verdict (h.inside id hS) s.identity s.host s.ledger.accounts.nextEpoch
    t.ledger.accounts.nextEpoch
  have hfs := follows_of_roomy h.balanced hc hr
  have hft : t.Follows id k' := by
    apply follows_of_le h.balanced' hc'
    rw [h.ceiling]
    exact Nat.le_trans (h.demand_le hS hk) (hfs.demand_le h.balanced)
  have ho : (t.step k').1.roomless.unnumbered = (s.step k).1.roomless.unnumbered := by
    rw [hft.outcome, hfs.outcome, verdict, h.identity, h.host]
    exact hv.outcome
  have hle := opened_le hk ho
  have hle' := h.le
  have hs := later_step h.balanced h.numbered few
  have ht := later_step (k := k') h.balanced' h.numbered' (by omega)
  have hinside : ∀ j, S j = true →
      Entry.Twins (Service.entry? (s.step k).2 j) (Service.entry? (t.step k').2 j) := by
    intro j hj
    rw [hfs.entry?_eq, hft.entry?_eq]
    split
    · rw [verdict, verdict, h.identity, h.host]
      exact hv.entry
    · exact h.inside j hj
  have hm := h.later hs ht (by omega) ?_ hinside ?_
  · refine ⟨ho, hm.log (h.addressed.snoc s k) ?_⟩
    intro j hj
    -- A return is no request, and a request is the same call in both.
    cases hk with
    | returned hr hr' =>
      have hq : ∀ {l c}, Call.returned? l = some c → l.requests j = false := by
        intro l c hl
        rw [Call.requests, Call.packet?_of_returned? hl]
        rfl
      rw [requests_of_other (hq hr), requests_of_other (hq hr')]
      exact .nil
    | same asks =>
      cases hq : k.requests j with
      | false =>
        rw [requests_of_other hq, requests_of_other hq]
        exact .nil
      | true =>
        obtain rfl : id = j := by
          rw [Call.conn?_of_requests hq] at hc
          exact (Option.some.inj hc).symm
        obtain ⟨p, hp⟩ := Call.packet?_of_requests hq
        rw [requests_of_asks hq, requests_of_asks hq]
        exact .cons (handout_step hp ho hs.numbered ht.numbered) .nil
  · rw [host_of_conn? hc, host_of_conn? hc', h.host]
  · intro j hj
    have hne : j ≠ id := by
      rintro rfl
      rw [hS] at hj
      cases hj
    rw [hft.entry?_eq, if_neg hne]
    exact h.outside j hj

end Service

/-- The line is about one of the connections in `S`, or about none. -/
def Order.within (S : ConnId → Bool) (o : Order) : Bool := o.conn?.all S

/-- The line gives back nothing but what a request was handed. -/
def Order.fair : Order → Bool
  | .call k => k.returned?.isNone
  | .giveBack .. => true

namespace Stage

/-- How many registrations the stage opens. -/
def opened (g : Stage) : Nat := (g.before.registrations g.calls).length

theorem opened_some (o : Order) (s : Service) (k : Call) :
    opened ⟨o, s, some k⟩ = (s.opened k).length := by
  rw [opened, calls, Option.toList_some, Service.registrations, Service.registrations,
    List.append_nil]

/-- The same line with the same effect on the connections in `S`, but for the epochs and for the
room that a refusal reports. -/
structure Alike (S : ConnId → Bool) (g g' : Stage) : Prop where
  order : g'.order = g.order
  outcome : g'.outcome?.map (fun o => o.roomless.unnumbered) =
    g.outcome?.map fun o => o.roomless.unnumbered
  entries : ∀ id, S id = true → Entry.Twins (g.after.entry? id) (g'.after.entry? id)

end Stage

theorem registrations_made (g : Stage) (gs : List Stage) :
    (g.before.registrations (made (g :: gs))).length =
      g.opened + (g.after.registrations (made gs)).length := by
  rw [made, List.flatMap_cons, Service.registrations_append, List.length_append]
  rfl

namespace Service.Mirrors

variable {S : ConnId → Bool} {s t : Service} {n m : Nat} {es fs : List Event} {o : Order}
variable {id : ConnId}

/-- A line comes to the same call in both, up to epochs. -/
theorem call_twins (h : Mirrors S s n es t m fs) (hS : S id = true) (ho : o.conn? = some id)
    (fair : o.fair = true) :
    (o.call? es = none ∧ o.call? fs = none) ∨ ∃ k k', o.call? es = some k ∧
      o.call? fs = some k' ∧ k.conn? = some id ∧ k'.conn? = some id ∧
      k.Twins (s.entry? id) (t.entry? id) k' := by
  have hconn : ∀ k, o.call? es = some k → k.conn? = some id := fun _ => h.addressed.conn? ho
  cases o with
  | call k =>
    have hk := hconn k rfl
    exact Or.inr ⟨k, k, rfl, rfl, hk, hk, .same (Option.isNone_iff_eq_none.mp fair)⟩
  | giveBack conn i =>
    cases ho
    have hh : Handout (s.entry? id) (t.entry? id) n m ((Order.giveBack id i).call? es)
        ((Order.giveBack id i).call? fs) := forall₂_getD .nothing (h.handed id hS) i
    generalize (Order.giveBack id i).call? es = a at hh hconn ⊢
    generalize (Order.giveBack id i).call? fs = b at hh ⊢
    cases hh with
    | nothing => exact Or.inl ⟨rfl, rfl⟩
    | @charge k k' c d hc hd twins =>
      have hk := hconn k rfl
      refine Or.inr ⟨k, k', rfl, rfl, hk, ?_, .returned hc hd twins⟩
      rw [Call.conn?_of_returned? hd, twins.conn, ← Call.conn?_of_returned? hc, hk]

theorem stage_inside (h : Mirrors S s n es t m fs) (hS : o.within S = true) (fair : o.fair = true)
    (hr : Stage.roomy ⟨o, s, o.call? es⟩ = true)
    (few : n + Stage.opened ⟨o, s, o.call? es⟩ < UInt64.size) :
    Stage.Alike S ⟨o, s, o.call? es⟩ ⟨o, t, o.call? fs⟩ ∧
      Mirrors S (Stage.after ⟨o, s, o.call? es⟩) (n + Stage.opened ⟨o, s, o.call? es⟩)
        (es ++ Stage.events ⟨o, s, o.call? es⟩) (Stage.after ⟨o, t, o.call? fs⟩)
        (m + Stage.opened ⟨o, t, o.call? fs⟩) (fs ++ Stage.events ⟨o, t, o.call? fs⟩) := by
  cases ho : o.conn? with
  | none =>
    cases o with
    | giveBack => cases ho
    | call k =>
      obtain ⟨c, rfl⟩ := eq_init_of_conn? ho
      obtain ⟨hout, hm⟩ := h.step_init c (Nat.lt_of_le_of_lt (Nat.le_add_right _ _) few)
      refine ⟨⟨rfl, ?_, hm.inside⟩, hm⟩
      exact congrArg (fun o => some o.roomless.unnumbered) hout
  | some id =>
    have hS : S id = true := by simpa only [Order.within, ho, Option.all_some] using hS
    rcases h.call_twins hS ho fair with ⟨he, hf⟩ | ⟨k, k', he, hf, hc, hc', hk⟩
    · rw [he, hf]
      refine ⟨⟨rfl, rfl, h.inside⟩, ?_⟩
      simp only [Stage.events, Stage.calls, Option.toList_none, history, List.append_nil]
      exact h
    · rw [he] at hr few
      rw [Stage.opened_some] at few
      obtain ⟨hout, hm⟩ := h.step_inside hS hc hc' hk hr few
      rw [he, hf, Stage.opened_some, Stage.opened_some]
      exact ⟨⟨rfl, congrArg some hout, hm.inside⟩, hm⟩

theorem stage_outside (h : Mirrors S s n es t m fs) (hS : o.within S = false)
    (few : n + Stage.opened ⟨o, s, o.call? es⟩ < UInt64.size) :
    Mirrors S (Stage.after ⟨o, s, o.call? es⟩) (n + Stage.opened ⟨o, s, o.call? es⟩)
      (es ++ Stage.events ⟨o, s, o.call? es⟩) t m fs := by
  cases ho : o.conn? with
  | none => simp only [Order.within, ho, Option.all_none, Bool.true_eq_false] at hS
  | some id =>
    have hS : S id = false := by simpa only [Order.within, ho, Option.all_some] using hS
    cases hk : o.call? es with
    | none =>
      simp only [Stage.events, Stage.calls, Option.toList_none, history, List.append_nil]
      exact h
    | some k =>
      rw [hk, Stage.opened_some] at few
      rw [Stage.opened_some]
      exact h.step_outside (h.addressed.conn? ho hk) hS few

/-- The stages about connections in `S` are those of the part of the script that is about them. -/
theorem carryOut_alike (h : Mirrors S s n es t m fs) {os : List Order}
    (fair : ∀ o ∈ os, o.fair = true) (hr : ∀ g ∈ s.carryOut es os, g.roomy = true)
    (few : n + (s.registrations (made (s.carryOut es os))).length < UInt64.size) :
    List.Forall₂ (Stage.Alike S) ((s.carryOut es os).filter fun g => g.order.within S)
      (t.carryOut fs (os.filter fun o => o.within S)) := by
  induction os generalizing s t n m es fs with
  | nil => exact .nil
  | cons o os ih =>
    obtain ⟨fair, fairs⟩ := List.forall_mem_cons.mp fair
    obtain ⟨hr, hrs⟩ := List.forall_mem_cons.mp hr
    have few := registrations_made ⟨o, s, o.call? es⟩ (Service.carryOut _ _ os) ▸ few
    rw [← Nat.add_assoc] at few
    have hfew := Nat.lt_of_le_of_lt (Nat.le_add_right _ _) few
    cases hS : o.within S with
    | true =>
      obtain ⟨ha, hm⟩ := h.stage_inside hS fair hr hfew
      simp only [carryOut, List.filter_cons, hS, ↓reduceIte]
      exact .cons ha (ih hm fairs hrs few)
    | false =>
      have hm := h.stage_outside hS hfew
      simp only [carryOut, List.filter_cons, hS, Bool.false_eq_true, ↓reduceIte]
      exact ih hm fairs hrs few

end Service.Mirrors

namespace Service

variable {s₀ : Service}

theorem mirrors_create {limit : Int64} {al al' : Allocator} (h : create limit al = .ok (s₀, al'))
    (S : ConnId → Bool) : Mirrors S s₀ 0 [] s₀ 0 [] where
  identity := rfl
  host := rfl
  ceiling := rfl
  balanced := balanced_create h
  balanced' := balanced_create h
  numbered := numbered_create h
  numbered' := numbered_create h
  le := Nat.le_refl 0
  inside id _ := by
    rw [create_no_entry h]
    exact .absent
  outside id _ := create_no_entry h id
  addressed := addressed_nil
  handed _ _ := .nil

/-- A script in which the ceiling refuses nothing, carried out without its lines about connections
outside `S`, comes to the same for those in `S`. The bound on registrations keeps a charge from
being taken for one of a later registration. -/
theorem connections_are_isolated {limit : Int64} {al al' : Allocator}
    (h : create limit al = .ok (s₀, al')) (S : ConnId → Bool) (os : List Order)
    (fair : ∀ o ∈ os, o.fair = true) (roomy : ∀ g ∈ s₀.carryOut [] os, g.roomy = true)
    (few : (s₀.registrations (made (s₀.carryOut [] os))).length < UInt64.size) :
    List.Forall₂ (Stage.Alike S) ((s₀.carryOut [] os).filter fun g => g.order.within S)
      (s₀.carryOut [] (os.filter fun o => o.within S)) := by
  apply (mirrors_create h S).carryOut_alike fair roomy
  rw [Nat.zero_add]
  exact few

/-- An id is used twice, between calls about another that shift its epochs. -/
theorem connections_are_isolated_of_reused_id :
    ∃ s al' os, create 100 {} = .ok (s, al') ∧
      List.Forall₂ (Stage.Alike (· = ⟨7⟩))
        ((s.carryOut [] os).filter fun g => g.order.within (· = ⟨7⟩))
        (s.carryOut [] (os.filter fun o => o.within (· = ⟨7⟩))) ∧
      (s.carryOut [] os).map Stage.outcome? = [some .done, some .done, some .done,
        some (.leased ⟨⟨1⟩, ⟨7⟩, 2, 20⟩), some (.freed 30), some .done,
        some (.charged ⟨⟨7⟩, 3, 15⟩), some (.freed 0), some (.rejected (.budgetExhausted 30 25)),
        some (.freed 15), some (.freed 10)] ∧
      (s.carryOut [] (os.filter fun o => o.within (· = ⟨7⟩))).map Stage.outcome? = [some .done,
        some .done, some (.leased ⟨⟨1⟩, ⟨7⟩, 1, 20⟩), some (.freed 30), some .done,
        some (.charged ⟨⟨7⟩, 2, 15⟩), some (.freed 0), some (.rejected (.budgetExhausted 30 25)),
        some (.freed 15)] := by
  have h : create 100 {} = .ok (_, _) := rfl
  let os : List Order := [.call (.init ⟨"host", ⟨10, 40⟩⟩), .call (.connect ⟨8⟩),
    .call (.connect ⟨7⟩), .call (.lease ⟨7⟩ 20), .call (.close ⟨7⟩), .call (.connect ⟨7⟩),
    .call (.charge ⟨7⟩ 15), .giveBack ⟨7⟩ 0, .call (.receive ⟨7⟩ 30), .giveBack ⟨7⟩ 1,
    .call (.close ⟨8⟩)]
  refine ⟨_, _, os, h, ?_, by decide, by decide⟩
  exact connections_are_isolated h _ os (by decide) (by decide) (by decide)

end Service

end PacketBudget
