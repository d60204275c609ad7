import PacketBudget.Ledger.Race
import PacketBudget.Proofs.Balance
import PacketBudget.Proofs.Replacement

/-!
The hooks of a service called by many at once. A close takes its entry off the table in one step and
frees the bytes in a later one; in between, the bytes in use are those of the registered connections
and those on their way back. Every close frees what it took off the table, whatever has become of
the id since, and an id is opened again only after it was ended.
-/

namespace PacketBudget

/-- What a call of the host asks of the ledger, under the host's policy. -/
def Call.ledgerCall? (p : Policy) : Call → Option Ledger.Call
  | .init _ => none
  | .connect conn => some (.register conn p.overhead)
  | .charge conn n | .receive conn n | .lease conn n => some (.charge conn n p.cap)
  | .refund c => some (.refund c)
  | .drop l => some (.refund l.charge)
  | .release conn n => some (.release conn n)
  | .close conn => some (.close conn)

namespace Accounts

variable {a : Accounts} {id : ConnId} {e : Entry} {m n : Nat}

theorem Owes.removed (h : a.Owes m) (found : a.table.get? id = some e) :
    Owes { a with table := a.table.erase id } (m + e.charged) := by
  refine ⟨h.sound.erase id, ?_, h.used_le⟩
  have hs := Table.sum_erase h.sound found Entry.charged
  have hu := h.used_eq
  simp only [Table.charged_eq_sum] at hu ⊢
  omega

theorem Owes.free (h : a.Owes (m + n)) : (a.free n).2.Owes m ∧ (a.free n).1 = n := by
  have hu := h.used_eq
  refine ⟨⟨h.sound, ?_, Nat.le_trans (Nat.sub_le _ _) h.used_le⟩, Nat.min_eq_right (by omega)⟩
  simp only [Accounts.free, Budget.release]
  omega

/-- Only a registration and a close decide whether an id is registered. -/
theorem Move.contains_eq {host : Option HostContext} {a' : Accounts} {k : Call} {o : Outcome}
    (h : Move host a k o a') (stays : k ≠ .close id)
    (opens : ¬ (k = .connect id ∧ o = .done)) :
    a'.table.contains id = a.table.contains id := by
  unfold Table.contains
  cases hg : a.table.get? id with
  | none =>
    rcases h.of_absent hg with hn | ⟨_, _, hc, ho, _⟩
    · rw [hn]
    · exact absurd ⟨hc, ho⟩ opens
  | some e =>
    rcases h.of_present hg with ⟨hc, _⟩ | ⟨_, e', he', _⟩
    · exact absurd hc stays
    · rw [he']
      rfl

end Accounts

namespace Ledger.Race

def Progress.answer? : Progress → Option Answer
  | .counting _ a | .answered a => some a
  | _ => none

/-- The entry that a close has taken off the table and not yet freed. -/
def Caller.removed? (c : Caller) : Option Entry :=
  match c.progress with
  | .freeing e => some e
  | _ => none

/-- The bytes of such an entry. -/
def Caller.owed (c : Caller) : Nat := (c.removed?.map Entry.charged).getD 0

def removed (r : Race) : List Entry := r.callers.toList.filterMap Caller.removed?

/-- A registration begins or ends. -/
inductive Turning
  | opened (id : ConnId)
  | ended (id : ConnId)
  deriving DecidableEq, Repr

/-- What a call did to the registrations in the move from `c` to `c'`. -/
def Caller.turning? (c c' : Caller) : Option Turning :=
  match c.progress, c.call, c'.progress with
  | .waiting, .register id _, p =>
    if p.answer? = some .registered then some (.opened id) else none
  | .waiting, .close id, .freeing _ => some (.ended id)
  | _, _, _ => none

def turning? (r : Race) (i : Nat) : Option Turning :=
  match r.callers[i]?, (r.move i).callers[i]? with
  | some c, some c' => c.turning? c'
  | _, _ => none

/-- The registrations that begin and end in a run, in order. -/
def turnings (r : Race) : List Nat → List Turning
  | [] => []
  | i :: is => (r.turning? i).toList ++ (r.move i).turnings is

/-- One move of a call, with the accounts and the call after it. -/
inductive Turn (host : HostContext) (a : Accounts) (c : Caller) : Accounts → Caller → Prop
  | decided {k : PacketBudget.Call} {o : Outcome} {a' : Accounts} {x : Answer} {p : Progress}
      (waiting : c.progress = .waiting) (asks : k.ledgerCall? host.policy = some c.call)
      (stays : ∀ id, c.call ≠ .close id) (move : a.Move (some host) k o a')
      (answer : p.answer? = some x) (opens : x = .registered ↔ ∃ id, k = .connect id ∧ o = .done) :
      Turn host a c a' { c with progress := p }
  | removed {id : ConnId} {e : Entry} (waiting : c.progress = .waiting)
      (closes : c.call = .close id) (found : a.table.get? id = some e) :
      Turn host a c { a with table := a.table.erase id } { c with progress := .freeing e }
  | absent {id : ConnId} (waiting : c.progress = .waiting) (closes : c.call = .close id)
      (gone : a.table.get? id = none) :
      Turn host a c a { c with progress := .answered .absent }
  | freed {e : Entry} (holds : c.progress = .freeing e) :
      Turn host a c (a.free e.charged).2
        { c with progress := decided (closeTicks (a.free e.charged).1)
                    (.freed (a.free e.charged).1) }
  | ticked {x : Answer} {p : Progress} (answer : c.progress.answer? = some x)
      (same : p.answer? = some x) : Turn host a c a { c with progress := p }

theorem answer?_decided (ts : List Tick) (x : Answer) : (decided ts x).answer? = some x := by
  unfold decided
  split <;> rfl

theorem owed_of_answer? {call : Call} {p : Progress} {x : Answer} (h : p.answer? = some x) :
    Caller.owed ⟨call, p⟩ = 0 := by
  cases p with
  | counting | answered => rfl
  | waiting | freeing => cases h

theorem decide_returned (l : Ledger) (r : Option (Nat × Accounts)) :
    (decide.returned l.accounts r).1 = (l.book r).2.accounts ∧
      (decide.returned l.accounts r).2.answer? = some (.freed (l.book r).1) := by
  rcases r with _ | ⟨n, a⟩
  · exact ⟨rfl, rfl⟩
  · refine ⟨rfl, ?_⟩
    simp only [decide.returned, answer?_decided, book]

theorem decide_charge {s : Service} {host : HostContext} (hh : s.host = some host) (conn : ConnId)
    (n : Nat) :
    (decide s.ledger.accounts (.charge conn n host.policy.cap)).1 =
        (s.charge conn n).2.ledger.accounts ∧
      ∃ x, (decide s.ledger.accounts (.charge conn n host.policy.cap)).2.answer? = some x ∧
        x ≠ .registered := by
  cases hr : s.ledger.accounts.charge conn n host.policy.cap with
  | error f =>
    simp only [decide, hr, Service.charge, hh, Ledger.charge]
    exact ⟨rfl, _, answer?_decided _ _, by simp⟩
  | ok r =>
    simp only [decide, hr, Service.charge, hh, Ledger.charge]
    exact ⟨trivial, _, answer?_decided _ _, by simp⟩

/-- Under its lock a call does to the accounts what the hook does that makes it, and it answers that
it has registered a connection just where the hook does. -/
theorem decide_step {s : Service} {host : HostContext} {k : PacketBudget.Call} {call : Call}
    (hh : s.host = some host) (asks : k.ledgerCall? host.policy = some call)
    (stays : ∀ id, call ≠ .close id) :
    (decide s.ledger.accounts call).1 = (s.step k).2.ledger.accounts ∧
      ∃ x, (decide s.ledger.accounts call).2.answer? = some x ∧
        (x = .registered ↔ ∃ id, k = .connect id ∧ (s.step k).1 = .done) := by
  cases k with
  | init h => cases asks
  | close conn =>
    cases asks
    exact absurd rfl (stays conn)
  | connect conn =>
    cases asks
    cases hr : s.ledger.accounts.register conn host.policy.overhead with
    | error f =>
      simp only [decide, hr, Service.step, Service.connect, hh, Ledger.register, Service.outcome]
      exact ⟨rfl, _, answer?_decided _ _, by simp⟩
    | ok a =>
      simp only [decide, hr, Service.step, Service.connect, hh, Ledger.register, Service.outcome]
      exact ⟨rfl, _, answer?_decided _ _, by simp⟩
  | charge conn n | receive conn n | lease conn n =>
    cases asks
    obtain ⟨ha, x, hx, hne⟩ := decide_charge hh conn n
    refine ⟨ha.trans ?_, x, hx, by simp [hne]⟩
    rcases hs : s.charge conn n with ⟨_ | _, _⟩
    all_goals simp only [Service.step, Service.lease, hs, Service.outcome]
  | refund c | drop l | release conn m =>
    cases asks
    exact ⟨(decide_returned s.ledger _).1, _, (decide_returned s.ledger _).2, by simp⟩

section Moves

variable {host : HostContext} {l : Ledger} {a a' : Accounts} {c c' : Caller} {id : ConnId} {m : Nat}

theorem advance_turn (l : Ledger) (hook : ∃ k, Call.ledgerCall? host.policy k = some c.call) :
    Turn host l.accounts c (advance l c).1.accounts (advance l c).2 := by
  obtain ⟨k, hk⟩ := hook
  obtain ⟨call, p⟩ := c
  cases p with
  | waiting =>
    by_cases hclose : ∃ id, call = .close id
    · obtain ⟨id, rfl⟩ := hclose
      cases hg : l.accounts.table.get? id with
      | none =>
        simp only [advance, decide, Accounts.remove?, hg, Option.map_none]
        exact .absent rfl rfl hg
      | some e =>
        simp only [advance, decide, Accounts.remove?, hg, Option.map_some]
        exact .removed rfl rfl hg
    · have stays : ∀ id, call ≠ .close id := fun id h => hclose ⟨id, h⟩
      -- the service whose hook this is, as far as the accounts can tell
      let s : Service := { identity := ⟨0⟩, host := some host, ledger := l }
      obtain ⟨ha, x, hx, hopens⟩ := decide_step (s := s) rfl hk stays
      have hm := Service.step_move s k
      rw [← ha] at hm
      exact .decided rfl hk stays hm hx hopens
  | freeing e => exact .freed rfl
  | counting ts x =>
    cases ts with
    | nil => exact .ticked rfl rfl
    | cons t ts => exact .ticked rfl (answer?_decided ts x)
  | answered x => exact .ticked rfl rfl

namespace Turn

theorem call_eq (h : Turn host a c a' c') : c'.call = c.call := by
  cases h <;> rfl

theorem ceiling (h : Turn host a c a' c') : a'.budget.ceiling = a.budget.ceiling := by
  cases h with
  | decided _ _ _ move => exact move.ceiling
  | removed | absent | freed | ticked => rfl

/-- A call that has its answer keeps it. -/
theorem answer?_eq (h : Turn host a c a' c') {x : Answer} (hx : c.progress.answer? = some x) :
    c'.progress.answer? = some x := by
  cases h with
  | decided waiting | removed waiting | absent waiting =>
    rw [waiting] at hx
    cases hx
  | freed holds =>
    rw [holds] at hx
    cases hx
  | ticked answer same =>
    rw [answer] at hx
    cases hx
    exact same

/-- What is in use is owed to the entries that are off the table as well. -/
theorem owes (h : Turn host a c a' c') (ha : a.Owes (m + c.owed)) : a'.Owes (m + c'.owed) := by
  obtain ⟨call, q⟩ := c
  cases h with
  | decided waiting _ _ move answer =>
    cases waiting
    rw [owed_of_answer? answer]
    exact move.owes ha
  | removed waiting _ found =>
    cases waiting
    exact ha.removed found
  | absent waiting =>
    cases waiting
    exact ha
  | freed holds =>
    cases holds
    rw [owed_of_answer? (answer?_decided _ _)]
    exact ha.free.1
  | ticked answer same =>
    rw [owed_of_answer? same]
    rwa [owed_of_answer? answer] at ha

/-- An id is opened where it was not registered and ended where it was. -/
theorem turning (h : Turn host a c a' c') (id : ConnId) :
    (c.turning? c').toList.count (.opened id) + (a.table.contains id).toNat =
      (c.turning? c').toList.count (.ended id) + (a'.table.contains id).toNat := by
  obtain ⟨call, q⟩ := c
  cases h with
  | @decided k o _ x p waiting asks stays move answer opens =>
    cases waiting
    by_cases hx : x = .registered
    · obtain ⟨j, rfl, rfl⟩ := opens.mp hx
      cases asks
      cases move with
      | opened taken fresh fits =>
        have ht : Caller.turning? ⟨.register j host.policy.overhead, .waiting⟩
            ⟨.register j host.policy.overhead, p⟩ = some (.opened j) := by
          simp [Caller.turning?, answer, hx]
        by_cases hid : id = j
        · subst hid
          simp [ht, Table.contains, Accounts.get?_opened, fresh]
        · simp [ht, Table.contains, Accounts.get?_opened, hid, Ne.symm hid]
      | charged taken found cap fits admits => cases admits
    · have ht : Caller.turning? ⟨call, .waiting⟩ ⟨call, p⟩ = none := by
        cases call with
        | register => simp [Caller.turning?, answer, hx]
        | close j => exact absurd rfl (stays j)
        | charge | refund | release | remove | reserve | free => rfl
      have hk : k ≠ .close id := by
        rintro rfl
        cases asks
        exact stays id rfl
      rw [ht, move.contains_eq hk fun hc => hx (opens.mpr ⟨id, hc⟩)]
      rfl
  | @removed j e waiting closes found =>
    cases waiting
    cases closes
    by_cases hid : id = j
    · subst hid
      simp [Caller.turning?, Table.contains, Table.get?_erase, found]
    · simp [Caller.turning?, Table.contains, Table.get?_erase, hid, Ne.symm hid]
  | absent waiting closes =>
    cases waiting
    cases closes
    rfl
  | freed holds =>
    cases holds
    rfl
  | ticked answer =>
    cases q with
    | waiting | freeing => cases answer
    | counting | answered => rfl

end Turn

end Moves

/-- All calls are those of hooks, and what is in use is what the table and the closes in progress
hold. -/
structure Kept (host : HostContext) (r : Race) : Prop where
  asks : ∀ (i : Nat) (c : Caller), r.callers[i]? = some c →
    ∃ k, Call.ledgerCall? host.policy k = some c.call
  owes : r.ledger.accounts.Owes (total (r.callers.toList.map Caller.owed))

section Runs

variable {host : HostContext} {r : Race} {i : Nat} {c : Caller} {id : ConnId} {e : Entry}

theorem kept_start {l : Ledger} (h : l.accounts.Balanced) (host : HostContext)
    (ks : List PacketBudget.Call) :
    (start l (ks.filterMap (Call.ledgerCall? host.policy))).Kept host := by
  constructor
  · intro i c hc
    simp only [start, List.getElem?_toArray, List.getElem?_map, Option.map_eq_some_iff] at hc
    obtain ⟨q, hq, rfl⟩ := hc
    obtain ⟨k, _, hk⟩ := List.mem_filterMap.mp (List.mem_of_getElem? hq)
    exact ⟨k, hk⟩
  · have hz : ∀ qs : List Call,
        total ((start l qs).callers.toList.map Caller.owed) = 0 := by
      intro qs
      induction qs with
      | nil => rfl
      | cons q qs ih => exact (Nat.zero_add _).trans ih
    rw [hz]
    exact Accounts.balanced_iff_owes.mp h

/-- A move is a turn of its call. -/
theorem move_turn (h : r.Kept host) (i : Nat) :
    (r.callers[i]? = none ∧ r.move i = r) ∨
      ∃ c l c', r.callers[i]? = some c ∧ Turn host r.ledger.accounts c l.accounts c' ∧
        r.move i = ⟨l, r.callers.setIfInBounds i c'⟩ := by
  cases hc : r.callers[i]? with
  | none => exact Or.inl ⟨rfl, by simp only [move, hc]⟩
  | some c =>
    refine Or.inr ⟨c, _, _, rfl, advance_turn r.ledger (h.asks i c hc), ?_⟩
    simp only [move, hc]

/-- What is summed up of the calls, split at the one that moves. -/
theorem sum_split (hc : r.callers[i]? = some c) (f : Caller → Nat) :
    ∃ m, total (r.callers.toList.map f) = m + f c ∧
      ∀ c', total ((r.callers.setIfInBounds i c').toList.map f) = m + f c' := by
  obtain ⟨rest, hp, hs⟩ := exists_others hc
  refine ⟨total (rest.map f), ?_, fun c' => ?_⟩
  · rw [total_perm (hp.map f), List.map_cons, total, Nat.add_comm]
  · rw [total_perm ((hs c').map f), List.map_cons, total, Nat.add_comm]

theorem kept_move (h : r.Kept host) (i : Nat) : (r.move i).Kept host := by
  rcases move_turn h i with ⟨_, hm⟩ | ⟨c, l, c', hc, turn, hm⟩
  · rw [hm]
    exact h
  · rw [hm]
    constructor
    · intro j d hd
      rw [getElem?_replaced hc] at hd
      split at hd
      · cases hd
        rw [turn.call_eq]
        exact h.asks i c hc
      · exact h.asks j d hd
    · obtain ⟨m, ho, hs⟩ := sum_split hc Caller.owed
      have howes := h.owes
      rw [ho] at howes
      rw [hs c']
      exact turn.owes howes

theorem run_cons (r : Race) (i : Nat) (is : List Nat) : r.run (i :: is) = (r.move i).run is := rfl

theorem kept_run (h : r.Kept host) (is : List Nat) : (r.run is).Kept host := by
  induction is generalizing r with
  | nil => exact h
  | cons i is ih => exact ih (kept_move h i)

theorem ceiling_run (h : r.Kept host) (is : List Nat) :
    (r.run is).ledger.ceiling = r.ledger.ceiling := by
  induction is generalizing r with
  | nil => rfl
  | cons i is ih =>
    refine (ih (kept_move h i)).trans ?_
    rcases move_turn h i with ⟨_, hm⟩ | ⟨c, l, c', _, turn, hm⟩
    · rw [hm]
    · rw [hm]
      exact turn.ceiling

/-- Between two moments an id is opened as often as it is ended, once more if it was not registered
and is, once less if it was and is not. -/
theorem turnings_run (h : r.Kept host) (is : List Nat) (id : ConnId) :
    (r.turnings is).count (.opened id) + (r.ledger.table.contains id).toNat =
      (r.turnings is).count (.ended id) + ((r.run is).ledger.table.contains id).toNat := by
  induction is generalizing r with
  | nil => rfl
  | cons i is ih =>
    have hrest := ih (kept_move h i)
    have hmove : (r.turning? i).toList.count (.opened id) + (r.ledger.table.contains id).toNat =
        (r.turning? i).toList.count (.ended id) + ((r.move i).ledger.table.contains id).toNat := by
      rcases move_turn h i with ⟨hc, hm⟩ | ⟨c, l, c', hc, turn, hm⟩
      · rw [hm]
        simp only [turning?, hc]
        rfl
      · have ht : r.turning? i = c.turning? c' := by
          simp only [turning?, hc, hm, getElem?_replaced hc, ↓reduceIte]
        rw [ht, hm]
        exact turn.turning id
    rw [run_cons, turnings, List.count_append, List.count_append]
    omega

theorem callers_run_of_not_mem {is : List Nat} (hi : i ∉ is) :
    (r.run is).callers[i]? = r.callers[i]? := by
  induction is generalizing r with
  | nil => rfl
  | cons j is ih =>
    refine (ih (List.not_mem_of_not_mem_cons hi)).trans ?_
    exact callers_move_of_ne r (List.ne_of_not_mem_cons hi)

theorem answer?_run (h : r.Kept host) (hc : r.callers[i]? = some c) {x : Answer}
    (hx : c.progress.answer? = some x) (is : List Nat) :
    ∃ c', (r.run is).callers[i]? = some c' ∧ c'.progress.answer? = some x := by
  induction is generalizing r c with
  | nil => exact ⟨c, hc, hx⟩
  | cons j is ih =>
    rw [run_cons]
    by_cases hj : i = j
    · subst hj
      rcases move_turn h i with ⟨hn, _⟩ | ⟨d, l, c', hd, turn, hm⟩
      · rw [hn] at hc
        cases hc
      · rw [hd] at hc
        cases hc
        refine ih (kept_move h i) ?_ (turn.answer?_eq hx)
        rw [hm, getElem?_replaced hd, if_pos rfl]
    · exact ih (kept_move h j) ((callers_move_of_ne r hj).trans hc) hx

/-- A close takes its entry off the table and leaves its bytes in use. -/
theorem close_removes (hc : r.callers[i]? = some ⟨.close id, .waiting⟩)
    (he : r.ledger.entry? id = some e) :
    (r.move i).callers[i]? = some ⟨.close id, .freeing e⟩ ∧
      (r.move i).ledger.entry? id = none ∧ (r.move i).ledger.used = r.ledger.used := by
  have hg : r.ledger.accounts.table.get? id = some e := he
  have hm : r.move i = ⟨{ r.ledger with
      accounts := { r.ledger.accounts with table := r.ledger.accounts.table.erase id } },
      r.callers.setIfInBounds i ⟨.close id, .freeing e⟩⟩ := by
    simp only [move, hc, advance, decide, Accounts.remove?, hg, Option.map_some]
  rw [hm]
  refine ⟨?_, ?_, rfl⟩
  · rw [getElem?_replaced hc, if_pos rfl]
  · exact (Table.get?_erase ..).trans (if_pos rfl)

/-- A close that finds no entry changes nothing. -/
theorem close_absent (hc : r.callers[i]? = some ⟨.close id, .waiting⟩)
    (he : r.ledger.entry? id = none) :
    (r.move i).callers[i]? = some ⟨.close id, .answered .absent⟩ ∧
      (r.move i).ledger = r.ledger := by
  have hg : r.ledger.accounts.table.get? id = none := he
  have hm : r.move i = ⟨r.ledger, r.callers.setIfInBounds i ⟨.close id, .answered .absent⟩⟩ := by
    simp only [move, hc, advance, decide, Accounts.remove?, hg, Option.map_none]
  rw [hm]
  exact ⟨by rw [getElem?_replaced hc, if_pos rfl], rfl⟩

/-- All the bytes of the entry come free, whoever has moved since. -/
theorem close_frees (h : r.Kept host) {call : Call}
    (hc : r.callers[i]? = some ⟨call, .freeing e⟩) :
    (r.move i).ledger.used + e.charged = r.ledger.used ∧
      ∃ c, (r.move i).callers[i]? = some c ∧ c.progress.answer? = some (.freed e.charged) := by
  obtain ⟨m, ho, _⟩ := sum_split hc Caller.owed
  have howes := h.owes
  rw [ho] at howes
  have hn : (r.ledger.accounts.free e.charged).1 = e.charged := howes.free.2
  have hm : r.move i = ⟨{ r.ledger with accounts := (r.ledger.accounts.free e.charged).2 },
      r.callers.setIfInBounds i
        ⟨call, decided (closeTicks e.charged) (.freed e.charged)⟩⟩ := by
    simp only [move, hc, advance, hn]
  have hu := Budget.used_release r.ledger.accounts.budget e.charged
  rw [hm]
  refine ⟨?_, _, by rw [getElem?_replaced hc, if_pos rfl],
    answer?_decided (closeTicks e.charged) (.freed e.charged)⟩
  calc (r.ledger.accounts.free e.charged).2.budget.used + e.charged
      = (r.ledger.accounts.free e.charged).2.budget.used +
          (r.ledger.accounts.free e.charged).1 := by rw [hn]
    _ = r.ledger.used := hu

end Runs

/-- What is in use, at a moment of a race. -/
structure InBalance (r : Race) : Prop where
  once : (r.ledger.table.toList.map Prod.fst).Nodup
  listed : ∀ id e, (id, e) ∈ r.ledger.table.toList ↔ r.ledger.entry? id = some e
  used_eq : r.ledger.used =
    total (r.ledger.table.toList.map fun p => p.2.overhead + p.2.packetBytes) +
      total (r.removed.map fun e => e.overhead + e.packetBytes)
  used_le : r.ledger.used ≤ r.ledger.ceiling
  quiet : r.quiet = true → r.ledger.used =
    total (r.ledger.table.toList.map fun p => p.2.overhead + p.2.packetBytes)

/-- A close that is about to move takes off the table what the id then has, and whenever it moves
again it frees just that, and says so. -/
structure ClosesWhole (r : Race) (i : Nat) (id : ConnId) : Prop where
  absent : r.ledger.entry? id = none →
    (r.move i).callers[i]? = some ⟨.close id, .answered .absent⟩ ∧ (r.move i).ledger = r.ledger
  removed : ∀ e, r.ledger.entry? id = some e →
    (r.move i).ledger.entry? id = none ∧ (r.move i).ledger.used = r.ledger.used ∧
      ∀ is, i ∉ is → ∀ js,
        (((r.move i).run is).move i).ledger.used + (e.overhead + e.packetBytes) =
            ((r.move i).run is).ledger.used ∧
          ∃ c, ((((r.move i).run is).move i).run js).callers[i]? = some c ∧
            c.progress.answer? = some (.freed (e.overhead + e.packetBytes))

section Results

variable {host : HostContext} {r : Race}

theorem total_removed (r : Race) :
    total (r.callers.toList.map Caller.owed) = total (r.removed.map Entry.charged) := by
  unfold removed
  induction r.callers.toList with
  | nil => rfl
  | cons c cs ih =>
    rw [List.map_cons, total, ih, Caller.owed]
    cases hc : c.removed? with
    | none => simp [hc]
    | some e => simp [hc, total]

theorem quiet_iff : r.quiet = true ↔ ∀ c ∈ r.callers.toList, c.inProgress = false := by
  simp only [quiet, Array.all_eq_true', Bool.not_eq_true', Array.mem_toList_iff]

theorem removed_of_quiet (h : r.quiet = true) : r.removed = [] := by
  rw [List.eq_nil_iff_forall_not_mem]
  intro e he
  obtain ⟨c, hc, hr⟩ := List.mem_filterMap.mp he
  have hq := quiet_iff.mp h c hc
  obtain ⟨call, p⟩ := c
  cases p with
  | freeing e => cases hq
  | waiting | counting | answered => cases hr

theorem inBalance (h : r.Kept host) : r.InBalance := by
  have hu : r.ledger.used = total (r.ledger.table.toList.map fun p => p.2.charged) +
      total (r.removed.map Entry.charged) := by
    rw [← total_removed]
    exact h.owes.used_eq
  refine ⟨h.owes.sound.nodup_toList, fun _ _ => h.owes.sound.mem_toList_iff, hu, h.owes.used_le, ?_⟩
  intro hq
  rw [hu, removed_of_quiet hq]
  rfl

theorem closesWhole (h : r.Kept host) {i : Nat} {id : ConnId}
    (hc : r.callers[i]? = some ⟨.close id, .waiting⟩) : r.ClosesWhole i id := by
  refine ⟨close_absent hc, ?_⟩
  intro e he
  obtain ⟨hcaller, hgone, hused⟩ := close_removes hc he
  refine ⟨hgone, hused, ?_⟩
  intro is hi js
  have hk := kept_run (kept_move h i) is
  have hwait := (callers_run_of_not_mem hi).trans hcaller
  obtain ⟨hfree, c, hc, hx⟩ := close_frees hk hwait
  exact ⟨hfree, answer?_run (kept_move hk i) hc hx js⟩

/-- However the steps of any number of hooks come to lie between each other, the bytes in use are
those of the registered connections and of the closes in progress, they fit under the ceiling, a
close frees what it took off the table, and of the connections that want the same id one is
registered at most until the id is closed. -/
theorem racing_calls_balance {limit : Int64} {al al' : Allocator} {s₀ : Service}
    (h : Service.create limit al = .ok (s₀, al')) (ks : List PacketBudget.Call) (host : HostContext)
    (hooks : List PacketBudget.Call) (is : List Nat) :
    let r := (start (s₀.run ks).2.ledger
      (hooks.filterMap (Call.ledgerCall? host.policy))).run is
    r.ledger.ceiling = limit.toInt.toNat ∧ r.InBalance ∧
      (∀ i id, r.callers[i]? = some ⟨.close id, .waiting⟩ → r.ClosesWhole i id) ∧
      ∀ id js,
        (r.turnings js).count (.opened id) + (r.ledger.table.contains id).toNat =
            (r.turnings js).count (.ended id) + ((r.run js).ledger.table.contains id).toNat ∧
          (.ended id ∉ r.turnings js → (r.turnings js).count (.opened id) ≤ 1) := by
  intro r
  have hb := Service.balanced_run (Service.balanced_create h) ks
  have hstart := kept_start hb host hooks
  have hk : r.Kept host := kept_run hstart is
  refine ⟨?_, inBalance hk, fun i id => closesWhole hk, ?_⟩
  · have hc : r.ledger.ceiling = (s₀.run ks).2.ceiling := ceiling_run hstart is
    rw [hc, Service.ceiling_run, Service.ceiling, (Service.create_eq h).2]
    rfl
  · intro id js
    have ht := turnings_run hk js id
    refine ⟨ht, ?_⟩
    intro hn
    rw [List.count_eq_zero_of_not_mem hn] at ht
    have hle := Bool.toNat_le ((r.run js).ledger.table.contains id)
    omega

/-- Before a close has freed its bytes its id is registered again, refused once more and charged. -/
theorem racing_calls_balance_of_reopened_id :
    ∃ s₀ al', ∃ r : Race, Service.create 100 {} = .ok (s₀, al') ∧ r.InBalance ∧
      r.ledger.used = 70 ∧ r.removed = [⟨1, 10, 30, 1, 1⟩] ∧
      r.ledger.entry? ⟨7⟩ = some ⟨2, 10, 20, 1, 1⟩ ∧ (r.move 0).ledger.used = 30 := by
  have h : Service.create 100 {} = .ok (_, _) := rfl
  have hrace := racing_calls_balance h [.init ⟨"host", ⟨10, 0⟩⟩, .connect ⟨7⟩, .charge ⟨7⟩ 30]
    ⟨"host", ⟨10, 0⟩⟩ [.close ⟨7⟩, .connect ⟨7⟩, .connect ⟨7⟩, .receive ⟨7⟩ 20] [0, 1, 2, 3]
  exact ⟨_, _, _, h, hrace.2.1, by decide, by decide, by decide, by decide⟩

end Results

end Ledger.Race

end PacketBudget
