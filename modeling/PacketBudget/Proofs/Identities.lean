import PacketBudget.Identity.Pool
import PacketBudget.Proofs.FirstHost

/-!
Allocators and their copies number the services in order. Each allocator has an origin, the created
one that it is or comes from by copying. The identities handed out of one origin are its first one,
the one after it and so on, through whichever copy they are asked for and whatever is asked of other
origins in between.
-/

namespace PacketBudget

namespace Service

theorem create_of_neg {limit : Int64} (neg : limit < 0) (a : Allocator) :
    create limit a =
      .error (.invalidConfiguration s!"packet memory limit must be >= 0, got {limit.toInt}") :=
  if_pos neg

theorem create_of_nonneg {limit : Int64} (nonneg : 0 ≤ limit) (a : Allocator) :
    ∃ s, create limit a = .ok (s, a.assign.2) ∧ s.identity = a.assign.1 ∧
      s.ceiling = limit.toInt.toNat :=
  ⟨_, if_neg (Int64.not_lt.mpr nonneg), rfl, rfl⟩

theorem identity_run (s : Service) (ks : List Call) : (s.run ks).2.identity = s.identity :=
  run_keeps (P := fun t => t.identity = s.identity)
    (fun t k h => (identity_step t k).trans h) rfl ks

end Service

namespace AllocatorPool

/-- The created allocator that others are copies of, at first hand or further on: its number and its
first identity. -/
structure Origin where
  root : Nat
  first : Int64
  deriving DecidableEq, Repr

/-- The identity after `n` others; after the largest number comes the smallest. -/
def Origin.identity (o : Origin) (n : Nat) : Identity := ⟨Int64.ofInt (o.first.toInt + n)⟩

/-- The origins of the allocators, by number, after one more call. -/
def descend (os : List Origin) : Call → List Origin
  | .create first => os ++ [⟨os.length, first⟩]
  | .clone k => os ++ os[k]?.toList
  | .assign _ | .construct .. => os

def origins (cs : List Call) : List Origin := cs.foldl descend []

/-- The allocator that is called. -/
def Call.allocator? : Call → Option Nat
  | .create _ => none
  | .clone k | .assign k | .construct k _ => some k

/-- Whether the call is to take an identity. -/
def Call.takes : Call → Bool
  | .create _ | .clone _ => false
  | .assign _ => true
  | .construct _ limit => 0 ≤ limit

def Call.origin? (os : List Origin) (c : Call) : Option Origin := c.allocator?.bind (os[·]?)

def Answer.identity? : Answer → Option Identity
  | .assigned i => some i
  | .constructed s => some s.identity
  | .created _ | .rejected _ | .unknown => none

/-- A call, the origin of the allocator that was called, and the answer. -/
structure Event where
  call : Call
  origin : Option Origin
  answer : Answer

/-- The calls of a run as events. -/
def history (os : List Origin) (p : AllocatorPool) : List Call → List Event
  | [] => []
  | c :: cs => ⟨c, c.origin? os, (p.step c).1⟩ :: history (descend os c) (p.step c).2 cs

def Event.requests (o : Origin) (e : Event) : Bool := e.origin = some o && e.call.takes

/-- How many identities were to be taken from an origin. -/
def requests (o : Origin) (es : List Event) : Nat := es.countP (·.requests o)

def Event.issued? (o : Origin) (e : Event) : Option Identity :=
  if e.origin = some o then e.answer.identity? else none

/-- The identities handed out of an origin, in order. -/
def issued (o : Origin) (es : List Event) : List Identity := es.filterMap (·.issued? o)

variable {p : AllocatorPool} {os : List Origin} {es : List Event}
  {o : Origin} {c : Call} {k n : Nat}

theorem answer_history (os : List Origin) (p : AllocatorPool) (cs : List Call) :
    (history os p cs).map Event.answer = (p.run cs).1 := by
  induction cs generalizing os p with
  | nil => rfl
  | cons c cs ih => exact congrArg (_ :: ·) (ih _ _)

namespace Origin

theorem identity_zero (o : Origin) : o.identity 0 = ⟨o.first⟩ := by simp [identity]

theorem identity_succ (o : Origin) (n : Nat) :
    o.identity (n + 1) = ⟨(o.identity n).val + 1⟩ := by
  simp only [identity, Int.natCast_add, ← Int.add_assoc, Int64.ofInt_add]
  rfl

/-- Identities come back after all numbers were handed out, not before. -/
theorem identity_ne {j k : Nat} (lt : j < k) (near : k - j < Int64.size) (o : Origin) :
    o.identity j ≠ o.identity k := by
  intro he
  have hmod : (o.first.toInt + j).bmod Int64.size = (o.first.toInt + k).bmod Int64.size := by
    simpa only [identity, Identity.mk.injEq, ← Int64.toInt_inj, Int64.toInt_ofInt] using he
  have hmod' := congrArg (· % (Int64.size : Int)) hmod
  simp only [Int.bmod_emod, Int64.size] at hmod' near
  omega

end Origin

theorem put_handles (p : AllocatorPool) (k : Nat) (a : Allocator) :
    (p.put k a).handles = p.handles := by
  unfold put
  split <;> rfl

/-- The counter behind an allocator changes for all that share it, and for no other. -/
theorem get?_put {b : Allocator} (hb : p.get? k = some b) (j : Nat) (a : Allocator) :
    (p.put k a).get? j = if p.handles[j]? = p.handles[k]? then some a else p.get? j := by
  obtain ⟨h, hk, hc⟩ := Option.bind_eq_some_iff.mp hb
  obtain ⟨bound, -⟩ := Array.getElem?_eq_some_iff.mp hc
  simp only [put, get?, hk]
  cases hj : p.handles[j]? with
  | none => rfl
  | some h' =>
    by_cases heq : h = h'
    · subst heq
      simp [bound]
    · simp [heq, Ne.symm heq]

/-- All that a call can do. -/
inductive Stepped (p : AllocatorPool) : Call → Answer × AllocatorPool → Prop
  | create (first : Int64) :
    Stepped p (.create first) (.created p.handles.size, (p.create first).2)
  | copy {k h : Nat} (found : p.handles[k]? = some h) :
    Stepped p (.clone k) (.created p.handles.size, { p with handles := p.handles.push h })
  | take {c : Call} {k : Nat} {a : Allocator} {x : Answer} (called : c.allocator? = some k)
    (takes : c.takes) (found : p.get? k = some a) (answer : x.identity? = some a.assign.1) :
    Stepped p c (x, p.put k a.assign.2)
  | reject {k : Nat} {limit : Int64} {a : Allocator} (found : p.get? k = some a)
    (neg : limit < 0) :
    Stepped p (.construct k limit)
      (.rejected (.invalidConfiguration
        s!"packet memory limit must be >= 0, got {limit.toInt}"), p)
  | unknown {c : Call} {k : Nat} (called : c.allocator? = some k) (absent : p.get? k = none) :
    Stepped p c (.unknown, p)

theorem step_stepped (p : AllocatorPool) (c : Call) : Stepped p c (p.step c) := by
  cases c with
  | create first => exact .create first
  | clone k =>
    cases hk : p.handles[k]? with
    | none =>
      simp only [step, clone?, hk, Option.map_none]
      exact .unknown rfl (by simp [get?, hk])
    | some h =>
      simp only [step, clone?, hk, Option.map_some]
      exact .copy hk
  | assign k =>
    cases hg : p.get? k with
    | none =>
      simp only [step, assign?, hg, Option.map_none]
      exact .unknown rfl hg
    | some a =>
      simp only [step, assign?, hg, Option.map_some]
      exact .take rfl rfl hg rfl
  | construct k limit =>
    cases hg : p.get? k with
    | none =>
      simp only [step, construct?, hg, Option.map_none]
      exact .unknown rfl hg
    | some a =>
      rcases Int64.lt_or_le limit 0 with neg | nonneg
      · simp only [step, construct?, hg, Option.map_some, Service.create_of_neg neg]
        exact .reject hg neg
      · obtain ⟨s, hs, hi, -⟩ := Service.create_of_nonneg nonneg a
        simp only [step, construct?, hg, Option.map_some, hs]
        exact .take rfl (by simpa [Call.takes] using nonneg) hg (congrArg some hi)

theorem descend_of_takes (takes : c.takes) : descend os c = os := by
  cases c with
  | create | clone => cases takes
  | assign | construct => rfl

theorem descend_of_absent (called : c.allocator? = some k) (absent : os[k]? = none) :
    descend os c = os := by
  cases c with
  | create => cases called
  | clone =>
    cases called
    rw [descend, absent]
    exact List.append_nil os
  | assign | construct => rfl

/-- The allocators of one origin have one counter, which is as far as identities of that origin were
taken, and no other allocator has it. -/
structure Agrees (os : List Origin) (es : List Event) (p : AllocatorPool) : Prop where
  size : p.handles.size = os.length
  rooted : ∀ {k : Nat} {o : Origin}, os[k]? = some o → os[o.root]? = some o
  shared : ∀ {j k : Nat} {o o' : Origin}, os[j]? = some o → os[k]? = some o' →
    (p.handles[j]? = p.handles[k]? ↔ o = o')
  counter : ∀ {k : Nat} {o : Origin}, os[k]? = some o →
    p.get? k = some ⟨(o.identity (requests o es)).val⟩
  known : ∀ e ∈ es, ∀ o, e.origin = some o → o ∈ os
  sourced : ∀ e ∈ es, e.answer.identity?.isSome → e.origin.isSome
  taken : ∀ o, issued o es = (List.range (requests o es)).map o.identity

theorem requests_concat (o : Origin) (es : List Event) (e : Event) :
    requests o (es ++ [e]) = requests o es + (e.requests o).toNat := by
  simp only [requests, List.countP_append, List.countP_singleton]
  cases e.requests o <;> rfl

theorem issued_concat (o : Origin) (es : List Event) (e : Event) :
    issued o (es ++ [e]) = issued o es ++ (e.issued? o).toList := by
  simp only [issued, List.filterMap_append, List.filterMap_cons, List.filterMap_nil]
  cases e.issued? o <;> rfl

theorem getElem?_append_some {α : Type} {l : List α} {a : α} {j : Nat} (h : l[j]? = some a)
    (l' : List α) : (l ++ l')[j]? = some a := by
  rw [List.getElem?_append_left (List.getElem?_eq_some_iff.mp h).1, h]

namespace Agrees

theorem empty : Agrees [] [] {} where
  size := rfl
  rooted := by simp
  shared := by simp
  counter := by simp
  known := by simp
  sourced := by simp
  taken := by simp [issued, requests]

theorem handle (h : Agrees os es p) (hk : os[k]? = some o) :
    ∃ c, p.handles[k]? = some c ∧ c < p.counters.size := by
  obtain ⟨c, hc, ha⟩ := Option.bind_eq_some_iff.mp (h.counter hk)
  exact ⟨c, hc, (Array.getElem?_eq_some_iff.mp ha).1⟩

theorem absent (h : Agrees os es p) (hk : p.get? k = none) : os[k]? = none := by
  cases ho : os[k]? with
  | none => rfl
  | some o =>
    rw [h.counter ho] at hk
    cases hk

theorem known_concat (h : Agrees os es p) (c : Call) (x : Answer) :
    ∀ e ∈ es ++ [⟨c, c.origin? os, x⟩], ∀ o, e.origin = some o → o ∈ os := by
  refine List.forall_mem_append.mpr ⟨h.known, List.forall_mem_singleton.mpr ?_⟩
  intro o ho
  obtain ⟨k, -, hk⟩ := Option.bind_eq_some_iff.mp ho
  exact List.mem_of_getElem? hk

theorem sourced_concat (h : Agrees os es p) {e : Event}
    (he : e.answer.identity?.isSome → e.origin.isSome) :
    ∀ e' ∈ es ++ [e], e'.answer.identity?.isSome → e'.origin.isSome :=
  List.forall_mem_append.mpr ⟨h.sourced, List.forall_mem_singleton.mpr he⟩

theorem origin_of_get? (h : Agrees os es p) {a : Allocator} (hk : p.get? k = some a) :
    ∃ o, os[k]? = some o := by
  obtain ⟨i, hi, -⟩ := Option.bind_eq_some_iff.mp hk
  obtain ⟨hlt, -⟩ := Array.getElem?_eq_some_iff.mp hi
  rw [h.size] at hlt
  exact ⟨_, List.getElem?_eq_getElem hlt⟩

/-- A call that takes no identity, or goes to no allocator, takes nothing away. -/
theorem skip (h : Agrees os es p) {x : Answer}
    (idle : c.takes = false ∨ c.origin? os = none) (none_given : x.identity? = none) :
    Agrees os (es ++ [⟨c, c.origin? os, x⟩]) p := by
  have hreq : ∀ o, requests o (es ++ [⟨c, c.origin? os, x⟩]) = requests o es := by
    intro o
    rw [requests_concat, Event.requests]
    rcases idle with hi | hi <;> simp [hi]
  refine ⟨h.size, h.rooted, h.shared, ?_, h.known_concat c x, ?_, ?_⟩
  · intro k o hk
    rw [hreq]
    exact h.counter hk
  · apply h.sourced_concat
    simp [none_given]
  · intro o
    rw [issued_concat, hreq, Event.issued?, none_given, ite_self, h.taken]
    exact List.append_nil _

theorem take (h : Agrees os es p) {x : Answer} (called : c.allocator? = some k)
    (takes : c.takes) (ho : os[k]? = some o)
    (answer : x.identity? = some (o.identity (requests o es))) :
    Agrees os (es ++ [⟨c, c.origin? os, x⟩])
      (p.put k ⟨(o.identity (requests o es)).val + 1⟩) := by
  have horigin : c.origin? os = some o := by
    rw [Call.origin?, called]
    exact ho
  have hreq : ∀ o', requests o' (es ++ [⟨c, c.origin? os, x⟩]) =
      requests o' es + if o = o' then 1 else 0 := by
    intro o'
    rw [requests_concat, Event.requests, horigin, takes]
    by_cases hoo : o = o' <;> simp [hoo]
  refine ⟨?_, h.rooted, ?_, ?_, h.known_concat c x, ?_, ?_⟩
  · rw [put_handles]
    exact h.size
  · rw [put_handles]
    exact h.shared
  · intro j o' hj
    rw [get?_put (h.counter ho), hreq]
    by_cases hoo : o = o'
    · subst hoo
      rw [if_pos ((h.shared hj ho).mpr rfl), if_pos rfl, Origin.identity_succ]
    · rw [if_neg fun he => hoo ((h.shared hj ho).mp he).symm, if_neg hoo]
      exact h.counter hj
  · apply h.sourced_concat
    simp [horigin]
  · intro o'
    rw [issued_concat, hreq, h.taken, Event.issued?, horigin, answer]
    by_cases hoo : o = o'
    · subst hoo
      simp [List.range_succ]
    · simp [hoo]

/-- One more allocator, on a counter that the ones of its origin have and no other one does. -/
theorem grow (h : Agrees os es p) {cs : Array Allocator} {i : Nat}
    (rooted : (os ++ [o])[o.root]? = some o)
    (shared : ∀ {j : Nat} {o' : Origin}, os[j]? = some o' → (p.handles[j]? = some i ↔ o' = o))
    (kept : ∀ {j : Nat}, j < p.counters.size → cs[j]? = p.counters[j]?)
    (counter : cs[i]? = some ⟨(o.identity (requests o es)).val⟩) :
    Agrees (os ++ [o]) es ⟨cs, p.handles.push i⟩ := by
  have hold : ∀ {j : Nat} {o' : Origin}, os[j]? = some o' →
      (p.handles.push i)[j]? = p.handles[j]? := by
    intro j o' hj
    obtain ⟨hlt, -⟩ := List.getElem?_eq_some_iff.mp hj
    rw [Array.getElem?_push, if_neg (by have := h.size; omega)]
  have hnew : (p.handles.push i)[os.length]? = some i := by
    rw [← h.size]
    exact Array.getElem?_push_size
  refine ⟨?_, ?_, ?_, ?_, ?_, h.sourced, h.taken⟩
  · rw [Array.size_push, List.length_append, h.size]
    rfl
  · intro j o' hj
    rcases getElem?_snoc hj with hj | ⟨-, rfl⟩
    · exact getElem?_append_some (h.rooted hj) _
    · exact rooted
  · intro j k o₁ o₂ hj hk
    show (p.handles.push i)[j]? = (p.handles.push i)[k]? ↔ o₁ = o₂
    rcases getElem?_snoc hj with hj' | ⟨rfl, rfl⟩ <;>
      rcases getElem?_snoc hk with hk' | ⟨rfl, rfl⟩
    · rw [hold hj', hold hk']
      exact h.shared hj' hk'
    · rw [hold hj', hnew]
      exact shared hj'
    · rw [hnew, hold hk', eq_comm, shared hk', eq_comm]
    · exact iff_of_true rfl rfl
  · intro j o' hj
    rcases getElem?_snoc hj with hj | ⟨rfl, rfl⟩
    · obtain ⟨c, hc, hlt⟩ := h.handle hj
      have hg := h.counter hj
      rw [get?, hc] at hg
      rw [get?, hold hj, hc]
      exact (kept hlt).trans hg
    · rw [get?, hnew]
      exact counter
  · intro e he o' ho'
    exact List.mem_append_left _ (h.known e he o' ho')

theorem create (h : Agrees os es p) (first : Int64) :
    Agrees (os ++ [⟨os.length, first⟩]) es (p.create first).2 := by
  have hfresh : ⟨os.length, first⟩ ∉ os := by
    intro hm
    obtain ⟨j, hj⟩ := List.mem_iff_getElem?.mp hm
    exact Nat.lt_irrefl _ (List.getElem?_eq_some_iff.mp (h.rooted hj)).1
  refine h.grow (by simp) ?_ ?_ ?_
  · intro j o' hj
    obtain ⟨c, hc, hlt⟩ := h.handle hj
    constructor
    · intro he
      rw [hc, Option.some.injEq] at he
      omega
    · rintro rfl
      exact absurd (List.mem_of_getElem? hj) hfresh
  · intro j hj
    rw [Array.getElem?_push, if_neg (by omega)]
  · have hnone : requests ⟨os.length, first⟩ es = 0 := by
      rw [requests, List.countP_eq_zero]
      intro e he hr
      simp only [Event.requests, Bool.and_eq_true, decide_eq_true_eq] at hr
      exact hfresh (h.known e he _ hr.1)
    rw [hnone, Origin.identity_zero]
    exact Array.getElem?_push_size

theorem copy (h : Agrees os es p) {i : Nat} (ho : os[k]? = some o) (hi : p.handles[k]? = some i) :
    Agrees (os ++ [o]) es { p with handles := p.handles.push i } := by
  refine h.grow (getElem?_append_some (h.rooted ho) _) ?_ (fun _ => rfl) ?_
  · intro j o' hj
    rw [← hi]
    exact h.shared hj ho
  · have hg := h.counter ho
    rwa [get?, hi] at hg

theorem step (h : Agrees os es p) (c : Call) :
    Agrees (descend os c) (es ++ [⟨c, c.origin? os, (p.step c).1⟩]) (p.step c).2 := by
  have hs := step_stepped p c
  generalize p.step c = r at hs ⊢
  cases hs with
  | create first => exact (h.skip (.inl rfl) rfl).create first
  | @copy k i hi =>
    obtain ⟨hk, -⟩ := Array.getElem?_eq_some_iff.mp hi
    rw [h.size] at hk
    have ho : os[k]? = some os[k] := List.getElem?_eq_getElem hk
    rw [descend, ho]
    exact (h.skip (.inl rfl) rfl).copy ho hi
  | @take c k a x called takes found answer =>
    obtain ⟨o, ho⟩ := h.origin_of_get? found
    rw [h.counter ho] at found
    cases found
    rw [descend_of_takes takes]
    exact h.take called takes ho answer
  | reject found neg =>
    exact h.skip (.inl (decide_eq_false (Int64.not_le.mpr neg))) rfl
  | unknown called absent =>
    rw [descend_of_absent called (h.absent absent)]
    exact h.skip (.inr (by rw [Call.origin?, called]; exact h.absent absent)) rfl

theorem run (h : Agrees os es p) (cs : List Call) :
    Agrees (cs.foldl descend os) (es ++ history os p cs) (p.run cs).2 := by
  induction cs generalizing os es p with
  | nil => simpa [history, AllocatorPool.run] using h
  | cons c cs ih =>
    have hrest := ih (h.step c)
    rwa [List.append_assoc] at hrest

end Agrees

/-- What allocators of the origins `os` have handed out in the events `es`, and what is next. -/
structure CountsUp (os : List Origin) (es : List Event) (p : AllocatorPool) : Prop where
  /-- The calls that are to take an identity of an origin take its first one and those after it. -/
  taken : ∀ o, issued o es = (List.range (requests o es)).map o.identity
  distinct : ∀ {o : Origin} {j k : Nat} {i : Identity}, j < k → k - j < Int64.size →
    (issued o es)[j]? = some i → (issued o es)[k]? ≠ some i
  sourced : ∀ e ∈ es, e.answer.identity?.isSome → ∃ o ∈ os, e.origin = some o
  created : ∀ first, (p.step (.create first)).1 = .created os.length
  copied : ∀ {k : Nat}, k < os.length → (p.step (.clone k)).1 = .created os.length
  assigned : ∀ {k : Nat} {o : Origin}, os[k]? = some o →
    (p.step (.assign k)).1 = .assigned (o.identity (issued o es).length)
  /-- Whatever is called on a service, it has the identity that it was constructed with. -/
  constructed : ∀ {k : Nat} {o : Origin} {limit : Int64}, os[k]? = some o → 0 ≤ limit →
    ∃ s, (p.step (.construct k limit)).1 = .constructed s ∧ s.ceiling = limit.toInt.toNat ∧
      ∀ ks, (s.run ks).2.identity = o.identity (issued o es).length
  rejected : ∀ {k : Nat} {limit : Int64}, k < os.length → limit < 0 →
    p.step (.construct k limit) = (.rejected (.invalidConfiguration
      s!"packet memory limit must be >= 0, got {limit.toInt}"), p)
  /-- Only a call that takes an identity of an allocator's origin changes what is next there. -/
  apart : ∀ {k : Nat} {o : Origin} {c : Call}, os[k]? = some o →
    ¬(c.takes ∧ c.origin? os = some o) → (p.step c).2.get? k = p.get? k

theorem getElem?_descend (hk : os[k]? = some o) (c : Call) : (descend os c)[k]? = some o := by
  cases c with
  | create | clone => exact getElem?_append_some hk _
  | assign | construct => exact hk

namespace Agrees

theorem length_issued (h : Agrees os es p) (o : Origin) :
    (issued o es).length = requests o es := by
  rw [h.taken, List.length_map, List.length_range]

theorem getElem?_issued (h : Agrees os es p) {i : Identity}
    (hi : (issued o es)[n]? = some i) : i = o.identity n := by
  rw [h.taken, List.getElem?_map, Option.map_eq_some_iff] at hi
  obtain ⟨m, hm, rfl⟩ := hi
  rw [List.getElem?_range (by simpa using (List.getElem?_eq_some_iff.mp hm).1)] at hm
  cases hm
  rfl

/-- What is next of an origin is told by the answers so far. -/
theorem next (h : Agrees os es p) (hk : os[k]? = some o) :
    p.get? k = some ⟨(o.identity (issued o es).length).val⟩ := by
  rw [h.length_issued]
  exact h.counter hk

theorem get?_step (h : Agrees os es p) (hk : os[k]? = some o)
    (other : ¬(c.takes ∧ c.origin? os = some o)) : (p.step c).2.get? k = p.get? k := by
  have hreq : requests o (es ++ [⟨c, c.origin? os, (p.step c).1⟩]) = requests o es := by
    rw [requests_concat]
    simpa [Event.requests, and_comm] using other
  -- The counter is read off the agreement before the call and after it: no request has come in.
  rw [h.counter hk, ← hreq]
  exact (h.step c).counter (getElem?_descend hk c)

theorem countsUp (h : Agrees os es p) : CountsUp os es p where
  taken := h.taken
  distinct lt near hj hk :=
    Origin.identity_ne lt near _ ((h.getElem?_issued hj).symm.trans (h.getElem?_issued hk))
  sourced e he hi := by
    obtain ⟨o, ho⟩ := Option.isSome_iff_exists.mp (h.sourced e he hi)
    exact ⟨o, h.known e he o ho, ho⟩
  created first := by
    rw [← h.size]
    rfl
  copied {k} hk := by
    obtain ⟨i, hi, -⟩ := h.handle (List.getElem?_eq_getElem hk)
    simp only [AllocatorPool.step, clone?, hi, Option.map_some, h.size]
  assigned hk := by
    simp only [AllocatorPool.step, assign?, h.next hk, Option.map_some]
    rfl
  constructed {k o limit} hk nonneg := by
    obtain ⟨s, hs, hi, hc⟩ := Service.create_of_nonneg nonneg
      ⟨(o.identity (issued o es).length).val⟩
    refine ⟨s, ?_, hc, fun ks => (Service.identity_run s ks).trans hi⟩
    simp only [AllocatorPool.step, construct?, h.next hk, Option.map_some, hs]
  rejected {k limit} hk neg := by
    simp only [AllocatorPool.step, construct?, h.next (List.getElem?_eq_getElem hk),
      Option.map_some, Service.create_of_neg neg]
  apart hk other := h.get?_step hk other

end Agrees

/-- After any calls, whichever allocators and copies of them they are made to and in whatever order,
the identities of each origin count up from its first one, each used once in a full turn of the
counter; a construction with a negative limit takes none, what is taken of one origin leaves the
others as they are, and a service keeps the identity that it has got. -/
theorem allocators_count_up (cs : List Call) :
    (history [] {} cs).map Event.answer = (run {} cs).1 ∧
      CountsUp (origins cs) (history [] {} cs) (run {} cs).2 :=
  ⟨answer_history [] {} cs, (Agrees.empty.run cs).countsUp⟩

/-- Two copies of an allocator that starts at the largest number, with a rejected service and
another allocator of the same first identity in between. -/
example :
    issued ⟨0, Int64.maxValue⟩ (history [] {} [.create Int64.maxValue, .clone 0, .clone 1,
      .construct 1 7, .create Int64.maxValue, .construct 0 (-1), .assign 3, .assign 2,
      .assign 0]) = [⟨Int64.maxValue⟩, ⟨Int64.minValue⟩, ⟨Int64.minValue + 1⟩] := by decide

end AllocatorPool

end PacketBudget
