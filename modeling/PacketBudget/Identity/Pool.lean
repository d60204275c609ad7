import PacketBudget.Service

/-!
Allocators of identities, numbered in order of creation. A copy of an allocator shares its counter.
Main statements: a new allocator starts at its first identity, and a copy has the counter of what
it was copied from.
-/

namespace PacketBudget

/-- Allocators numbered in order of creation, each a handle on one of the counters. -/
structure AllocatorPool where
  counters : Array Allocator := #[]
  handles : Array Nat := #[]
  deriving Repr

namespace AllocatorPool

/-- A new allocator with a counter of its own; its number comes first. -/
def create (p : AllocatorPool) (first : Int64) : Nat × AllocatorPool :=
  (p.handles.size, ⟨p.counters.push ⟨first⟩, p.handles.push p.counters.size⟩)

/-- A copy of allocator `k`, on the same counter. -/
def clone? (p : AllocatorPool) (k : Nat) : Option (Nat × AllocatorPool) :=
  p.handles[k]?.map fun c => (p.handles.size, { p with handles := p.handles.push c })

/-- The counter behind allocator `k`. -/
def get? (p : AllocatorPool) (k : Nat) : Option Allocator :=
  p.handles[k]?.bind fun c => p.counters[c]?

/-- The pool with another state of the counter behind allocator `k`. -/
def put (p : AllocatorPool) (k : Nat) (a : Allocator) : AllocatorPool :=
  match p.handles[k]? with
  | some c => { p with counters := p.counters.setIfInBounds c a }
  | none => p

/-- A fresh identity from allocator `k`. -/
def assign? (p : AllocatorPool) (k : Nat) : Option (Identity × AllocatorPool) :=
  (p.get? k).map fun a => (a.assign.1, p.put k a.assign.2)

/-- A service constructed with an identity from allocator `k`; a rejected one takes none. -/
def construct? (p : AllocatorPool) (k : Nat) (limit : Int64) :
    Option (Except Fault Service × AllocatorPool) :=
  (p.get? k).map fun a =>
    match Service.create limit a with
    | .ok (s, a) => (.ok s, p.put k a)
    | .error f => (.error f, p)

inductive Call
  | create (first : Int64)
  | clone (k : Nat)
  | assign (k : Nat)
  | construct (k : Nat) (limit : Int64)
  deriving DecidableEq, Repr

/-- What a call answers; `unknown` if there is no allocator of that number. -/
inductive Answer
  | created (k : Nat)
  | assigned (id : Identity)
  | constructed (s : Service)
  | rejected (f : Fault)
  | unknown

def step (p : AllocatorPool) : Call → Answer × AllocatorPool
  | .create first =>
    let (k, p) := p.create first
    (.created k, p)
  | .clone k =>
    match p.clone? k with
    | some (k, p) => (.created k, p)
    | none => (.unknown, p)
  | .assign k =>
    match p.assign? k with
    | some (i, p) => (.assigned i, p)
    | none => (.unknown, p)
  | .construct k limit =>
    match p.construct? k limit with
    | some (.ok s, p) => (.constructed s, p)
    | some (.error f, p) => (.rejected f, p)
    | none => (.unknown, p)

/-- The calls in order, with their answers. -/
def run (p : AllocatorPool) : List Call → List Answer × AllocatorPool
  | [] => ([], p)
  | c :: cs =>
    let (a, p) := p.step c
    let (as, p) := p.run cs
    (a :: as, p)

theorem get?_create (p : AllocatorPool) (first : Int64) :
    (p.create first).2.get? p.handles.size = some ⟨first⟩ := by
  simp [create, get?]

/-- A copy is another handle on the same counter. -/
theorem get?_clone {p q : AllocatorPool} {j k : Nat} (h : p.clone? k = some (j, q)) :
    q.get? j = p.get? k := by
  simp only [clone?, Option.map_eq_some_iff, Prod.mk.injEq] at h
  obtain ⟨c, hc, rfl, rfl⟩ := h
  simp [get?, hc]

end AllocatorPool

end PacketBudget
