import PacketBudget.Ledger

/-!
A ledger shared by calls in progress at once. A call decides in one step under the lock of its
shard and makes its ticks afterwards, one by one; a close takes the entry off the table in one step
and frees its bytes in a later one. Between two moves of a call any moves of others may come. Main
statement: a move of one call leaves every other as it is.
-/

namespace PacketBudget.Ledger

namespace Race

/-- How far a call has come. -/
inductive Progress
  | waiting
  /-- A close that has taken the entry off the table and not yet freed its bytes. -/
  | freeing (e : Entry)
  /-- A call that has decided and has ticks to make. -/
  | counting (ticks : List Tick) (a : Answer)
  | answered (a : Answer)
  deriving DecidableEq, Repr

structure Caller where
  call : Call
  progress : Progress := .waiting
  deriving DecidableEq, Repr

/-- The ticks come before the answer. -/
def decided (ticks : List Tick) (a : Answer) : Progress :=
  if ticks = [] then .answered a else .counting ticks a

/-- The decision of a call on the accounts. -/
def decide (a : Accounts) : Call → Accounts × Progress
  | .register id n =>
    match a.register id n with
    | .ok a' => (a', decided (registerTicks n (.ok a')) .registered)
    | .error f => (a, decided (registerTicks n (.error f)) (.rejected f))
  | .charge id n cap =>
    match a.charge id n cap with
    | .ok (c, a') => (a', decided (chargeTicks n (.ok (c, a'))) (.charged c))
    | .error f => (a, decided (chargeTicks n (.error f)) (.rejected f))
  | .refund c => returned (a.refund? c)
  | .release id n => returned (a.release? id n)
  | .close id =>
    match a.remove? id with
    | none => (a, .answered .absent)
    | some (e, a) => (a, .freeing e)
  | .remove id =>
    match a.remove? id with
    | none => (a, .answered (.removed none))
    | some (e, a) => (a, .answered (.removed (some e)))
  | .reserve n =>
    match a.budget.reserve? n with
    | none => (a, .answered (.reserved false))
    | some b => ({ a with budget := b }, .answered (.reserved true))
  | .free n =>
    let (freed, a) := a.free n
    (a, .answered (.freed freed))
where
  /-- Nothing returned makes no ticks. -/
  returned : Option (Nat × Accounts) → Accounts × Progress
    | none => (a, .answered (.freed 0))
    | some (n, a) => (a, decided [.add .bytesReleased n] (.freed n))

/-- One move of a call. -/
def advance (l : Ledger) (c : Caller) : Ledger × Caller :=
  match c.progress with
  | .waiting =>
    let (a, p) := decide l.accounts c.call
    ({ l with accounts := a }, { c with progress := p })
  | .freeing e =>
    let (n, a) := l.accounts.free e.charged
    ({ l with accounts := a }, { c with progress := decided (closeTicks n) (.freed n) })
  | .counting [] a => (l, { c with progress := .answered a })
  | .counting (t :: ts) a => (l.tickAll [t], { c with progress := decided ts a })
  | .answered _ => (l, c)

end Race

/-- A ledger and the calls on it. -/
structure Race where
  ledger : Ledger
  callers : Array Race.Caller
  deriving Repr

namespace Race

def start (l : Ledger) (calls : List Call) : Race :=
  ⟨l, (calls.map fun c => { call := c }).toArray⟩

/-- One move of the call with number `i`. -/
def move (r : Race) (i : Nat) : Race :=
  match r.callers[i]? with
  | none => r
  | some c =>
    let (l, c) := advance r.ledger c
    ⟨l, r.callers.setIfInBounds i c⟩

def run (r : Race) (is : List Nat) : Race := is.foldl move r

/-- A call that has begun and not yet answered. -/
def Caller.inProgress (c : Caller) : Bool :=
  match c.progress with
  | .freeing _ | .counting .. => true
  | _ => false

/-- No call is in progress. -/
def quiet (r : Race) : Bool := r.callers.all fun c => !c.inProgress

/-- The answers there are. -/
def answers (r : Race) : List Answer :=
  r.callers.toList.filterMap fun c =>
    match c.progress with
    | .answered a => some a
    | _ => none

/-- The most moves that any call makes: one to decide, perhaps one to free, and its
ticks. -/
def longest : Nat := 4

/-- All calls run to their end in turns. -/
def finish (r : Race) : Race :=
  r.run (List.replicate longest (List.range r.callers.size)).flatten

theorem callers_move_of_ne (r : Race) {i j : Nat} (h : i ≠ j) :
    (r.move j).callers[i]? = r.callers[i]? := by
  unfold move
  split
  · rfl
  · simp [Array.getElem?_setIfInBounds_ne (Ne.symm h)]

end Race

end PacketBudget.Ledger
