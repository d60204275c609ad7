import PacketBudget.Budget

/-!
A budget shared by calls in progress at once. A call reads the bytes in use, works out their new
value, and exchanges it for the old one only if that is still the value it has read; if it is not,
or for no reason, the exchange fails and the call has read the value anew. Between two moves of a
call any moves of others may come. Main statement: a move of one call leaves every other as it is.
-/

namespace PacketBudget.Budget

/-- A call on a budget. -/
inductive Request
  | reserve (n : Nat)
  | release (n : Nat)
  deriving DecidableEq, Repr

inductive Reply
  | reserved (fits : Bool)
  | released (n : Nat)
  deriving DecidableEq, Repr

/-- The call by itself, with no other in between. -/
def serve (b : Budget) : Request → Reply × Budget
  | .reserve n =>
    match b.reserve? n with
    | some b => (.reserved true, b)
    | none => (.reserved false, b)
  | .release n =>
    let (freed, b) := b.release n
    (.released freed, b)

namespace Race

/-- How far a call has come. -/
inductive Progress
  | waiting
  /-- It has read the bytes in use and is about to exchange them. -/
  | holding (seen : Nat)
  | answered (r : Reply)
  deriving DecidableEq, Repr

structure Caller where
  request : Request
  progress : Progress := .waiting
  deriving DecidableEq, Repr

/-- What a call makes of the value it has read: it gives up at once if the request cannot fit. -/
def look (ceiling seen : Nat) : Request → Progress
  | .reserve n => if seen + n ≤ ceiling then .holding seen else .answered (.reserved false)
  | .release _ => .holding seen

/-- The new value, and the answer if the exchange succeeds. -/
def exchange (seen : Nat) : Request → Nat × Reply
  | .reserve n => (seen + n, .reserved true)
  | .release n => (seen - n, .released (min seen n))

/-- One move of a call. A `spurious` exchange fails whatever the value is. -/
def advance (b : Budget) (spurious : Bool) (c : Caller) : Budget × Caller :=
  match c.progress with
  | .waiting =>
    if c.request = .release 0 then (b, { c with progress := .answered (.released 0) })
    else (b, { c with progress := look b.ceiling b.used c.request })
  | .holding seen =>
    if b.used = seen ∧ spurious = false then
      let (v, r) := exchange seen c.request
      ({ b with used := v }, { c with progress := .answered r })
    else (b, { c with progress := look b.ceiling b.used c.request })
  | .answered _ => (b, c)

end Race

/-- A budget and the calls on it. -/
structure Race where
  budget : Budget
  callers : Array Race.Caller
  deriving DecidableEq, Repr

namespace Race

/-- Which call moves, and whether its exchange fails for no reason. -/
structure Move where
  caller : Nat
  spurious : Bool := false
  deriving DecidableEq, Repr

def start (b : Budget) (requests : List Request) : Race :=
  ⟨b, (requests.map fun q => { request := q }).toArray⟩

def move (r : Race) (m : Move) : Race :=
  match r.callers[m.caller]? with
  | none => r
  | some c =>
    let (b, c) := advance r.budget m.spurious c
    ⟨b, r.callers.setIfInBounds m.caller c⟩

def run (r : Race) (ms : List Move) : Race := ms.foldl move r

/-- Every call moves once, in turn. -/
def turn (callers : Nat) : List Move := (List.range callers).map fun i => { caller := i }

/-- The calls move in turns, so many times over. -/
def runTurns (r : Race) : Nat → Race
  | 0 => r
  | n + 1 => (r.run (turn r.callers.size)).runTurns n

/-- The answers there are. -/
def replies (r : Race) : List Reply :=
  r.callers.toList.filterMap fun c =>
    match c.progress with
    | .answered a => some a
    | _ => none

/-- All calls run to their end in turns. In each turn after the first the first exchange that is
made succeeds, so that one more turn than there are calls is enough. -/
def finish (r : Race) : Race := r.runTurns (r.callers.size + 1)

theorem callers_move_of_ne (r : Race) (m : Move) {i : Nat} (h : i ≠ m.caller) :
    (r.move m).callers[i]? = r.callers[i]? := by
  unfold move
  split
  · rfl
  · simp [Array.getElem?_setIfInBounds_ne (Ne.symm h)]

theorem ceiling_move (r : Race) (m : Move) : (r.move m).budget.ceiling = r.budget.ceiling := by
  unfold move
  split
  · rfl
  · rename_i c _
    simp only [advance]
    split
    · split <;> rfl
    · split <;> rfl
    · rfl

theorem size_callers_run (r : Race) (ms : List Move) :
    (r.run ms).callers.size = r.callers.size := by
  induction ms generalizing r with
  | nil => rfl
  | cons m ms ih =>
    refine (ih (r.move m)).trans ?_
    unfold move
    split <;> simp

theorem runTurns_eq_run (r : Race) (n : Nat) :
    r.runTurns n = r.run (List.replicate n (turn r.callers.size)).flatten := by
  induction n generalizing r with
  | zero => rfl
  | succ n ih =>
    rw [runTurns, ih, size_callers_run, List.replicate_succ, List.flatten_cons]
    exact List.foldl_append.symm

end Race

end PacketBudget.Budget
