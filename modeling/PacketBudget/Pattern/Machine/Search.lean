import PacketBudget.Pattern.Machine
import Std.Data.HashMap

/-!
Searching a text with a machine. Where the machine stands between two characters is known by the
states that the last character led to, and by what kind of character it was; what the next character
makes of such a standing is remembered, for texts come back to the same standings. Main statement:
a machine that starts at a stop is found in every text.
-/

namespace PacketBudget.Pattern

namespace Machine

/-- Goes on from states without a byte, to the states that wait for one. `marks` tells of each
state at which turn it was last gone through. Says whether a stop is among them. -/
def spread (states : Array State) (holds : Look → Bool) (turn : Nat) :
    (fuel : Nat) → List Nat → (marks : Array Nat) → (waiting : Array Nat) →
    Bool × Array Nat × Array Nat
  | 0, _, marks, waiting => (false, waiting, marks)
  | _, [], marks, waiting => (false, waiting, marks)
  | fuel + 1, i :: is, marks, waiting =>
    if marks[i]? = some turn then spread states holds turn fuel is marks waiting
    else
      let marks := marks.setIfInBounds i turn
      match states[i]? with
      | some (.pass target) => spread states holds turn fuel (target :: is) marks waiting
      | some (.look l target) =>
        spread states holds turn fuel (if holds l then target :: is else is) marks waiting
      | some (.split targets) => spread states holds turn fuel (targets ++ is) marks waiting
      | some .stop => (true, waiting, marks)
      | some _ => spread states holds turn fuel is marks (waiting.push i)
      | none => spread states holds turn fuel is marks waiting

/-- More than the states that can be gone through at a turn that starts with `n` of them: each is
gone through once, and there are no more ways out of them than the weight of the machine. -/
def fuel (m : Machine) (n : Nat) : Nat := n + m.states.size + m.weight + 1

/-- The states that a byte leads to. -/
def targets (m : Machine) (b : UInt8) (waiting : Array Nat) : List Nat :=
  waiting.foldr (fun i ts => ((m.states[i]?.bind (·.on? b)).toList ++ ts)) []

/-- The states that the bytes of a character lead to. No place within a character is one that can
be asked for. -/
def follow (m : Machine) (turn : Nat) (marks waiting : Array Nat) :
    List UInt8 → List Nat × Nat × Array Nat
  | [] => ([], turn, marks)
  | [b] => (m.targets b waiting, turn, marks)
  | b :: bs =>
    let ts := m.targets b waiting
    let (_, waiting, marks) :=
      spread m.states (fun _ => false) (turn + 1) (m.fuel ts.length) ts marks #[]
    m.follow (turn + 1) marks waiting bs

/-- Where a machine stands between two characters. -/
structure Standing where
  states : List Nat := []
  before : Side := .edge
  deriving DecidableEq, Repr, Hashable

/-- The states that wait for a byte at a standing, if what comes next is of a kind; none if a stop
is reached there. The expression can start at any standing. -/
def gate (m : Machine) (s : Standing) (after : Side) (turn : Nat) (marks : Array Nat) :
    Option (Array Nat) × Array Nat :=
  let starts := m.start :: s.states
  let (found, waiting, marks) :=
    spread m.states (fun l => l.holds ⟨s.before, after⟩) turn (m.fuel starts.length) starts marks #[]
  (if found then none else some waiting, marks)

/-- What is remembered of a search. -/
structure Memory where
  /-- Standings by their number. -/
  standings : Array Standing := #[]
  numbers : Std.HashMap Standing Nat := {}
  gates : Std.HashMap (Nat × Side) (Option (Array Nat)) := {}
  /-- The standing behind the character with a number at a standing. -/
  moves : Std.HashMap (Nat × Nat) Nat := {}
  /-- How many states the standings and their gates have in all. -/
  size : Nat := 0

namespace Memory

/-- How many states may be remembered. -/
def maxSize : Nat := 4000000

/-- The number of a standing, a new one if it is not known. -/
def number (mem : Memory) (s : Standing) : Nat × Memory :=
  match mem.numbers[s]? with
  | some k => (k, mem)
  | none =>
    let k := mem.standings.size
    (k, { mem with
      standings := mem.standings.push s
      numbers := mem.numbers.insert s k
      size := mem.size + s.states.length + 1 })

/-- The standing with a number. -/
def standing (mem : Memory) (k : Nat) : Standing := (mem.standings[k]?).getD {}

def addGate (mem : Memory) (k : Nat) (after : Side) (g : Option (Array Nat)) : Memory :=
  { mem with
    gates := mem.gates.insert (k, after) g
    size := mem.size + g.elim 0 Array.size + 1 }

/-- The number of the standing `s` behind the character `c` at standing `k`. What is remembered is
given up when it has grown too large. -/
def addMove (mem : Memory) (k : Nat) (c : Char) (s : Standing) : Nat × Memory :=
  if maxSize < mem.size then number {} s
  else
    let (k', mem) := mem.number s
    (k', { mem with moves := mem.moves.insert (k, c.toNat) k' })

end Memory

/-- Goes on with a search at the standing with number `k`. -/
def searchFrom (m : Machine) (k : Nat) (mem : Memory) (turn : Nat) (marks : Array Nat) :
    List Char → Bool
  | [] => (m.gate (mem.standing k) .edge (turn + 1) marks).1.isNone
  | c :: cs =>
    match mem.moves[(k, c.toNat)]? with
    | some k => m.searchFrom k mem turn marks cs
    | none =>
      let after := Side.ofChar c
      let (g, mem, turn, marks) :=
        match mem.gates[(k, after)]? with
        | some g => (g, mem, turn, marks)
        | none =>
          let (g, marks) := m.gate (mem.standing k) after (turn + 1) marks
          (g, mem.addGate k after g, turn + 1, marks)
      match g with
      | none => true
      | some waiting =>
        let (states, turn, marks) := m.follow turn marks waiting (String.utf8EncodeChar c)
        let (k, mem) := mem.addMove k c ⟨states, after⟩
        m.searchFrom k mem turn marks cs

/-- Whether a stretch of a text is what the machine looks for. -/
def foundIn (m : Machine) (text : String) : Bool :=
  let (k, mem) := Memory.number {} {}
  m.searchFrom k mem 0 (Array.replicate m.states.size 0) text.toList

theorem gate_of_stop {m : Machine} (h : m.states[m.start]? = some .stop) {s : Standing}
    {after : Side} {turn : Nat} {marks : Array Nat} (hm : marks[m.start]? ≠ some turn) :
    (m.gate s after turn marks).1 = none := by
  simp [gate, fuel, spread, hm, h]

theorem foundIn_of_stop {m : Machine} (h : m.states[m.start]? = some .stop) (text : String) :
    m.foundIn text = true := by
  have hm : (Array.replicate m.states.size 0)[m.start]? ≠ some (0 + 1) := by
    simp [Array.getElem?_replicate]
  have hn : ({} : Memory).numbers[({} : Standing)]? = none := Std.HashMap.getElem?_empty
  have hv : ∀ x : Nat × Nat, ({} : Memory).moves[x]? = none := fun _ => Std.HashMap.getElem?_empty
  have hg : ∀ x : Nat × Side, ({} : Memory).gates[x]? = none := fun _ => Std.HashMap.getElem?_empty
  unfold foundIn
  cases text.toList with
  | nil => simp [searchFrom, gate_of_stop h hm]
  | cons c cs =>
    simp only [Memory.number, hn, searchFrom]
    split
    · rename_i hk; rw [hv] at hk; cases hk
    · rw [hg]
      simp only [gate_of_stop h hm]

end Machine

end PacketBudget.Pattern
