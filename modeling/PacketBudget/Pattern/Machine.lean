import PacketBudget.Pattern.Look
import PacketBudget.Pattern.Octets

/-!
Machines that read a text byte by byte. A machine is in several states at once; it has found what it
looks for when one of them is a stop. Main statement: a state that is led on to one more target
weighs more only if it splits.
-/

namespace PacketBudget.Pattern

/-- The step from a state to another by a byte of a range. -/
structure Way where
  octets : Octets
  target : Nat
  deriving DecidableEq, Repr

def Way.takes (w : Way) (b : UInt8) : Bool := w.octets.low ≤ b && b ≤ w.octets.high

inductive State
  /-- Goes on without a byte. -/
  | pass (target : Nat)
  /-- Goes on by a byte. -/
  | byte (way : Way)
  | bytes (ways : List Way)
  /-- Goes on at places of a kind. -/
  | look (kind : Look) (target : Nat)
  /-- Goes on to several states. -/
  | split (targets : List Nat)
  | stop
  deriving Repr

namespace State

/-- How many bytes a state is reckoned at. -/
def weight : State → Nat
  | bytes ways => 32 + 8 * ways.length
  | split targets => 32 + 4 * targets.length
  | _ => 32

/-- The state that goes on to `target`; if it splits, to `target` too. -/
def goTo (target : Nat) : State → State
  | pass _ => pass target
  | byte w => byte { w with target }
  | look l _ => look l target
  | split targets => split (target :: targets)
  | s => s

/-- Where a state goes on to by a byte. -/
def on? (b : UInt8) : State → Option Nat
  | byte w => if w.takes b then some w.target else none
  | bytes ways => (ways.find? (·.takes b)).map (·.target)
  | _ => none

def isSplit : State → Bool
  | split _ => true
  | _ => false

theorem weight_goTo (s : State) (target : Nat) :
    (s.goTo target).weight = s.weight + if s.isSplit then 4 else 0 := by
  cases s <;> simp [goTo, weight, isSplit]
  omega

end State

/-- States by their number. -/
structure Machine where
  states : Array State
  start : Nat
  /-- How many bytes the machine is reckoned at. -/
  weight : Nat
  deriving Repr

end PacketBudget.Pattern
