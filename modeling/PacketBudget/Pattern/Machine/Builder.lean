import PacketBudget.Pattern.Expr
import PacketBudget.Pattern.Machine
import Std.Data.HashMap

/-!
Building the machine for an expression, forwards or backwards. States are numbered in the order in
which they are added, and there is no machine that weighs more than a limit. Main statements: no
state is added and no state led on beyond the limit.
-/

namespace PacketBudget.Pattern

/-- How many bytes a machine may be reckoned at. -/
def maxWeight : Nat := 10485760

/-- A machine that is being built. -/
structure Draft where
  states : Array State := #[]
  weight : Nat := 0
  /-- States with several ways that can serve again. A place keeps the last that was put there. -/
  shared : Std.HashMap Nat (List Way × Nat) := {}
  /-- The same for states with one way, in machines that read backwards. -/
  suffixes : Std.HashMap Nat (Way × Nat) := {}

/-- A step of building; none if it would take the draft beyond the limit. -/
abbrev Build (α : Type) := StateT Draft Option α

/-- A part of a machine: where it is entered, and the state that is yet to be led on. -/
structure Fragment where
  start : Nat
  stop : Nat

namespace Build

/-- Adds a state; says its number. -/
def add (s : State) : Build Nat := fun d =>
  let weight := d.weight + s.weight
  if maxWeight < weight then none
  else some (d.states.size, { d with states := d.states.push s, weight })

/-- Leads a state on. -/
def link (i target : Nat) : Build Unit := fun d =>
  let weight := d.weight + if d.states[i]?.any State.isSplit then 4 else 0
  if maxWeight < weight then none
  else some ((), { d with states := d.states.modify i (State.goTo target), weight })

theorem weight_le_of_add {s : State} {d d' : Draft} {i : Nat} (h : add s d = some (i, d')) :
    d'.weight ≤ maxWeight := by
  simp only [add, Option.ite_none_left_eq_some, Option.some.injEq, Prod.mk.injEq] at h
  obtain ⟨h, -, rfl⟩ := h
  simp only; omega

theorem weight_le_of_link {i target : Nat} {d d' : Draft} (h : link i target d = some ((), d')) :
    d'.weight ≤ maxWeight := by
  simp only [link, Option.ite_none_left_eq_some, Option.some.injEq, Prod.mk.injEq] at h
  obtain ⟨h, -, rfl⟩ := h
  simp only; omega

/-- A part that asks for nothing. -/
def passing : Build Fragment := do
  let i ← add (.pass 0)
  pure ⟨i, i⟩

/-! ### Rows, alternatives and repetitions -/

/-- One part behind another. -/
def append (f : Fragment) (g : Build Fragment) : Build Fragment := do
  let g ← g
  link f.stop g.start
  pure ⟨f.start, g.stop⟩

/-- More parts, one after the other. -/
def appendAll (f : Fragment) : List (Build Fragment) → Build Fragment
  | [] => pure f
  | g :: gs => fun d =>
    match append f g d with
    | none => none
    | some (f, d) => appendAll f gs d

/-- Parts one after the other. -/
def row : List (Build Fragment) → Build Fragment
  | [] => passing
  | f :: fs => do appendAll (← f) fs

/-- The same part more times. -/
def more (f : Build Fragment) : Nat → Fragment → Build Fragment
  | 0, a => pure a
  | n + 1, a => fun d =>
    match append a f d with
    | none => none
    | some (a, d) => more f n a d

/-- The same part `n` times. -/
def exactly (f : Build Fragment) : Nat → Build Fragment
  | 0 => passing
  | n + 1 => do more f n (← f)

/-- The same part up to so many times more, behind the state `last`; `out` is behind all of them. -/
def upTo (f : Build Fragment) (out : Nat) : Nat → Nat → Build Nat
  | 0, last => pure last
  | n + 1, last => fun d =>
    let one : Build Nat := do
      let fork ← add (.split [])
      let a ← f
      link last fork
      link fork a.start
      link fork out
      pure a.stop
    match one d with
    | none => none
    | some (last, d) => upTo f out n last d

/-- The same part `least` times or more. A part that always takes a byte can lead back to the fork
before it; any other needs a fork behind it. -/
def atLeast (f : Build Fragment) (alwaysTakes : Bool) : Nat → Build Fragment
  | 0 => do
    if alwaysTakes then
      let fork ← add (.split [])
      let a ← f
      link fork a.start
      link a.stop fork
      pure ⟨fork, fork⟩
    else
      let a ← f
      let again ← add (.split [])
      link a.stop again
      link again a.start
      let fork ← add (.split [])
      let out ← add (.pass 0)
      link fork a.start
      link fork out
      link again out
      pure ⟨fork, out⟩
  | 1 => do
    let a ← f
    let fork ← add (.split [])
    link a.stop fork
    link fork a.start
    pure ⟨a.start, fork⟩
  | n + 2 => do
    let front ← exactly f (n + 1)
    let a ← f
    let fork ← add (.split [])
    link front.stop a.start
    link a.stop fork
    link fork a.start
    pure ⟨front.start, fork⟩

/-- The same part once or not at all. -/
def optional (f : Build Fragment) : Build Fragment := do
  let fork ← add (.split [])
  let a ← f
  let out ← add (.pass 0)
  link fork a.start
  link fork out
  link a.stop out
  pure ⟨fork, out⟩

/-- The same part between `least` and `most` times. -/
def between (f : Build Fragment) (least most : Nat) : Build Fragment := do
  let front ← exactly f least
  let out ← add (.pass 0)
  let last ← upTo f out (most - least) front.stop
  link last out
  pure ⟨front.start, out⟩

def times (f : Build Fragment) (alwaysTakes : Bool) (least : Nat) : Option Nat → Build Fragment
  | none => atLeast f alwaysTakes least
  | some most =>
    if least = 0 ∧ most = 1 then optional f
    else if least = most then exactly f least
    else between f least most

/-- More alternatives of a fork; all end at `out`. -/
def alternatives (fork out : Nat) : List (Build Fragment) → Build Unit
  | [] => pure ()
  | f :: fs => fun d =>
    let one : Build Unit := do
      let a ← f
      link fork a.start
      link a.stop out
    match one d with
    | none => none
    | some ((), d) => alternatives fork out fs d

/-- One alternative or another. -/
def oneOf : List (Build Fragment) → Build Fragment
  | [] => do
    let i ← add (.bytes [])
    pure ⟨i, i⟩
  | [f] => f
  | f :: g :: fs => do
    let a ← f
    let b ← g
    let fork ← add (.split [])
    let out ← add (.pass 0)
    link fork a.start
    link a.stop out
    link fork b.start
    link b.stop out
    alternatives fork out fs
    pure ⟨fork, out⟩

/-! ### Texts as alternatives -/

/-- Texts in the stretches between empty ones. An empty text counts once before all others. -/
def stretches (seen closed : Bool) (open_ : List (List UInt8)) :
    List (List UInt8) → List (List (List UInt8))
  | [] => [open_.reverse]
  | [] :: ts =>
    if !seen && closed then stretches seen closed open_ ts
    else open_.reverse :: stretches seen true [] ts
  | t :: ts => stretches true closed (t :: open_) ts

/-- The first bytes of texts, each with what is behind it in the texts that have it. -/
def heads (ts : List (List UInt8)) : List (UInt8 × List (List UInt8)) :=
  (List.range 256).filterMap fun n =>
    let b := UInt8.ofNat n
    match ts.filterMap fun t => if t.head? = some b then some t.tail else none with
    | [] => none
    | tails => some (b, tails)

/-- The state from which each of some texts leads on to `out`; none is longer than `depth`. Texts
have the states for what they start with in common. -/
def tree (out : Nat) : (depth : Nat) → List (List UInt8) → Build Nat
  | 0, _ => pure out
  | depth + 1, ts => do
    let states ← (stretches false false [] ts).mapM fun stretch => do
      let ways ← (heads stretch).mapM fun (b, tails) => do
        if tails.all (·.isEmpty) then pure (Way.mk ⟨b, b⟩ out)
        else pure (Way.mk ⟨b, b⟩ (← tree out depth tails))
      match ways with
      | [] => pure []
      | [w] => do pure [← add (.byte w)]
      | ws => do pure [← add (.bytes ws)]
    add (.split (List.intercalate [out] states))

/-- One text or another. -/
def oneText (ts : List (List UInt8)) : Build Fragment := do
  let out ← add (.pass 0)
  let start ← tree out (ts.foldl (fun n t => max n t.length) 0 + 1) ts
  pure ⟨start, out⟩

/-! ### Sets -/

/-- A hash value with one more number mixed in. -/
def mix (h : UInt64) (n : Nat) : UInt64 := (h ^^^ UInt64.ofNat n) * 1099511628211

def mixStart : UInt64 := 14695981039346656037

/-- The place at which a state with several ways is kept. -/
def sharedPlace (ways : List Way) : Nat :=
  (ways.foldl (fun h w => mix (mix (mix h w.octets.low.toNat) w.octets.high.toNat) w.target)
    mixStart).toNat % 10000

/-- A state with the given ways, an old one if it is still kept. -/
def share (ways : List Way) : Build Nat := do
  let place := sharedPlace ways
  match (← get).shared[place]? with
  | some (kept, i) => if kept = ways then return i
  | none => pure ()
  let i ← add (.bytes ways)
  modify fun d => { d with shared := d.shared.insert place (ways, i) }
  pure i

/-- The place at which a state with one way is kept. -/
def suffixPlace (w : Way) : Nat :=
  (mix (mix (mix mixStart w.target) w.octets.low.toNat) w.octets.high.toNat).toNat % 1000

/-- A state with the given way, an old one if it is still kept. -/
def shareSuffix (w : Way) : Build Nat := do
  let place := suffixPlace w
  match (← get).suffixes[place]? with
  | some (kept, i) => if kept = w then return i
  | none => pure ()
  let i ← add (.byte w)
  modify fun d => { d with suffixes := d.suffixes.insert place (w, i) }
  pure i

/-- A state whose last way is still without a target. -/
structure Pending where
  ways : List Way := []
  last : Option Octets

/-- The ways of a pending state, when the last one gets its target. -/
def Pending.settled (p : Pending) (target : Nat) : List Way :=
  p.ways ++ (p.last.map fun o => ⟨o, target⟩).toList

/-- Settles pending states that follow each other, and says where the one before them goes. -/
def settle (out : Nat) : List Pending → Build Nat
  | [] => pure out
  | p :: ps => do share (p.settled (← settle out ps))

/-- Takes up one more sequence of bytes, which comes behind all earlier ones. The pending states are
those of the last sequence, of which the new one may share a front part. -/
def takeUp (out : Nat) (pending : List Pending) (s : List Octets) : Build (List Pending) := do
  let n := ((s.zip pending).takeWhile fun (o, p) => p.last = some o).length
  match pending.drop n with
  | [] => pure pending
  | p :: ps =>
    let ways := p.settled (← settle out ps)
    pure (pending.take n ++ ⟨ways, s[n]?⟩ :: (s.drop (n + 1)).map fun o => ⟨[], some o⟩)

/-- All sequences of bytes of a set. -/
def sequencesOf (s : Charset) : List (List Octets) :=
  s.ranges.flatMap fun r => Octets.sequences r.1 r.2

/-- A character of a set, read forwards: sequences share what comes last in them. -/
def forwardSet (s : Charset) : Build Fragment := do
  let out ← add (.pass 0)
  modify fun d => { d with shared := {} }
  let pending ← (sequencesOf s).foldlM (takeUp out) [⟨[], none⟩]
  let target ← settle out pending.tail
  let start ← share ((pending.head?.map (·.settled target)).getD [])
  pure ⟨start, out⟩

/-- A character of a set, read backwards: sequences share what comes first in them. -/
def backwardSet (s : Charset) : Build Fragment := do
  modify fun d => { d with suffixes := {} }
  let fork ← add (.split [])
  let out ← add (.pass 0)
  (sequencesOf s).forM fun os => do
    let start ← os.foldlM (fun target o => shareSuffix ⟨o, target⟩) out
    link fork start
  pure ⟨fork, out⟩

/-- A byte of one of some ranges. -/
def byteOf (rs : List Octets) : Build Fragment := do
  let out ← add (.pass 0)
  let start ← add (.bytes (rs.map fun o => ⟨o, out⟩))
  pure ⟨start, out⟩

def charOf (back : Bool) (s : Charset) : Build Fragment :=
  if s.isAscii then byteOf (s.ranges.map fun r => ⟨UInt8.ofNat r.1, UInt8.ofNat r.2⟩)
  else if back then backwardSet s
  else forwardSet s

end Build

namespace Expr

/-- The bytes of a text. -/
def literal? : Expr → Option (List UInt8)
  | literal bs => some bs
  | _ => none

/-- In the order in which it is read. -/
def inOrder (back : Bool) (xs : List α) : List α := if back then xs.reverse else xs

mutual

/-- The part of a machine for an expression. What is remembered of a text takes states of its own in
machines that read forwards. -/
def build (back : Bool) : Expr → Build Fragment
  | empty => Build.passing
  | literal bs =>
    Build.row ((inOrder back bs).map fun b => do
      let i ← Build.add (.byte ⟨⟨b, b⟩, 0⟩)
      pure ⟨i, i⟩)
  | set s => Build.charOf back s
  | look l => do
    let i ← Build.add (.look l 0)
    pure ⟨i, i⟩
  | times e least most _ =>
    Build.times (e.build back) (e.facts.shortest.any (0 < ·)) least most
  | group e =>
    if back then e.build back
    else do
      let start ← Build.add (.pass 0)
      let a ← e.build back
      let stop ← Build.add (.pass 0)
      Build.link start a.start
      Build.link a.stop stop
      pure ⟨start, stop⟩
  | row es => Build.row (inOrder (!back) (buildAll back [] es))
  | choice es =>
    match es.mapM literal? with
    | some ts => Build.oneText (ts.map (inOrder back))
    | none => Build.oneOf (buildAll back [] es).reverse

/-- The parts for some expressions, the last one first, before those that are there. -/
def buildAll (back : Bool) (built : List (Build Fragment)) : List Expr → List (Build Fragment)
  | [] => built
  | e :: es => buildAll back (e.build back :: built) es

end

/-- The machine that finds an expression anywhere in a text; none if it weighs too much. In front of
the expression it passes over bytes, if the expression is not bound to that end of the text. -/
def machine? (back : Bool) (e : Expr) : Option Machine :=
  let bound := if back then e.facts.atStop else e.facts.atStart
  let whole : Build Nat := do
    let front ←
      if bound then Build.passing else Build.atLeast (Build.byteOf [⟨0, 255⟩]) true 0
    let a ← (group e).build back
    let stop ← Build.add .stop
    Build.link a.stop stop
    Build.link front.stop a.start
    pure a.start
  (whole {}).map fun (start, d) => ⟨d.states, start, d.weight⟩

end Expr

end PacketBudget.Pattern
