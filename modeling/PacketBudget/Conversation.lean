import PacketBudget.Frame.Assembly
import PacketBudget.Handler

/-!
The conversation with one client: frame after frame is read, handed to the handler and replied to,
until the input ends, a frame takes too long, or something fails. A packet keeps its lease until
its reply is written.
-/

namespace PacketBudget

/-- What a host allows its clients. -/
structure Limits where
  maxFrame : Nat
  /-- How long the reading of one frame may take, in milliseconds; zero for as long as it takes. -/
  readTimeout : Nat := 0
  deriving DecidableEq, Repr

/-- How a conversation comes to a stop. -/
inductive Ending
  | closed
  | idle
  | failed (e : IoError)
  /-- It waits in the middle of a frame, with time left. -/
  | waiting (a : Frame.Assembly)
  deriving DecidableEq, Repr

/-- Whether the conversation ended well; none if it has not ended. -/
def Ending.result? : Ending → Option (Except IoError Unit)
  | .closed | .idle => some (.ok ())
  | .failed e => some (.error e)
  | .waiting _ => none

structure Conversation where
  input : List Arrival
  sink : Sink
  service : Service
  /-- The time, in milliseconds. -/
  now : Nat := 0
  /-- The packets served, the last one first. -/
  exchanges : List Exchange := []

/-- The time at which a frame begun at `now` is given up. -/
def Limits.deadline (l : Limits) (now : Nat) : Option Nat :=
  if l.readTimeout = 0 then none else some (now + l.readTimeout)

/-- The earlier of two times, none being never. -/
def earlier : Option Nat → Option Nat → Option Nat
  | none, t => t
  | t, none => t
  | some t, some u => some (min t u)

namespace Conversation

/-- The handler's part: the calls are made, the reply is written, and the packet is let go. -/
def serve (h : Handler) (conn : ConnId) (p : Packet) (c : Conversation) :
    Option IoError × Conversation :=
  let s := c.service.note (.packet conn p.payload.length)
  let response := h.respond c.exchanges s conn p.payload
  let (outcomes, after) := s.run response.calls
  let (failure, sink) :=
    match response.reply with
    | none => (none, c.sink)
    | some reply => Frame.write c.sink reply
  (failure, { c with
    sink := sink
    service := after.dropLease p.lease
    exchanges := ⟨p.payload, s, outcomes⟩ :: c.exchanges })

theorem input_serve (h : Handler) (conn : ConnId) (p : Packet) (c : Conversation) :
    (c.serve h conn p).2.input = c.input := rfl

set_option linter.unusedVariables false in
/-- Goes on with a frame of which the part `a` has come in, for as long as `patience` lasts. -/
def goOn (l : Limits) (h : Handler) (conn : ConnId) (patience : Option Nat) (a : Frame.Assembly)
    (c : Conversation) : Ending × Conversation :=
  let due := l.deadline c.now
  match hr : Frame.read conn l.maxFrame (earlier due patience) c.input a c.now c.service with
  | ⟨.closed, rest, now, s⟩ => (.closed, { c with input := rest, now := now, service := s })
  | ⟨.failed e, rest, now, s⟩ => (.failed e, { c with input := rest, now := now, service := s })
  | ⟨.waiting a, rest, now, s⟩ =>
    if due = some now then
      (.idle, { c with input := rest, now := now, service := (a.abandon s).note (.idle conn) })
    else (.waiting a, { c with input := rest, now := now, service := s })
  | ⟨.packet p, rest, now, s⟩ =>
    match hs : serve h conn p { c with input := rest, now := now, service := s } with
    | (some e, served) => (.failed e, served)
    | (none, served) => served.goOn l h conn patience .fresh
termination_by inputWeight c.input
decreasing_by
  have hi : served.input = rest := (congrArg (·.2.input) hs).symm.trans (input_serve ..)
  have hw := @Frame.inputWeight_read conn l.maxFrame (earlier due patience) c.input a c.now
    c.service p (by rw [hr])
  rw [hr] at hw
  rwa [hi]

/-- The whole conversation. One that is still waiting when patience is at its end is given up. -/
def run (l : Limits) (h : Handler) (conn : ConnId) (patience : Option Nat) (c : Conversation) :
    Ending × Conversation :=
  match c.goOn l h conn patience .fresh with
  | (.waiting a, c) => (.waiting a, { c with service := a.abandon c.service })
  | r => r

end Conversation

end PacketBudget
