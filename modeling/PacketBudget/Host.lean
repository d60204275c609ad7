import PacketBudget.Config
import PacketBudget.Conversation

/-!
A host that serves one service to many clients. The sockets it accepts are numbered from one, each
is announced to the service under its number, and each that is admitted gets a task of its own:
the conversation with that client, taken one byte or one arrival at a time, so that any
interleaving of the tasks is a list of moves. Main statement: a move of one task leaves every other
as it is.
-/

namespace PacketBudget

/-- How far the task of an accepted socket has come. -/
inductive TaskState
  /-- The service did not want the connection. -/
  | refused
  | spawned
  | reading (a : Frame.Assembly)
  /-- A packet is there, and the handler has not seen it. -/
  | holding (p : Packet)
  /-- The conversation is over; the service has yet to be told. -/
  | ending (failure : Option IoError)
  | ended
  deriving DecidableEq, Repr

structure Task where
  conn : ConnId
  peer : String
  input : List Arrival
  sink : Sink
  exchanges : List Exchange := []
  state : TaskState := .spawned

structure Host where
  service : Service
  limits : Limits
  handler : Handler
  nextConn : UInt64 := 1
  /-- The task of every socket accepted so far, in order. -/
  tasks : List Task := []

def Config.limits (c : Config) : Limits := ⟨c.maxFrame.toNat, c.readTimeout.toNat⟩

namespace Task

/-- One move of a task. Time is not told here: a delay just passes. -/
def advance (l : Limits) (h : Handler) (s : Service) (t : Task) : Service × Task :=
  match t.state with
  | .refused | .ended => (s, t)
  | .spawned => (s.note (.started t.conn t.peer), { t with state := .reading .fresh })
  | .reading a =>
    match t.input with
    | [] => atEnd a [] s
    | .data [] :: rest => atEnd a rest s
    | .data (b :: bs) :: rest =>
      let t := { t with input := requeue bs rest }
      match a.push t.conn l.maxFrame s b with
      | (.more a, s) => (s, { t with state := .reading a })
      | (.packet p, s) => (s, { t with state := .holding p })
      | (.failed e, s) => (s, { t with state := .ending (some e) })
    | .failure e :: rest => (a.abandon s, { t with input := rest, state := .ending (some e) })
    | .delay _ :: rest => (s, { t with input := rest })
    | .hang :: _ => (s, t)
  | .holding p =>
    let (failure, c) := Conversation.serve h t.conn p
      { input := t.input, sink := t.sink, service := s, exchanges := t.exchanges }
    let state := match failure with
      | some e => .ending (some e)
      | none => .reading .fresh
    (c.service, { t with sink := c.sink, exchanges := c.exchanges, state := state })
  | .ending failure =>
    (((s.note (.ended t.conn t.peer failure)).close t.conn).2, { t with state := .ended })
where
  /-- The input has ended. -/
  atEnd (a : Frame.Assembly) (rest : List Arrival) (s : Service) : Service × Task :=
    let (stop, s) := a.finish s
    let failure := match stop with
      | .failed e => some e
      | _ => none
    (s, { t with input := rest, state := .ending failure })

/-- The frame that is being read has taken too long. -/
def expire (l : Limits) (s : Service) (t : Task) : Service × Task :=
  match t.state with
  | .reading a =>
    if l.readTimeout = 0 then (s, t)
    else ((a.abandon s).note (.idle t.conn), { t with state := .ending none })
  | _ => (s, t)

end Task

namespace Host

/-- A host that has begun to listen. -/
def listen (c : Config) (h : Handler) (s : Service) (address : String) : Host :=
  { service := s.note (.listening s.identity s.name address), limits := c.limits, handler := h }

/-- Accepts a socket. -/
def accept (h : Host) (peer : String) (input : List Arrival) (sink : Sink) : Host :=
  let conn : ConnId := ⟨h.nextConn⟩
  let (s, state) : Service × TaskState :=
    match h.service.connect conn with
    | (.ok (), s) => (s, .spawned)
    | (.error f, s) => (s.note (.turnedAway conn peer f), .refused)
  { h with
    service := s
    nextConn := h.nextConn + 1
    tasks := h.tasks ++ [{ conn, peer, input, sink, state }] }

/-- Has task `i` make a move. -/
def onTask (h : Host) (i : Nat) (f : Service → Task → Service × Task) : Host :=
  match h.tasks[i]? with
  | none => h
  | some t =>
    let (s, t) := f h.service t
    { h with service := s, tasks := h.tasks.set i t }

def advance (h : Host) (i : Nat) : Host := h.onTask i (Task.advance h.limits h.handler)

def expire (h : Host) (i : Nat) : Host := h.onTask i (Task.expire h.limits)

/-- What can happen to a host. -/
inductive Move
  | accept (peer : String) (input : List Arrival) (sink : Sink)
  | advance (task : Nat)
  | expire (task : Nat)

def move (h : Host) : Move → Host
  | .accept peer input sink => h.accept peer input sink
  | .advance i => h.advance i
  | .expire i => h.expire i

def run (h : Host) (ms : List Move) : Host := ms.foldl move h

theorem tasks_onTask_of_ne (h : Host) (f : Service → Task → Service × Task) {i j : Nat}
    (hij : i ≠ j) : (h.onTask j f).tasks[i]? = h.tasks[i]? := by
  unfold onTask
  split
  · rfl
  · simp [List.getElem?_set_ne (Ne.symm hij)]

/-- Every accepted socket takes the next number. -/
theorem nextConn_accept (h : Host) (peer : String) (input : List Arrival) (sink : Sink) :
    (h.accept peer input sink).nextConn = h.nextConn + 1 := rfl

end Host

end PacketBudget
