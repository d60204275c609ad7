import PacketBudget.Host

/-!
The far ends of a host's sockets. A client sends bytes, ends its sending, and reads what the host
has written; after each of these the task that serves it runs until it waits for more.
-/

namespace PacketBudget

/-- Whether nothing more will be written to the client. -/
def Task.isOver (t : Task) : Bool := t.state = .ended || t.state = .refused

namespace Host

/-- Lets task `i` run until it is over or waits for input. Each byte takes at most two moves. -/
def settle (h : Host) (i : Nat) : Host :=
  let weight := (h.tasks[i]?.map fun t => inputWeight t.input).getD 0
  (List.range (2 * weight + 4)).foldl (fun h _ => h.advance i) h

/-- The input of task `i`, changed. -/
def onInput (h : Host) (i : Nat) (f : List Arrival → List Arrival) : Host :=
  { h with tasks := h.tasks.modify i fun t => { t with input := f t.input } }

/-- A client connects; it is the last of the tasks. -/
def connect (h : Host) (peer : String) : Host :=
  (h.accept peer [.hang] .unlimited).settle h.tasks.length

/-- The client of task `i` sends bytes. -/
def send (h : Host) (i : Nat) (bytes : Bytes) : Host :=
  (h.onInput i fun as => requeue bytes as).settle i

/-- The client of task `i` sends nothing any more. -/
def endInput (h : Host) (i : Nat) : Host := (h.onInput i fun _ => []).settle i

/-- Waits until task `i` is over, if need be until it gives up reading. -/
def outlast (h : Host) (i : Nat) : Host := (h.expire i).settle i

def isOver (h : Host) (i : Nat) : Bool := (h.tasks[i]?.map Task.isOver).getD true

/-- Takes up to `n` bytes off what the host has written to the client of task `i`. -/
def take (h : Host) (i n : Nat) : Bytes × Host :=
  match h.tasks[i]? with
  | none => ([], h)
  | some t =>
    let out := t.sink.out.toList
    (out.take n, { h with
      tasks := h.tasks.set i { t with sink := { t.sink with out := (out.drop n).toArray } } })

/-- How many bytes wait for the client of task `i`. -/
def ready (h : Host) (i : Nat) : Nat := (h.tasks[i]?.map fun t => t.sink.out.size).getD 0

/-- The client of task `i` sends bytes and reads `n`, or as many as come before the end; says
whether the end came first. -/
def exchange (h : Host) (i : Nat) (bytes : Bytes) (n : Nat) : (Bytes × Bool) × Host :=
  let h := h.send i bytes
  let h := if h.ready i < n then h.outlast i else h
  let (got, h) := h.take i n
  ((got, got.length < n), h)

/-- The client of task `i` reads to the end, after having ended its sending if `shut`. -/
def readToEnd (h : Host) (i : Nat) (shut : Bool) : Bytes × Host :=
  let h := if shut then h.endInput i else h
  let h := if h.isOver i then h else h.outlast i
  h.take i (h.ready i)

end Host

end PacketBudget
