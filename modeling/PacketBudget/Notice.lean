import PacketBudget.Fault
import PacketBudget.Identity
import PacketBudget.Log
import PacketBudget.Policy

/-!
What a service and its host report to the log, kept as data; the level, the target and the wording
of each report are functions of it.
-/

namespace PacketBudget

/-- What was asked for when something was refused. -/
inductive Subject
  | connection
  | packet
  deriving DecidableEq, Repr

inductive Notice
  | constructed (id : Identity) (ceiling : Nat)
  | initialized (id : Identity) (host : HostContext) (ceiling : Nat)
  | initRepeated (id : Identity) (asked current : String)
  | connected (id : Identity) (conn : ConnId)
  /-- With the bytes in use and the ceiling at that moment. -/
  | refused (id : Identity) (conn : ConnId) (what : Subject) (fault : Fault) (used ceiling : Nat)
  | closed (id : Identity) (conn : ConnId) (freed : Nat)
  | closeUnknown (id : Identity) (conn : ConnId)
  | packet (conn : ConnId) (bytes : Nat)
  | idle (conn : ConnId)
  | listening (id : Identity) (name address : String)
  | turnedAway (conn : ConnId) (peer : String) (fault : Fault)
  | started (conn : ConnId) (peer : String)
  /-- A client's conversation is over, with the failure that ended it if there was one. -/
  | ended (conn : ConnId) (peer : String) (failure : Option IoError)
  /-- A report of the program itself. -/
  | program (level : Level) (message : String)
  deriving DecidableEq, Repr

def Subject.name : Subject → String
  | .connection => "connection"
  | .packet => "packet"

namespace Notice

/-- Backpressure is routine, a packet for an unknown connection is suspect, and a host that breaks
the order of calls is in error. -/
def level : Notice → Level
  | initialized .. | listening .. => .info
  | initRepeated .. => .error
  | refused _ _ _ f _ _ =>
    match f with
    | .budgetExhausted .. => .debug
    | .unknownConnection _ => .warn
    | _ => .error
  | closeUnknown .. => .warn
  | packet .. => .trace
  | program l _ => l
  | _ => .debug

def target : Notice → String
  | packet .. | idle _ => "servicenet::net::handler"
  | listening .. | turnedAway .. | started .. | ended .. => "servicenet::net::server"
  | program .. => "servicenet"
  | _ => "servicenet::service"

/-- What stands before a report on a connection of a service. -/
def heading (id : Identity) (conn : ConnId) : String := s!"[srv={id} hd={conn}] "

def message : Notice → String
  | constructed id ceiling => s!"service {id} constructed, packet memory ceiling {ceiling} bytes"
  | initialized id host ceiling =>
    s!"[srv={id}] " ++ host.name ++ s!" initialized: ceiling={ceiling} bytes, " ++
      s!"connection overhead={host.policy.overhead} bytes, " ++
      s!"per-connection packets={host.policy.cap} bytes"
  | initRepeated id asked current =>
    s!"[srv={id}] init({asked}) called again; keeping {current}"
  | connected id conn => heading id conn ++ "connection admitted"
  | refused id conn what fault used ceiling =>
    heading id conn ++ what.name ++ " rejected: " ++ fault.message ++
      if fault.isBudgetExhausted then s!" ({used}/{ceiling} bytes used)" else ""
  | closed id conn freed => heading id conn ++ s!"connection closed, released {freed} bytes"
  | closeUnknown id conn => heading id conn ++ "close for unknown connection"
  | packet conn bytes => s!"[hd={conn}] packet {bytes} bytes"
  | idle conn => s!"[hd={conn}] idle timeout"
  | listening id name address => s!"[srv={id}] {name} listening on {address}"
  | turnedAway conn peer fault =>
    s!"refusing connection {conn} from {peer}: " ++ fault.message
  | started conn peer => s!"[hd={conn}] new connection from {peer}"
  | ended conn peer none => s!"[hd={conn}] connection {peer} closed cleanly"
  | ended conn peer (some e) =>
    if e.kind = .outOfMemory then
      s!"[hd={conn}] closing {peer} under backpressure: " ++ e.message
    else s!"[hd={conn}] connection {peer} ended: " ++ e.message
  | program _ message => message

def line (n : Notice) : LogLine := ⟨n.level, n.target, n.message⟩

end Notice

end PacketBudget
