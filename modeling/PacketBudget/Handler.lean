import PacketBudget.Stream
import PacketBudget.Service

/-!
Handlers: what a host does with a packet. A handler may call the service that it works for, and may
reply to the packet.
-/

namespace PacketBudget

/-- The calls a handler makes of the service, and its reply. -/
structure Response where
  calls : List Call := []
  reply : Option Bytes := none
  deriving DecidableEq, Repr

/-- One packet as the handler met it. -/
structure Exchange where
  payload : Bytes
  /-- The service when the handler was called. -/
  seen : Service
  /-- What the handler's calls came to. -/
  outcomes : List Outcome
  deriving Repr

structure Handler where
  /-- Given the packets served before on the connection, the last one first, the state of the
  service, the connection and the payload. -/
  respond : List Exchange → Service → ConnId → Bytes → Response

namespace Handler

/-- A handler that looks at the payload alone and makes no calls. -/
def ofReply (f : Bytes → Option Bytes) : Handler := ⟨fun _ _ _ p => { reply := f p }⟩

/-- A handler that makes some calls and then replies with the payload. -/
def echoAfter (f : ConnId → Bytes → List Call) : Handler :=
  ⟨fun _ _ conn p => ⟨f conn p, some p⟩⟩

def echo : Handler := ofReply some

def silent : Handler := ofReply fun _ => none

/-- Replies with the payload twice over. -/
def double : Handler := ofReply fun p => some (p ++ p)

/-- Echoes payloads of odd length alone. -/
def odd : Handler := ofReply fun p => if p.length % 2 = 1 then some p else none

/-- Closes the connection that it serves. -/
def closing : Handler := echoAfter fun conn _ => [.close conn]

/-- Closes the connection that it serves and registers it again. -/
def reopening : Handler := echoAfter fun conn _ => [.close conn, .connect conn]

/-- Has the payload charged once more. -/
def receiving : Handler := echoAfter fun conn p => [.receive conn p.length]

/-- Releases as many bytes as the payload has. -/
def releasing : Handler := echoAfter fun conn p => [.release conn p.length]

end Handler

end PacketBudget
