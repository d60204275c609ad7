import PacketBudget.Frame
import PacketBudget.Service

/-!
Reading a frame off a stream. A frame is assembled byte by byte; once its header is complete its
payload is charged to the service, before anything of it is held, and a frame that does not come to
its end gives the charge back. Main statement: a frame that was read leaves less to be read.
-/

namespace PacketBudget

/-- A payload together with the lease that covers it. -/
structure Packet where
  lease : Lease
  payload : Bytes
  deriving DecidableEq, Repr

/-- The lease of a buffer that is gone. -/
def Service.dropLease (s : Service) (l : Lease) : Service := (s.refund l.charge).2

namespace Frame

/-- The part of a frame that has come in, its last byte first. -/
inductive Assembly
  | header (got : Bytes)
  | payload (lease : Lease) (got : Bytes) (missing : Nat)
  deriving DecidableEq, Repr

/-- What becomes of an assembly with more bytes. -/
inductive Progress
  | more (a : Assembly)
  | packet (p : Packet)
  | failed (e : IoError)
  deriving DecidableEq, Repr

def tooLarge : IoError := ⟨.invalidData, "frame too large"⟩

def truncatedHeader : IoError := ⟨.unexpectedEof, "truncated frame header"⟩

def truncatedPayload : IoError := ⟨.unexpectedEof, "early eof"⟩

namespace Assembly

/-- A frame of which nothing has come in. -/
def fresh : Assembly := .header []

/-- A complete header asks for `n` bytes of payload. -/
def begin (conn : ConnId) (maxFrame n : Nat) (s : Service) : Progress × Service :=
  if maxFrame < n then (.failed tooLarge, s)
  else
    match s.lease conn n with
    | (.error f, s) => (.failed f.toIoError, s)
    | (.ok l, s) => (if n = 0 then .packet ⟨l, []⟩ else .more (.payload l [] n), s)

/-- One more byte. -/
def push (conn : ConnId) (maxFrame : Nat) (a : Assembly) (s : Service) (b : UInt8) :
    Progress × Service :=
  match a with
  | .header got =>
    if got.length + 1 < headerSize then (.more (.header (b :: got)), s)
    else begin conn maxFrame (lengthOf (b :: got).reverse) s
  | .payload l got missing =>
    if missing ≤ 1 then (.packet ⟨l, (b :: got).reverse⟩, s)
    else (.more (.payload l (b :: got) (missing - 1)), s)

/-- Bytes in order, up to the end of the frame; also gives the bytes behind it. -/
def feed (conn : ConnId) (maxFrame : Nat) (a : Assembly) (s : Service) :
    Bytes → Progress × Bytes × Service
  | [] => (.more a, [], s)
  | b :: bs =>
    match a.push conn maxFrame s b with
    | (.more a, s) => a.feed conn maxFrame s bs
    | (p, s) => (p, bs, s)

/-- Gives up the frame. -/
def abandon (a : Assembly) (s : Service) : Service :=
  match a with
  | .header _ => s
  | .payload l _ _ => s.dropLease l

end Assembly

/-- How the reading of a frame comes to a stop. -/
inductive Stop
  /-- The input ended between two frames. -/
  | closed
  | packet (p : Packet)
  | failed (e : IoError)
  /-- Neither the frame nor the end of the input came in time. -/
  | waiting (a : Assembly)
  deriving DecidableEq, Repr

/-- What the reading of a frame leaves. -/
structure Reading where
  stop : Stop
  rest : List Arrival
  /-- The time, in milliseconds. -/
  now : Nat
  service : Service

/-- The input has ended. -/
def Assembly.finish (a : Assembly) (s : Service) : Stop × Service :=
  match a with
  | .header [] => (.closed, s)
  | .header _ => (.failed truncatedHeader, s)
  | .payload .. => (.failed truncatedPayload, a.abandon s)

/-- Whether `t` is no later than a deadline, if there is one. -/
def inTime (deadline : Option Nat) (t : Nat) : Bool := deadline.all (t ≤ ·)

/-- Reads on until the frame is complete, something fails, or the deadline has passed. What comes
at the deadline itself is still in time. -/
def read (conn : ConnId) (maxFrame : Nat) (deadline : Option Nat) :
    List Arrival → Assembly → Nat → Service → Reading
  | [], a, now, s =>
    let (stop, s) := a.finish s
    ⟨stop, [], now, s⟩
  | .data [] :: rest, a, now, s =>
    let (stop, s) := a.finish s
    ⟨stop, rest, now, s⟩
  | .data (b :: bs) :: rest, a, now, s =>
    match a.feed conn maxFrame s (b :: bs) with
    | (.more a, _, s) => read conn maxFrame deadline rest a now s
    | (.packet p, left, s) => ⟨.packet p, requeue left rest, now, s⟩
    | (.failed e, left, s) => ⟨.failed e, requeue left rest, now, s⟩
  | .failure e :: rest, a, now, s => ⟨.failed e, rest, now, a.abandon s⟩
  | .delay ms :: rest, a, now, s =>
    if inTime deadline (now + ms) then read conn maxFrame deadline rest a (now + ms) s
    else
      let t := deadline.getD now
      ⟨.waiting a, .delay (now + ms - t) :: rest, t, s⟩
  | .hang :: rest, a, now, s => ⟨.waiting a, .hang :: rest, deadline.getD now, s⟩

theorem Assembly.length_feed (conn : ConnId) (maxFrame : Nat) (a : Assembly) (s : Service)
    (bs : Bytes) : (a.feed conn maxFrame s bs).2.1.length ≤ bs.length - 1 := by
  induction bs generalizing a s with
  | nil => simp [feed]
  | cons b bs ih =>
    unfold feed
    split
    · exact Nat.le_trans (ih _ _) (by simp)
    · simp

theorem inputWeight_read {conn : ConnId} {maxFrame : Nat} {deadline : Option Nat}
    {as : List Arrival} {a : Assembly} {now : Nat} {s : Service} {p : Packet}
    (h : (read conn maxFrame deadline as a now s).stop = .packet p) :
    inputWeight (read conn maxFrame deadline as a now s).rest < inputWeight as := by
  fun_induction read conn maxFrame deadline as a now s with
  | case1 a now s stop s' hf =>
    simp only at h
    subst h
    unfold Assembly.finish at hf
    split at hf <;> simp at hf
  | case2 rest a now s stop s' hf =>
    simp only at h
    subst h
    unfold Assembly.finish at hf
    split at hf <;> simp at hf
  | case3 b bs rest a now s a' _ s' hf ih =>
    have := ih h
    simp only [inputWeight, List.map_cons, total] at this ⊢
    omega
  | case4 b bs rest a now s q left s' hf =>
    have hl := Assembly.length_feed conn maxFrame a s (b :: bs)
    rw [hf] at hl
    have hr := Sink.inputWeight_requeue left rest
    simp only [List.length_cons, Nat.add_sub_cancel, inputWeight, List.map_cons, Arrival.weight,
      total] at hl hr ⊢
    omega
  | case5 b bs rest a now s e left s' hf => simp at h
  | case6 e rest a now s => simp at h
  | case7 ms rest a now s ht ih =>
    have := ih h
    simp only [inputWeight, List.map_cons, total] at this ⊢
    omega
  | case8 ms rest a now s ht => simp at h
  | case9 rest a now s => simp at h

end Frame

end PacketBudget
