import PacketBudget.Fault
import PacketBudget.Total

/-!
The two directions of a stream. What comes in is a list of arrivals in order; after the last one
the input is at its end. What goes out goes to a sink that answers each write. Main statements:
what a sink has accepted of a text is a front part of it, and all of it if no failure is reported.
-/

namespace PacketBudget

abbrev Bytes := List UInt8

/-- What a stream has for its reader next. -/
inductive Arrival
  /-- Bytes that are there. No bytes at all are an end of input at that moment. -/
  | data (bytes : Bytes)
  /-- One read that fails. -/
  | failure (e : IoError)
  /-- Nothing for so many milliseconds. -/
  | delay (ms : Nat)
  /-- Nothing, for ever. -/
  | hang
  deriving DecidableEq, Repr

/-- How much there is to read of an arrival, the arrival itself included. -/
def Arrival.weight : Arrival → Nat
  | .data bs => bs.length + 1
  | _ => 1

/-- How much there is to read of all arrivals. -/
def inputWeight (as : List Arrival) : Nat := total (as.map Arrival.weight)

/-- Puts back what is left of the bytes of an arrival. -/
def requeue (left : Bytes) (as : List Arrival) : List Arrival :=
  if left = [] then as else .data left :: as

/-- How a sink answers a write. -/
inductive WriteAnswer
  | accept (atMost : Nat)
  | fail (e : IoError)
  deriving DecidableEq, Repr

structure Sink where
  /-- The answer to a write of `offered` bytes, after so many calls and accepted bytes. -/
  behaviour : (calls accepted offered : Nat) → WriteAnswer
  calls : Nat := 0
  accepted : Nat := 0
  /-- The bytes accepted and not yet taken out. -/
  out : Array UInt8 := #[]

namespace Sink

/-- A sink that takes at most `atMost` bytes in a call and `total` bytes in all, after which it is
broken. -/
def limited (atMost total : Option Nat) : Sink where
  behaviour _ accepted offered :=
    let chunk := (atMost.map (min offered)).getD offered
    match total with
    | none => .accept chunk
    | some t =>
      if t ≤ accepted then .fail ⟨.brokenPipe, "write failed"⟩
      else .accept (min chunk (t - accepted))

/-- A sink that takes everything. -/
def unlimited : Sink := limited none none

/-- One write of `offered` bytes: how many of them were accepted, or why none. -/
def write (s : Sink) (offered : Nat) (bytes : Bytes) : Except IoError Nat × Sink :=
  match s.behaviour s.calls s.accepted offered with
  | .fail e => (.error e, { s with calls := s.calls + 1 })
  | .accept m =>
    let n := min m offered
    (.ok n, { s with
      calls := s.calls + 1
      accepted := s.accepted + n
      out := s.out ++ (bytes.take n).toArray })

/-- Writes the `left` bytes that are left, until all are accepted. A write that accepts none is a
failure. -/
def writeRest (s : Sink) (left : Nat) : Bytes → Option IoError × Sink
  | [] => (none, s)
  | b :: bs =>
    match s.write left (b :: bs) with
    | (.error e, s) => (some e, s)
    | (.ok 0, s) => (some ⟨.writeZero, "write zero"⟩, s)
    | (.ok (n + 1), s) => s.writeRest (left - (n + 1)) (bs.drop n)
termination_by bytes => bytes.length
decreasing_by simp only [List.length_drop, List.length_cons]; omega

/-- Writes until all bytes are accepted. -/
def writeAll (s : Sink) (bytes : Bytes) : Option IoError × Sink := s.writeRest bytes.length bytes

/-- Takes out what was accepted. -/
def take (s : Sink) : Bytes × Sink := (s.out.toList, { s with out := #[] })

theorem out_write (s : Sink) (offered : Nat) (bytes : Bytes) :
    (s.write offered bytes).2.out.toList =
      s.out.toList ++ bytes.take ((s.write offered bytes).1.toOption.getD 0) := by
  unfold write
  split <;> simp [Except.toOption]

theorem out_writeRest (s : Sink) (left : Nat) (bytes : Bytes) :
    ∃ front, front <+: bytes ∧ (s.writeRest left bytes).2.out.toList = s.out.toList ++ front ∧
      ((s.writeRest left bytes).1 = none → front = bytes) := by
  fun_induction writeRest s left bytes with
  | case1 s => exact ⟨[], List.prefix_refl _, by simp, fun _ => rfl⟩
  | case2 s left b bs e s' h =>
    have ho := out_write s left (b :: bs)
    rw [h] at ho
    exact ⟨[], List.nil_prefix, by simpa [Except.toOption] using ho, by simp⟩
  | case3 s left b bs s' h =>
    have ho := out_write s left (b :: bs)
    rw [h] at ho
    exact ⟨[], List.nil_prefix, by simpa [Except.toOption] using ho, by simp⟩
  | case4 s left b bs n s' h ih =>
    obtain ⟨front, hp, hf, ha⟩ := ih
    have ho := out_write s left (b :: bs)
    rw [h] at ho
    have hs : b :: bs = b :: bs.take n ++ bs.drop n := by simp
    refine ⟨b :: bs.take n ++ front, ?_, ?_, ?_⟩
    · rw [hs]
      exact (List.prefix_append_right_inj _).mpr hp
    · rw [hf, ho]
      simp [Except.toOption]
    · intro he
      rw [ha he, ← hs]

theorem out_writeAll (s : Sink) (bytes : Bytes) :
    ∃ front, front <+: bytes ∧ (s.writeAll bytes).2.out.toList = s.out.toList ++ front ∧
      ((s.writeAll bytes).1 = none → front = bytes) :=
  out_writeRest s bytes.length bytes

theorem inputWeight_requeue (left : Bytes) (as : List Arrival) :
    inputWeight (requeue left as) ≤ left.length + 1 + inputWeight as := by
  unfold requeue
  split
  · omega
  · simp [inputWeight, total, Arrival.weight]

end Sink

end PacketBudget
