import PacketBudget.Budget
import PacketBudget.Connection.Table
import PacketBudget.Fault

/-!
The accounts of a service: its budget, the table of registered connections and the next epoch.
Each operation here is one indivisible step on them. A refused step has no resulting accounts, so
that a refusal cannot change anything.
-/

namespace PacketBudget

/-- What the rules of admission read and change. -/
structure Accounts where
  budget : Budget
  table : Table := {}
  nextEpoch : UInt64 := 1
  deriving Repr

/-- Whether a packet of `n` bytes fits into what the entry leaves of the cap; a cap of zero is none.
An entry that is past the cap leaves nothing of it, which still is room for an empty packet. -/
def Entry.fits (e : Entry) (cap n : Nat) : Bool := cap = 0 ∨ n ≤ cap - e.packetBytes

namespace Accounts

/-- Registers `id` and reserves its overhead. -/
def register (a : Accounts) (id : ConnId) (overhead : Nat) : Except Fault Accounts :=
  if a.table.contains id then
    .error (.duplicateConnection id)
  else
    match a.budget.reserve? overhead with
    | none => .error (.budgetExhausted overhead a.budget.available)
    | some b =>
      .ok ⟨b, a.table.put id { epoch := a.nextEpoch, overhead := overhead }, a.nextEpoch + 1⟩

/-- The largest packet that would be admitted on an entry now. -/
def room (a : Accounts) (cap : Nat) (e : Entry) : Nat :=
  if cap = 0 then a.budget.available else min (cap - e.packetBytes) a.budget.available

/-- Charges a packet of `n` bytes to the registration that `id` has now. -/
def charge (a : Accounts) (id : ConnId) (n cap : Nat) : Except Fault (Charge × Accounts) :=
  match a.table.get? id with
  | none => .error (.unknownConnection id)
  | some e =>
    match if e.fits cap n then a.budget.reserve? n else none with
    | none => .error (.budgetExhausted n (a.room cap e))
    | some b => .ok (⟨id, e.epoch, n⟩, { a with budget := b, table := a.table.put id (e.charge n) })

/-- Takes up to `n` bytes and one packet off the entry of `id`; says how many bytes came free. -/
def credit (a : Accounts) (id : ConnId) (e : Entry) (n : Nat) : Nat × Accounts :=
  let (freed, b) := a.budget.release n
  (freed, { a with budget := b, table := a.table.put id (e.credit n) })

/-- Returns a charge; none if its registration has ended. -/
def refund? (a : Accounts) (c : Charge) : Option (Nat × Accounts) :=
  match a.table.get? c.conn with
  | none => none
  | some e =>
    if e.epoch = c.epoch then some (a.credit c.conn e (min c.bytes e.packetBytes)) else none

/-- Returns up to `n` packet bytes of the registration that `id` has now; none if there is nothing
to return. -/
def release? (a : Accounts) (id : ConnId) (n : Nat) : Option (Nat × Accounts) :=
  match a.table.get? id with
  | none => none
  | some e =>
    if min n e.packetBytes = 0 then none else some (a.credit id e (min n e.packetBytes))

/-- Takes `id` off the table; its bytes stay reserved. -/
def remove? (a : Accounts) (id : ConnId) : Option (Entry × Accounts) :=
  (a.table.get? id).map fun e => (e, { a with table := a.table.erase id })

/-- Frees `n` bytes of the budget alone. -/
def free (a : Accounts) (n : Nat) : Nat × Accounts :=
  let (freed, b) := a.budget.release n
  (freed, { a with budget := b })

/-- The bytes in use. -/
def used (a : Accounts) : Nat := a.budget.used

theorem register_eq_ok_iff {a a' : Accounts} {id : ConnId} {n : Nat} :
    a.register id n = .ok a' ↔
      a.table.contains id = false ∧ a.budget.used + n ≤ a.budget.ceiling ∧
        a' = ⟨{ a.budget with used := a.budget.used + n },
          a.table.put id { epoch := a.nextEpoch, overhead := n }, a.nextEpoch + 1⟩ := by
  by_cases hc : a.table.contains id
  · simp [register, hc]
  · by_cases hr : a.budget.used + n ≤ a.budget.ceiling
    · simp [register, hc, Budget.reserve?, hr, eq_comm]
    · simp [register, hc, Budget.reserve?, hr]

theorem charge_eq_ok_iff {a a' : Accounts} {id : ConnId} {n cap : Nat} {c : Charge} :
    a.charge id n cap = .ok (c, a') ↔
      ∃ e, a.table.get? id = some e ∧ e.fits cap n = true ∧
        a.budget.used + n ≤ a.budget.ceiling ∧ c = ⟨id, e.epoch, n⟩ ∧
        a' = { a with
          budget := { a.budget with used := a.budget.used + n },
          table := a.table.put id (e.charge n) } := by
  cases hg : a.table.get? id with
  | none => simp [charge, hg]
  | some e =>
    by_cases hf : e.fits cap n
    · by_cases hr : a.budget.used + n ≤ a.budget.ceiling
      · simp only [charge, hg, hf, Budget.reserve?, hr, ↓reduceIte, Except.ok.injEq, Prod.mk.injEq,
          Option.some.injEq, exists_eq_left', true_and]
        exact and_congr eq_comm eq_comm
      · simp [charge, hg, hf, Budget.reserve?, hr]
    · simp [charge, hg, hf]

end Accounts

end PacketBudget
