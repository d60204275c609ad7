/-!
Identities of service instances, handed out in order by an allocator. Main statement: the `k`-th
identity of an allocator is its first plus `k`, taken to the signed 64-bit numbers.
-/

namespace PacketBudget

/-- The number of a service instance. -/
structure Identity where
  val : Int64
  deriving DecidableEq, Repr

instance : ToString Identity := ⟨fun i => toString i.val.toInt⟩

/-- A counter of identities. -/
structure Allocator where
  next : Int64 := 1
  deriving DecidableEq, Repr

namespace Allocator

/-- A fresh identity; after the largest number comes the smallest. -/
def assign (a : Allocator) : Identity × Allocator := (⟨a.next⟩, ⟨a.next + 1⟩)

/-- The first `n` identities, and the allocator after them. -/
def assignMany (a : Allocator) : Nat → List Identity × Allocator
  | 0 => ([], a)
  | n + 1 =>
    let (i, a) := a.assign
    let (is, a) := a.assignMany n
    (i :: is, a)

theorem length_assignMany (a : Allocator) (n : Nat) : (a.assignMany n).1.length = n := by
  induction n generalizing a with
  | zero => rfl
  | succ n ih => simp [assignMany, ih]

theorem getElem?_assignMany (a : Allocator) {n k : Nat} (h : k < n) :
    (a.assignMany n).1[k]? = some ⟨a.next + Int64.ofNat k⟩ := by
  induction n generalizing a k with
  | zero => omega
  | succ n ih =>
    cases k with
    | zero => simp [assignMany, assign]
    | succ k =>
      simp only [assignMany, assign, List.getElem?_cons_succ]
      rw [ih _ (by omega)]
      simp only [Option.some.injEq, Identity.mk.injEq]
      rw [Int64.ofNat_add, Int64.add_assoc, Int64.add_comm 1]
      rfl

end Allocator

end PacketBudget
