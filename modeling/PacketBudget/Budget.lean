/-!
A byte budget: a fixed ceiling and the bytes in use. Main statements: a reservation succeeds
exactly when it fits under the ceiling, a release takes back exactly what it reports, and both
keep the bytes in use under the ceiling.
-/

namespace PacketBudget

/-- Bytes in use under a fixed ceiling. -/
structure Budget where
  ceiling : Nat
  used : Nat := 0
  deriving DecidableEq, Repr

namespace Budget

/-- The bytes still free. -/
def available (b : Budget) : Nat := b.ceiling - b.used

/-- The budget with `n` more bytes in use, if they fit. -/
def reserve? (b : Budget) (n : Nat) : Option Budget :=
  if b.used + n ≤ b.ceiling then some { b with used := b.used + n } else none

/-- Takes back up to `n` bytes; says how many. -/
def release (b : Budget) (n : Nat) : Nat × Budget :=
  (min b.used n, { b with used := b.used - n })

theorem reserve?_eq_some_iff {b b' : Budget} {n : Nat} :
    b.reserve? n = some b' ↔ b.used + n ≤ b.ceiling ∧ b' = { b with used := b.used + n } := by
  by_cases h : b.used + n ≤ b.ceiling <;> simp [reserve?, h, eq_comm]

theorem reserve?_eq_none_iff {b : Budget} {n : Nat} :
    b.reserve? n = none ↔ b.ceiling < b.used + n := by
  by_cases h : b.used + n ≤ b.ceiling
  · simp [reserve?, h]
  · simp only [reserve?, h, ↓reduceIte, true_iff]
    omega

/-- What a release reports is what it took back. -/
theorem used_release (b : Budget) (n : Nat) : (b.release n).2.used + (b.release n).1 = b.used := by
  simp only [release]; omega

theorem release_of_le {b : Budget} {n : Nat} (h : n ≤ b.used) :
    b.release n = (n, { b with used := b.used - n }) := by
  simp [release, Nat.min_eq_right h]

theorem ceiling_release (b : Budget) (n : Nat) : (b.release n).2.ceiling = b.ceiling := rfl

/-- Room that is refused is room that is not there. -/
theorem available_lt_of_reserve?_eq_none {b : Budget} {n : Nat} (hb : b.used ≤ b.ceiling)
    (h : b.reserve? n = none) : b.available < n := by
  rw [reserve?_eq_none_iff] at h
  simp only [available]; omega

end Budget

end PacketBudget
