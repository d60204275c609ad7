/-!
The sum of a list of numbers.
-/

namespace PacketBudget

def total : List Nat → Nat
  | [] => 0
  | n :: ns => n + total ns

theorem total_append (ns ms : List Nat) : total (ns ++ ms) = total ns + total ms := by
  induction ns with
  | nil => simp [total]
  | cons n ns ih => simp [total, ih, Nat.add_assoc]

theorem le_total {n : Nat} {ns : List Nat} (h : n ∈ ns) : n ≤ total ns := by
  induction ns with
  | nil => simp at h
  | cons m ns ih =>
    rcases List.mem_cons.mp h with rfl | h
    · exact Nat.le_add_right _ _
    · exact Nat.le_trans (ih h) (Nat.le_add_left _ _)

theorem total_eq_zero {α : Type} {xs : List α} {f : α → Nat} (h : ∀ x ∈ xs, f x = 0) :
    total (xs.map f) = 0 := by
  induction xs with
  | nil => rfl
  | cons x xs ih =>
    obtain ⟨hx, hxs⟩ := List.forall_mem_cons.mp h
    rw [List.map_cons, total, hx, ih hxs]

theorem total_le_total {α : Type} {xs : List α} {f g : α → Nat} (h : ∀ x ∈ xs, f x ≤ g x) :
    total (xs.map f) ≤ total (xs.map g) := by
  induction xs with
  | nil => exact Nat.le_refl _
  | cons x xs ih =>
    obtain ⟨hx, hxs⟩ := List.forall_mem_cons.mp h
    exact Nat.add_le_add hx (ih hxs)

theorem total_map_one {α : Type} (xs : List α) : total (xs.map fun _ => 1) = xs.length := by
  induction xs with
  | nil => rfl
  | cons x xs ih => rw [List.map_cons, total, ih, List.length_cons, Nat.add_comm]

end PacketBudget
