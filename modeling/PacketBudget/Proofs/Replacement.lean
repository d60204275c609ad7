import Mathlib.Data.List.Perm.Basic

/-!
One element of an array is replaced by another. Nothing else changes, and whatever is made of the
elements without regard to their order is made of the new one and of the others.
-/

namespace PacketBudget

variable {α : Type} {xs : Array α} {i : Nat} {x : α}

theorem getElem?_replaced (hx : xs[i]? = some x) (y : α) (j : Nat) :
    (xs.setIfInBounds i y)[j]? = if j = i then some y else xs[j]? := by
  obtain ⟨hi, _⟩ := Array.getElem?_eq_some_iff.mp hx
  by_cases hj : j = i
  · subst hj
    rw [Array.getElem?_setIfInBounds_self_of_lt hi, if_pos rfl]
  · rw [Array.getElem?_setIfInBounds_ne (Ne.symm hj), if_neg hj]

/-- The elements besides the one that is replaced. -/
theorem exists_others (hx : xs[i]? = some x) :
    ∃ rest, xs.toList.Perm (x :: rest) ∧
      ∀ y, (xs.setIfInBounds i y).toList.Perm (y :: rest) := by
  obtain ⟨hi, rfl⟩ := Array.getElem?_eq_some_iff.mp hx
  have hl : i < xs.toList.length := by simpa using hi
  refine ⟨xs.toList.eraseIdx i, (List.getElem_cons_eraseIdx_perm hl).symm, ?_⟩
  intro y
  rw [Array.toList_setIfInBounds]
  exact List.set_perm_cons_eraseIdx hl y

end PacketBudget
