import PacketBudget.Counters

/-!
Counters without a bound. The counters show what these would show, as far as 64 bits go.
-/

namespace PacketBudget

/-- What the counters would show if they did not wrap. -/
abbrev Counts := Counter → Nat

namespace Counts

def tick (x : Counts) : Tick → Counts
  | .incr c => fun k => if k = c then x k + 1 else x k
  | .add c n => fun k => if k = c then x k + n else x k
  | .decr c => fun k => if k = c then x k - 1 else x k

def tickAll (x : Counts) (ts : List Tick) : Counts := ts.foldl tick x

@[simp] theorem tick_incr (x : Counts) (c k : Counter) :
    x.tick (.incr c) k = if k = c then x k + 1 else x k := rfl

@[simp] theorem tick_add (x : Counts) (c k : Counter) (n : Nat) :
    x.tick (.add c n) k = if k = c then x k + n else x k := rfl

@[simp] theorem tick_decr (x : Counts) (c k : Counter) :
    x.tick (.decr c) k = if k = c then x k - 1 else x k := rfl

@[simp] theorem tickAll_nil (x : Counts) : x.tickAll [] = x := rfl

@[simp] theorem tickAll_cons (x : Counts) (t : Tick) (ts : List Tick) :
    x.tickAll (t :: ts) = (x.tick t).tickAll ts := rfl

end Counts

namespace Counters

/-- The counters show the counts, as far as 64 bits go. -/
def Shows (s : Counters) (x : Counts) : Prop := ∀ c, s.get c = UInt64.ofNat (x c)

variable {s : Counters} {x : Counts}

theorem shows_new : ({} : Counters).Shows fun _ => 0 := by
  intro c
  cases c <;> rfl

/-- One fewer is one fewer, zero included, where the count has not wrapped. -/
theorem ofNat_pred {n : Nat} (few : n < UInt64.size) :
    (if UInt64.ofNat n = 0 then 0 else UInt64.ofNat n - 1) = UInt64.ofNat (n - 1) := by
  by_cases hz : n = 0
  · subst hz
    rfl
  · have hne : UInt64.ofNat n ≠ 0 := by
      intro h
      have hn := congrArg UInt64.toNat h
      rw [UInt64.toNat_ofNat_of_lt' few] at hn
      exact hz hn
    rw [if_neg hne, UInt64.ofNat_sub (Nat.one_le_iff_ne_zero.mpr hz)]
    rfl

/-- A tick keeps the counters right, unless it takes one from a count that is out of range. -/
theorem Shows.tick (h : s.Shows x) (t : Tick) (few : ∀ c, t = .decr c → x c < UInt64.size) :
    (s.tick t).Shows (x.tick t) := by
  intro k
  cases t with
  | incr c =>
    simp only [Counters.tick, Counts.tick, get_set]
    split
    · rename_i hk
      rw [hk, h c, UInt64.ofNat_add]
      rfl
    · exact h k
  | add c n =>
    simp only [Counters.tick, Counts.tick, get_set]
    split
    · rename_i hk
      rw [hk, h c, UInt64.ofNat_add]
    · exact h k
  | decr c =>
    simp only [Counters.tick, Counts.tick, get_set]
    split
    · rename_i hk
      rw [hk, h c]
      exact ofNat_pred (few c rfl)
    · exact h k

theorem Shows.tickAll (h : s.Shows x) {ts : List Tick} (up : ∀ c, .decr c ∉ ts) :
    (s.tickAll ts).Shows (x.tickAll ts) := by
  induction ts generalizing s x with
  | nil => exact h
  | cons t ts ih =>
    refine ih (h.tick t ?_) fun c hc => up c (List.mem_cons_of_mem _ hc)
    rintro c rfl
    exact absurd List.mem_cons_self (up c)

end Counters

end PacketBudget
