import PacketBudget.Pattern.Charset

/-!
The characters of a range as bytes: for each length of their bytes, and each stretch in which the
bytes can be chosen apart from each other, a sequence of ranges of bytes. Main statement: no
sequence is longer than four bytes.
-/

namespace PacketBudget.Pattern

structure Octets where
  low : UInt8
  high : UInt8
  deriving DecidableEq, Repr

namespace Octets

/-- The bytes of the character with a number. -/
def encode (n : Nat) : List UInt8 :=
  if n < 0x80 then [UInt8.ofNat n]
  else if n < 0x800 then [UInt8.ofNat (0xC0 + n / 64), UInt8.ofNat (0x80 + n % 64)]
  else if n < 0x10000 then
    [UInt8.ofNat (0xE0 + n / 4096), UInt8.ofNat (0x80 + n / 64 % 64), UInt8.ofNat (0x80 + n % 64)]
  else
    [UInt8.ofNat (0xF0 + n / 262144), UInt8.ofNat (0x80 + n / 4096 % 64),
      UInt8.ofNat (0x80 + n / 64 % 64), UInt8.ofNat (0x80 + n % 64)]

/-- The last number before which a range from `low` to `high` is to be parted, if its numbers do not
fill a block of the given size. -/
def blockEnd? (size low high : Nat) : Option Nat :=
  if low / size = high / size then none
  else if low % size ≠ 0 then some (low / size * size + (size - 1))
  else if high % size ≠ size - 1 then some (high / size * size - 1)
  else none

/-- Where a range is to be parted: the last number of one part and the first of the other. Parts
have no numbers that are no characters, and characters of one length. -/
def cut? (low high : Nat) : Option (Nat × Nat) :=
  if low < 0xE000 ∧ 0xDFFF < high then some (0xD7FF, 0xE000)
  else if low ≤ 0x7F ∧ 0x7F < high then some (0x7F, 0x80)
  else if low ≤ 0x7FF ∧ 0x7FF < high then some (0x7FF, 0x800)
  else if low ≤ 0xFFFF ∧ 0xFFFF < high then some (0xFFFF, 0x10000)
  else if high ≤ 0x7F then none
  else
    ((blockEnd? 64 low high).or ((blockEnd? 4096 low high).or (blockEnd? 262144 low high))).map
      fun n => (n, n + 1)

theorem blockEnd?_bounds {size low high n : Nat} (hs : 0 < size) (hl : low < high)
    (h : blockEnd? size low high = some n) : low ≤ n ∧ n < high := by
  have hd : low / size ≤ high / size := Nat.div_le_div_right (Nat.le_of_lt hl)
  have hlow := Nat.div_add_mod low size
  have hhigh := Nat.div_add_mod high size
  have hlm := Nat.mod_lt low hs
  have hhm := Nat.mod_lt high hs
  unfold blockEnd? at h
  split at h
  · cases h
  · rename_i hne
    have hlt : low / size + 1 ≤ high / size := by omega
    have hmul := Nat.mul_le_mul_right size hlt
    rw [Nat.add_mul, Nat.one_mul] at hmul
    rw [Nat.mul_comm] at hlow hhigh
    split at h
    · cases h; omega
    · split at h
      · cases h; omega
      · cases h

theorem cut?_bounds {low high a b : Nat} (hl : low < high) (h : cut? low high = some (a, b)) :
    a < high ∧ low < b ∧ b ≤ high := by
  unfold cut? at h
  split at h
  · cases h; omega
  split at h
  · cases h; omega
  split at h
  · cases h; omega
  split at h
  · cases h; omega
  split at h
  · cases h
  simp only [Option.map_eq_some_iff, Option.or_eq_some_iff, Prod.mk.injEq] at h
  obtain ⟨n, hn, rfl, rfl⟩ := h
  have : low ≤ n ∧ n < high := by
    rcases hn with h | ⟨_, h | ⟨_, h⟩⟩ <;> exact blockEnd?_bounds (by omega) hl h
  omega

/-- The sequences of bytes for the characters of a range, in order. -/
def sequences (low high : Nat) : List (List Octets) :=
  if _hl : low < high then
    match _h : cut? low high with
    | some (a, b) => sequences low a ++ sequences b high
    | none => [(encode low).zipWith Octets.mk (encode high)]
  else if low = high then [(encode low).zipWith Octets.mk (encode low)]
  else []
termination_by high - low
decreasing_by
  all_goals have := cut?_bounds _hl _h; omega

theorem length_encode_le (n : Nat) : (encode n).length ≤ 4 := by
  unfold encode
  repeat' split
  all_goals simp

theorem length_le_of_mem_sequences {low high : Nat} {s : List Octets}
    (h : s ∈ sequences low high) : s.length ≤ 4 := by
  fun_induction sequences low high with
  | case1 low high hl a b hc iha ihb => exact (List.mem_append.mp h).elim iha ihb
  | case2 low high hl hc =>
    rw [List.mem_singleton.mp h, List.length_zipWith]
    exact Nat.le_trans (Nat.min_le_left _ _) (length_encode_le _)
  | case3 low hl =>
    rw [List.mem_singleton.mp h, List.length_zipWith]
    exact Nat.le_trans (Nat.min_le_left _ _) (length_encode_le _)
  | case4 => simp at h

end Octets

end PacketBudget.Pattern
