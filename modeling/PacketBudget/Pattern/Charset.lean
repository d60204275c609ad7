import PacketBudget.Pattern.Term

/-!
Sets of characters, as they are put together between brackets, and the classes of ASCII characters
that have a name. A set is kept as the ranges of the numbers of its characters. Main statements:
what each way of putting sets together does to membership.
-/

namespace PacketBudget.Pattern

/-- A set of characters. -/
structure Charset where
  /-- The first and the last number of each range, ascending and with gaps between them. -/
  ranges : List (Nat × Nat) := []
  /-- It is a set of bytes, and not of characters of all of Unicode. -/
  ofBytes : Bool := false
  deriving DecidableEq, Repr

namespace Charset

def mem (s : Charset) (c : Char) : Bool := s.ranges.any fun r => r.1 ≤ c.toNat && c.toNat ≤ r.2

def isEmpty (s : Charset) : Bool := s.ranges.isEmpty

/-- A range and those behind it, with ranges that meet made one. -/
def joinFrom (r : Nat × Nat) : List (Nat × Nat) → List (Nat × Nat)
  | [] => [r]
  | s :: ss => if s.1 ≤ r.2 + 1 then joinFrom (r.1, max r.2 s.2) ss else r :: joinFrom s ss

/-- Ranges in any order, put in order. -/
def gather (rs : List (Nat × Nat)) : List (Nat × Nat) :=
  match rs.mergeSort fun r s => r.1 ≤ s.1 with
  | [] => []
  | r :: rs => joinFrom r rs

def ofRanges (rs : List (Nat × Nat)) (ofBytes : Bool) : Charset := ⟨gather rs, ofBytes⟩

def union (s t : Charset) : Charset := ofRanges (s.ranges ++ t.ranges) s.ofBytes

/-- What ranges have in common. -/
def common (rs ss : List (Nat × Nat)) : List (Nat × Nat) :=
  rs.flatMap fun r => ss.filterMap fun s =>
    if max r.1 s.1 ≤ min r.2 s.2 then some (max r.1 s.1, min r.2 s.2) else none

def inter (s t : Charset) : Charset := ⟨common s.ranges t.ranges, s.ofBytes⟩

/-- The number of the last character there is. -/
def maxChar : Nat := 0x10FFFF

/-- The number of the next character; there are no characters from D800 to DFFF. -/
def above (n : Nat) : Nat := if n = 0xD7FF then 0xE000 else n + 1

/-- The number of the character before. -/
def below (n : Nat) : Nat := if n = 0xE000 then 0xD7FF else n - 1

/-- What is left of a range without others. -/
def cut (r : Nat × Nat) : List (Nat × Nat) → List (Nat × Nat)
  | [] => [r]
  | s :: ss =>
    if r.2 < s.1 then [r]
    else if s.2 < r.1 then cut r ss
    else (if r.1 < s.1 then [(r.1, below s.1)] else []) ++
      if s.2 < r.2 then cut (above s.2, r.2) ss else []

def diff (s t : Charset) : Charset := ⟨s.ranges.flatMap (cut · t.ranges), s.ofBytes⟩

/-- The characters that are in exactly one of two sets. -/
def symmDiff (s t : Charset) : Charset := (s.union t).diff (s.inter t)

/-- The gaps between ranges, behind the number `last`. Ranges with no character between them have
for their gap the two characters that meet. -/
def gaps (last : Nat) : List (Nat × Nat) → List (Nat × Nat)
  | [] => if last < maxChar then [(above last, maxChar)] else []
  | r :: rs => (min (above last) (below r.1), max (above last) (below r.1)) :: gaps r.2 rs

/-- All other characters. -/
def compl (s : Charset) : Charset :=
  match s.ranges with
  | [] => ⟨[(0, maxChar)], s.ofBytes⟩
  | r :: rs => ⟨(if 0 < r.1 then [(0, below r.1)] else []) ++ gaps r.2 rs, s.ofBytes⟩

/-- With the other case of every ASCII letter. -/
def anyCase (s : Charset) : Charset :=
  ofRanges (s.ranges ++ (common s.ranges [(97, 122)]).map (fun r => (r.1 - 32, r.2 - 32)) ++
    (common s.ranges [(65, 90)]).map fun r => (r.1 + 32, r.2 + 32)) s.ofBytes

/-- The number of the only character, if there is just one. -/
def single? (s : Charset) : Option Nat :=
  match s.ranges with
  | [(n, m)] => if n = m then some n else none
  | _ => none

def isAscii (s : Charset) : Bool := s.ranges.all (·.2 < 128)

/-- How many bytes the character with a number takes. -/
def byteCount (n : Nat) : Nat :=
  if n < 0x80 then 1 else if n < 0x800 then 2 else if n < 0x10000 then 3 else 4

/-- The least number of bytes of a character. -/
def shortest? (s : Charset) : Option Nat := s.ranges.head?.map fun r => byteCount r.1

/-- The greatest number of bytes of a character. -/
def longest? (s : Charset) : Option Nat := s.ranges.getLast?.map fun r => byteCount r.2

/-! ### Membership -/

/-- Whether a number is in one of some ranges. -/
abbrev holds (rs : List (Nat × Nat)) (n : Nat) : Prop := ∃ r ∈ rs, r.1 ≤ n ∧ n ≤ r.2

theorem mem_iff {s : Charset} {c : Char} : s.mem c = true ↔ holds s.ranges c.toNat := by
  simp [mem]

theorem holds_cons {r : Nat × Nat} {rs : List (Nat × Nat)} {n : Nat} :
    holds (r :: rs) n ↔ (r.1 ≤ n ∧ n ≤ r.2) ∨ holds rs n := by
  simp [holds]

theorem holds_joinFrom {r : Nat × Nat} {rs : List (Nat × Nat)} {n : Nat} (hr : r.1 ≤ r.2)
    (hs : (r :: rs).Pairwise fun a b => a.1 ≤ b.1) (hv : ∀ s ∈ rs, s.1 ≤ s.2) :
    holds (joinFrom r rs) n ↔ holds (r :: rs) n := by
  induction rs generalizing r with
  | nil => rfl
  | cons s ss ih =>
    obtain ⟨hrs, hss⟩ := List.pairwise_cons.mp hs
    have hlow := hrs s List.mem_cons_self
    have hval := hv s List.mem_cons_self
    unfold joinFrom
    split
    · rw [ih (r := (r.1, max r.2 s.2)) (by simp only; omega)
        (List.pairwise_cons.mpr
          ⟨fun t ht => hrs t (List.mem_cons_of_mem s ht), (List.pairwise_cons.mp hss).2⟩)
        fun t ht => hv t (List.mem_cons_of_mem s ht)]
      rw [holds_cons, holds_cons, holds_cons, ← or_assoc]
      refine or_congr ?_ Iff.rfl
      simp only; omega
    · rw [holds_cons, holds_cons, ih hval hss fun t ht => hv t (List.mem_cons_of_mem s ht)]

theorem holds_gather {rs : List (Nat × Nat)} {n : Nat} (hv : ∀ r ∈ rs, r.1 ≤ r.2) :
    holds (gather rs) n ↔ holds rs n := by
  have hp := List.mergeSort_perm rs fun r s => decide (r.1 ≤ s.1)
  have hs := @List.pairwise_mergeSort _ (fun r s : Nat × Nat => decide (r.1 ≤ s.1))
    (by simp only [decide_eq_true_eq]; omega)
    (by simp only [Bool.or_eq_true, decide_eq_true_eq]; omega) rs
  have hm : holds (rs.mergeSort fun r s => decide (r.1 ≤ s.1)) n ↔ holds rs n := by
    simp only [holds, hp.mem_iff]
  rw [← hm]
  unfold gather
  cases h : rs.mergeSort fun r s => decide (r.1 ≤ s.1) with
  | nil => rfl
  | cons t ts =>
    rw [h] at hs hp
    have hv' : ∀ r ∈ t :: ts, r.1 ≤ r.2 := fun r hr => hv r (hp.mem_iff.mp hr)
    exact holds_joinFrom (hv' t List.mem_cons_self) (hs.imp fun h => by simpa using h)
      fun s hs => hv' s (List.mem_cons_of_mem t hs)

theorem mem_union {s t : Charset} {c : Char} (hs : ∀ r ∈ s.ranges, r.1 ≤ r.2)
    (ht : ∀ r ∈ t.ranges, r.1 ≤ r.2) : (s.union t).mem c = (s.mem c || t.mem c) := by
  rw [Bool.eq_iff_iff, Bool.or_eq_true, mem_iff, mem_iff, mem_iff]
  have hv : ∀ r ∈ s.ranges ++ t.ranges, r.1 ≤ r.2 := fun r hr =>
    (List.mem_append.mp hr).elim (hs r) (ht r)
  exact (holds_gather hv).trans (by simp [holds, List.mem_append, or_and_right, exists_or])

theorem mem_inter (s t : Charset) (c : Char) : (s.inter t).mem c = (s.mem c && t.mem c) := by
  rw [Bool.eq_iff_iff, Bool.and_eq_true, mem_iff, mem_iff, mem_iff]
  simp only [holds, inter, common, List.mem_flatMap, List.mem_filterMap]
  constructor
  · rintro ⟨q, ⟨r, hr, u, hu, hq⟩, h⟩
    split at hq
    · cases hq
      simp only at h
      exact ⟨⟨r, hr, by omega⟩, ⟨u, hu, by omega⟩⟩
    · cases hq
  · rintro ⟨⟨r, hr, h⟩, ⟨u, hu, h'⟩⟩
    refine ⟨(max r.1 u.1, min r.2 u.2), ⟨r, hr, u, hu, ?_⟩, ?_⟩
    · rw [if_pos (by omega)]
    · simp only; omega

end Charset

def Shorthand.ranges : Shorthand → List (Char × Char)
  | digit => [('0', '9')]
  | space => [('\t', '\r'), (' ', ' ')]
  | word => [('0', '9'), ('A', 'Z'), ('_', '_'), ('a', 'z')]

def NamedClass.ranges : NamedClass → List (Char × Char)
  | alnum => [('0', '9'), ('A', 'Z'), ('a', 'z')]
  | alpha => [('A', 'Z'), ('a', 'z')]
  | ascii => [('\x00', '\x7f')]
  | blank => [('\t', '\t'), (' ', ' ')]
  | cntrl => [('\x00', '\x1f'), ('\x7f', '\x7f')]
  | digit => Shorthand.digit.ranges
  | graph => [('!', '~')]
  | lower => [('a', 'z')]
  | print => [(' ', '~')]
  | punct => [('!', '/'), (':', '@'), ('[', '\x60'), ('\x7b', '~')]
  | space => Shorthand.space.ranges
  | upper => [('A', 'Z')]
  | word => Shorthand.word.ranges
  | xdigit => [('0', '9'), ('A', 'F'), ('a', 'f')]

/-- The set of the characters in some ranges. -/
def Charset.ofChars (ofBytes : Bool) (rs : List (Char × Char)) : Charset :=
  ofRanges (rs.map fun r => (r.1.toNat, r.2.toNat)) ofBytes

end PacketBudget.Pattern
