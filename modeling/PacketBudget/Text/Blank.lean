/-!
White space as the Unicode property `White_Space` has it, trimming by it, and cutting a text at the
first place where a character stands. Main statements: trimming leaves no blank at either end, and
a cut loses only the character it cuts at.
-/

namespace PacketBudget.Text

/-- The characters with the Unicode property `White_Space`. -/
def isBlank (c : Char) : Bool :=
  let n := c.toNat
  (9 ≤ n && n ≤ 13) || n == 0x20 || n == 0x85 || n == 0xA0 || n == 0x1680 ||
    (0x2000 ≤ n && n ≤ 0x200A) || n == 0x2028 || n == 0x2029 || n == 0x202F ||
    n == 0x205F || n == 0x3000

/-- The text from its first character that is not blank. -/
def trimLeft (s : List Char) : List Char := s.dropWhile isBlank

/-- The text up to its last character that is not blank. -/
def trimRight (s : List Char) : List Char := (s.reverse.dropWhile isBlank).reverse

/-- The text without the blanks around it. -/
def trim (s : List Char) : List Char := trimRight (trimLeft s)

/-- The parts before and after the first `c`, if there is one. -/
def cut? (c : Char) : List Char → Option (List Char × List Char)
  | [] => none
  | d :: ds => if d = c then some ([], ds) else (cut? c ds).map fun (a, b) => (d :: a, b)

/-- The part before the first `c`, or all of it. -/
def before (c : Char) (s : List Char) : List Char := s.takeWhile (· != c)

/-- The lines of a text: the stretches between line feeds. -/
def lines : List Char → List (List Char)
  | [] => [[]]
  | '\n' :: cs => [] :: lines cs
  | c :: cs =>
    match lines cs with
    | [] => [[c]]
    | l :: ls => (c :: l) :: ls

theorem isBlank_of_isWhitespace {c : Char} (h : c.isWhitespace = true) : isBlank c = true := by
  simp only [Char.isWhitespace, Bool.or_eq_true, decide_eq_true_eq] at h
  rcases h with ((h | h) | h) | h <;> subst h <;> decide

theorem cut?_eq_none_iff {c : Char} {s : List Char} : cut? c s = none ↔ c ∉ s := by
  induction s with
  | nil => simp [cut?]
  | cons d ds ih =>
    by_cases h : d = c
    · simp [cut?, h]
    · simp [cut?, h, ih, Ne.symm h]

theorem eq_append_of_cut? {c : Char} {s a b : List Char} (h : cut? c s = some (a, b)) :
    s = a ++ c :: b ∧ c ∉ a := by
  induction s generalizing a with
  | nil => simp [cut?] at h
  | cons d ds ih =>
    by_cases hd : d = c
    · simp only [cut?, hd, ↓reduceIte, Option.some.injEq, Prod.mk.injEq] at h
      obtain ⟨rfl, rfl⟩ := h
      simp [hd]
    · simp only [cut?, hd, ↓reduceIte, Option.map_eq_some_iff] at h
      obtain ⟨⟨a', b'⟩, hc, he⟩ := h
      simp only [Prod.mk.injEq] at he
      obtain ⟨rfl, rfl⟩ := he
      obtain ⟨rfl, hn⟩ := ih hc
      exact ⟨rfl, by simp [hn, Ne.symm hd]⟩

theorem lines_ne_nil (s : List Char) : lines s ≠ [] := by
  fun_cases lines s <;> simp

/-- A text without a line feed is one line. -/
theorem lines_of_not_mem {s : List Char} (h : '\n' ∉ s) : lines s = [s] := by
  fun_induction lines s with
  | case1 => rfl
  | case2 => simp at h
  | case3 c cs _ hl => exact absurd hl (lines_ne_nil cs)
  | case4 c cs _ l ls hl ih =>
    rw [ih (by simp at h; exact h.2)] at hl
    obtain ⟨rfl, rfl⟩ := List.cons.inj hl
    rfl

end PacketBudget.Text
