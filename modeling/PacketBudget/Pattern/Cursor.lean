import PacketBudget.Pattern.Term

/-!
Reading along a pattern: the part that is still to be read, and where it starts. Main statement:
what a cursor passes over and what is left of it are the text that was there.
-/

namespace PacketBudget.Pattern

structure Cursor where
  rest : List Char
  place : Place := {}
  /-- Blanks and comments are passed over. -/
  verbose : Bool := false
  deriving Repr

namespace Cursor

def atEnd (c : Cursor) : Bool := c.rest.isEmpty

/-- The stretch from `start` to where the cursor is. -/
def since (c : Cursor) (start : Place) : Span := ⟨start, c.place⟩

/-- The empty stretch where the cursor is. -/
def point (c : Cursor) : Span := .point c.place

/-- The stretch of the next character. -/
def charSpan (c : Cursor) : Span := ⟨c.place, c.place.behind (c.rest.take 1)⟩

/-- Passes over `n` characters. -/
def pass (c : Cursor) (n : Nat) : Cursor :=
  { c with rest := c.rest.drop n, place := c.place.behind (c.rest.take n) }

/-- How many characters of a text are blanks and comments in front; a comment goes from `#` to the
end of its line. -/
def blankLength (inComment : Bool) : List Char → Nat
  | [] => 0
  | d :: ds =>
    if inComment then 1 + blankLength (d ≠ '\n') ds
    else if Text.isBlank d then 1 + blankLength false ds
    else if d = '#' then 1 + blankLength true ds
    else 0

/-- Passes over blanks and comments, where they say nothing. -/
def skip (c : Cursor) : Cursor := if c.verbose then c.pass (blankLength false c.rest) else c

/-- Passes over a character and the blanks behind it. -/
def next (c : Cursor) : Cursor := (c.pass 1).skip

/-- Passes over a text, if it is what comes next. -/
def eat? (c : Cursor) (s : String) : Option Cursor :=
  if s.toList.isPrefixOf c.rest then some (c.pass s.length) else none

/-- Whether `d` comes next. -/
def startsWith (c : Cursor) (d : Char) : Bool := c.rest.head? = some d

/-- The character behind the next one. A `#` behind blanks ends the blanks before the first
character that is none. -/
def peek (c : Cursor) : Option Char :=
  if c.verbose then go false c.rest.tail c.rest.tail else c.rest.tail.head?
where
  go (inComment : Bool) (whole : List Char) : List Char → Option Char
    | [] => whole.head?
    | d :: ds =>
      if Text.isBlank d then go inComment whole ds
      else if d = '#' ∧ inComment = false then go true whole ds
      else some d

theorem take_append_rest_pass (c : Cursor) (n : Nat) : c.rest.take n ++ (c.pass n).rest = c.rest := by
  simp [pass]

theorem place_pass (c : Cursor) (n : Nat) :
    (c.pass n).place = c.place.behind (c.rest.take n) := rfl

theorem length_rest_skip_le (c : Cursor) : c.skip.rest.length ≤ c.rest.length := by
  unfold skip
  split
  · simp [pass]
  · exact Nat.le_refl _

theorem length_rest_pass_lt {c : Cursor} {d : Char} {ds : List Char} (h : c.rest = d :: ds) :
    (c.pass 1).rest.length < c.rest.length := by
  simp [pass, h]

theorem length_rest_next_lt {c : Cursor} {d : Char} {ds : List Char} (h : c.rest = d :: ds) :
    c.next.rest.length < c.rest.length :=
  Nat.lt_of_le_of_lt (length_rest_skip_le _) (length_rest_pass_lt h)

/-- Takes characters for which `p` holds, each with the blanks behind it; `taken` are those that
were taken before, the last one first. -/
def collect (p : Char → Bool) (taken : List Char) (c : Cursor) : List Char × Cursor :=
  match _h : c.rest with
  | [] => (taken.reverse, c)
  | d :: _ => if p d then collect p (d :: taken) c.next else (taken.reverse, c)
termination_by c.rest.length
decreasing_by exact length_rest_next_lt _h

/-- Takes all characters for which `p` holds. -/
def takeWhile (c : Cursor) (p : Char → Bool) : List Char × Cursor := collect p [] c

end Cursor

end PacketBudget.Pattern
