/-!
Places between two characters, as patterns ask for them: edges of the text, of lines and of words.
A place is known by what kind of character there is on either side of it. Main statement: a place
is an edge of a word exactly if it is a start or a stop of one.
-/

namespace PacketBudget.Pattern

/-- What there is on one side of a place. -/
inductive Side
  /-- Nothing: the text starts or stops there. -/
  | edge
  | lineFeed
  | carriageReturn
  /-- An ASCII letter, a digit or an underscore. -/
  | word
  | other
  deriving DecidableEq, Repr, Hashable

def Side.ofChar (c : Char) : Side :=
  if c = '\n' then lineFeed
  else if c = '\r' then carriageReturn
  else if c.isAlphanum || c = '_' then word
  else other

def Side.of? : Option Char → Side
  | none => edge
  | some c => ofChar c

/-- What a place has around it. -/
structure Around where
  before : Side
  after : Side
  deriving DecidableEq, Repr

/-- What a pattern can ask of a place. -/
inductive Look
  | textStart
  | textStop
  | lineStart
  | lineStop
  /-- The start of a line that may end with a carriage return and a line feed. -/
  | returnStart
  | returnStop
  | wordEdge
  | noWordEdge
  | wordStart
  | wordStop
  | wordStartHalf
  | wordStopHalf
  /-- An edge of a word of all of Unicode, of which there is no table here. -/
  | unicodeEdge
  deriving DecidableEq, Repr

def Look.holds (a : Around) : Look → Bool
  | textStart => a.before = .edge
  | textStop => a.after = .edge
  | lineStart => a.before = .edge || a.before = .lineFeed
  | lineStop => a.after = .edge || a.after = .lineFeed
  | returnStart =>
    a.before = .edge || a.before = .lineFeed || a.before = .carriageReturn && a.after ≠ .lineFeed
  | returnStop =>
    a.after = .edge || a.after = .carriageReturn || a.after = .lineFeed && a.before ≠ .carriageReturn
  | wordEdge => (a.before = .word) != (a.after = .word)
  | noWordEdge => (a.before = .word) == (a.after = .word)
  | wordStart => a.before ≠ .word && a.after = .word
  | wordStop => a.before = .word && a.after ≠ .word
  | wordStartHalf => a.before ≠ .word
  | wordStopHalf => a.after ≠ .word
  | unicodeEdge => false

theorem Look.holds_wordEdge (a : Around) :
    wordEdge.holds a = (wordStart.holds a || wordStop.holds a) := by
  by_cases hb : a.before = .word <;> by_cases ha : a.after = .word <;> simp [holds, hb, ha]

end PacketBudget.Pattern
