import PacketBudget.Text.Blank

/-!
Places in the text of a pattern, and the drawing of a text with carets under some of its stretches.
Main statement: the place behind a text is the place behind its parts, one after the other.
-/

namespace PacketBudget.Pattern

/-- A line and a column, both counted from one. -/
structure Place where
  line : Nat := 1
  column : Nat := 1
  deriving DecidableEq, Repr

namespace Place

/-- The place behind a character that stands at `p`. -/
def next (p : Place) (c : Char) : Place :=
  if c = '\n' then ⟨p.line + 1, 1⟩ else ⟨p.line, p.column + 1⟩

/-- The place behind a text that starts at `p`. -/
def behind (p : Place) (s : List Char) : Place := s.foldl next p

theorem behind_append (p : Place) (s t : List Char) :
    p.behind (s ++ t) = (p.behind s).behind t :=
  List.foldl_append

end Place

/-- The stretch from one place to another. -/
structure Span where
  start : Place
  stop : Place
  deriving DecidableEq, Repr

namespace Span

/-- The empty stretch at a place. -/
def point (p : Place) : Span := ⟨p, p⟩

def isOneLine (s : Span) : Bool := s.start.line = s.stop.line

/-- The carets under a stretch of one line, where `column` is the first that is still free. An empty
stretch gets a caret too. -/
def carets (s : Span) (column : Nat) : List Char :=
  List.replicate (s.start.column - column) ' ' ++
    List.replicate (max 1 (s.stop.column - s.start.column)) '^'

/-- The carets under stretches of one line, given in order. -/
def underline : Nat → List Span → List Char
  | _, [] => []
  | column, s :: ss => s.carets column ++ underline (column + (s.carets column).length) ss

/-- What is said of a stretch of several lines. -/
def note (s : Span) : String :=
  s!"on line {s.start.line} (column {s.start.column}) through line {s.stop.line} " ++
    s!"(column {s.stop.column - 1})\n"

end Span

/-- A line without the carriage return before its line feed. -/
def withoutReturn (line : List Char) : List Char :=
  if line.getLast? = some '\r' then line.dropLast else line

/-- The lines of a text, without what ends them; a line feed at its end starts no line. -/
def shownLines (text : List Char) : List (List Char) :=
  let ls := Text.lines text
  ls.dropLast.map withoutReturn ++ ls.getLast?.toList.filter (· ≠ [])

/-- How wide the numbers of lines are written; zero if they are left out, for want of a second
line. -/
def numberWidth (text : List Char) : Nat :=
  let count := (shownLines text).length + if text.getLast? = some '\n' then 1 else 0
  if count ≤ 1 then 0 else (toString count).length

/-- What stands in front of line `n`. -/
def gutter (width n : Nat) : String :=
  if width = 0 then "    "
  else "".pushn ' ' (width - (toString n).length) ++ toString n ++ ": "

/-- The lines of a text, each with the carets that belong to it. -/
def drawLines (width : Nat) (spans : List Span) : Nat → List (List Char) → String
  | _, [] => ""
  | n, l :: ls =>
    let here := spans.filter fun s => s.isOneLine ∧ s.start.line = n
    let margin := List.replicate (if width = 0 then 4 else width + 2) ' '
    let marks := if here = [] then "" else String.ofList (margin ++ Span.underline 1 here) ++ "\n"
    gutter width n ++ String.ofList l ++ "\n" ++ marks ++ drawLines width spans (n + 1) ls

/-- The text with carets under the given stretches. A text of several lines is set between rules,
and stretches that go over lines are told of below it. -/
def draw (text : List Char) (spans : List Span) : String :=
  let lines := drawLines (numberWidth text) spans 1 (shownLines text)
  if '\n' ∈ text then
    let rule := "".pushn '~' 79 ++ "\n"
    rule ++ lines ++ rule ++ String.join ((spans.filter fun s => !s.isOneLine).map Span.note)
  else lines

end PacketBudget.Pattern
