import PacketBudget.Pattern.Place

/-!
What can be wrong with a pattern, with the wording of each defect.
-/

namespace PacketBudget.Pattern

inductive Defect
  | classEscape
  | classRangeOrder
  | classRangeBound
  | classUnclosed
  | numberInvalid
  | hexEmpty
  | hexNoCharacter
  | hexDigit
  | escapeCutShort
  | escapeUnknown
  | flagDangling
  | flagDuplicate
  | flagNegatedTwice
  | flagCutShort
  | flagUnknown
  | nameDuplicate
  | nameEmpty
  | nameCharacter
  | nameUnclosed
  | groupUnclosed
  | groupUnopened
  | nesting
  | countOrder
  | countEmpty
  | countUnclosed
  | nothingToRepeat
  | wordUnclosed
  | wordUnknown
  | wordCutShort
  | propertyName
  | backReference
  | lookAround
  /-- A class of all of Unicode, where only bytes are meant. -/
  | unicodeInBytes
  /-- Bytes that could be part of a character only. -/
  | partOfCharacter
  /-- There are no tables of properties here. -/
  | noProperty
  | noPropertyValue
  /-- There are no tables of digits, blanks and word characters beyond ASCII here. -/
  | noShorthand
  /-- There are no tables of upper and lower case beyond ASCII here. -/
  | noCaseFolding
  deriving DecidableEq, Repr

/-- How deep a pattern may be nested. -/
def maxDepth : Nat := 250

def Defect.message : Defect → String
  | classEscape => "invalid escape sequence found in character class"
  | classRangeOrder => "invalid character class range, the start must be <= the end"
  | classRangeBound => "invalid range boundary, must be a literal"
  | classUnclosed => "unclosed character class"
  | numberInvalid => "decimal literal invalid"
  | hexEmpty => "hexadecimal literal empty"
  | hexNoCharacter => "hexadecimal literal is not a Unicode scalar value"
  | hexDigit => "invalid hexadecimal digit"
  | escapeCutShort => "incomplete escape sequence, reached end of pattern prematurely"
  | escapeUnknown => "unrecognized escape sequence"
  | flagDangling => "dangling flag negation operator"
  | flagDuplicate => "duplicate flag"
  | flagNegatedTwice => "flag negation operator repeated"
  | flagCutShort => "expected flag but got end of regex"
  | flagUnknown => "unrecognized flag"
  | nameDuplicate => "duplicate capture group name"
  | nameEmpty => "empty capture group name"
  | nameCharacter => "invalid capture group character"
  | nameUnclosed => "unclosed capture group name"
  | groupUnclosed => "unclosed group"
  | groupUnopened => "unopened group"
  | nesting => s!"exceed the maximum number of nested parentheses/brackets ({maxDepth})"
  | countOrder => "invalid repetition count range, the start must be <= the end"
  | countEmpty => "repetition quantifier expects a valid decimal"
  | countUnclosed => "unclosed counted repetition"
  | nothingToRepeat => "repetition operator missing expression"
  | wordUnclosed =>
    "special word boundary assertion is either unclosed or contains an invalid character"
  | wordUnknown => "unrecognized special word boundary assertion, " ++
      "valid choices are: start, end, start-half or end-half"
  | wordCutShort => "found either the beginning of a special word boundary or a " ++
      "bounded repetition on a \\b with an opening brace, but no closing brace"
  | propertyName => "invalid Unicode character class"
  | backReference => "backreferences are not supported"
  | lookAround => "look-around, including look-ahead and look-behind, is not supported"
  | unicodeInBytes => "Unicode not allowed here"
  | partOfCharacter => "pattern can match invalid UTF-8"
  | noProperty => "Unicode property not found"
  | noPropertyValue => "Unicode property value not found"
  | noShorthand => "Unicode-aware Perl class not found " ++
      "(make sure the unicode-perl feature is enabled)"
  | noCaseFolding => "Unicode-aware case insensitivity matching is not available " ++
      "(make sure the unicode-case feature is enabled)"

/-- A defect and the stretch of the pattern that has it. -/
structure Fault where
  defect : Defect
  span : Span
  /-- The stretch that the defective one repeats. -/
  earlier : Option Span := none
  deriving DecidableEq, Repr

/-- A fault of one stretch. -/
def fault (d : Defect) (s : Span) : Except Fault α := .error ⟨d, s, none⟩

/-- The fault, drawn into the pattern. -/
def Fault.message (pattern : List Char) (f : Fault) : String :=
  "regex parse error:\n" ++ draw pattern (f.earlier.toList ++ [f.span]) ++
    "error: " ++ f.defect.message

end PacketBudget.Pattern
