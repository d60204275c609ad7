import PacketBudget.Pattern.Machine.Builder
import PacketBudget.Pattern.Machine.Search
import PacketBudget.Pattern.Meaning
import PacketBudget.Pattern.Reader
import PacketBudget.Pattern.Texts

/-!
Patterns that a text is searched for: characters and classes of them, places, repetitions, groups
and alternatives. The classes that go by a letter, the edges of words and the case of letters are
those of ASCII, and a pattern that asks for those of all of Unicode is refused. So is a pattern whose
machine would be too large, unless it stands for a few texts. Main statement: a pattern of texts is
found where one of them is.
-/

namespace PacketBudget

/-- What a text is searched for. -/
inductive Pattern
  /-- Any of some texts. -/
  | texts (ts : List (List UInt8))
  | machine (m : Pattern.Machine)

/-- Why a text is no pattern. -/
inductive PatternFault
  | malformed (pattern : String) (fault : Pattern.Fault)
  /-- It asks for more room than a pattern may take. -/
  | tooLarge
  /-- It asks for edges of words of all of Unicode. -/
  | unicodeEdge
  deriving DecidableEq, Repr

def PatternFault.message : PatternFault → String
  | malformed pattern fault => fault.message pattern.toList
  | tooLarge => s!"Compiled regex exceeds size limit of {Pattern.maxWeight} bytes."
  | unicodeEdge => "error building NFA"

namespace Pattern

/-- The pattern for an expression. The machine that would read backwards must not be too large
either. -/
def ofExpr (e : Expr) : Except PatternFault Pattern :=
  match e.fewTexts? with
  | some ts => .ok (texts ts)
  | none =>
    match e.machine? false with
    | none => .error .tooLarge
    | some m =>
      if e.facts.hasUnicodeEdge then .error .unicodeEdge
      else if (e.machine? true).isNone then .error .tooLarge
      else .ok (machine m)

/-- The pattern that is written so. What is wrong with its form is told before what is wrong with
its meaning. -/
def read (pattern : String) : Except PatternFault Pattern :=
  match Term.read pattern.toList >>= Term.mean {} with
  | .error f => .error (.malformed pattern f)
  | .ok (e, _) => ofExpr e

/-- Whether a pattern is found in a text. -/
def foundIn (p : Pattern) (text : String) : Bool :=
  match p with
  | texts ts => Texts.foundIn ts text.toUTF8.toList
  | machine m => m.foundIn text

theorem foundIn_texts {ts : List (List UInt8)} {text : String} :
    (texts ts).foundIn text = true ↔ ∃ t ∈ ts, t <:+: text.toUTF8.toList :=
  Texts.foundIn_iff

end Pattern

end PacketBudget
