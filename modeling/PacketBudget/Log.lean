import PacketBudget.Pattern
import PacketBudget.Text.Blank
import PacketBudget.Text.Terminal

/-!
Lines of a log, and which of them a filter lets through. A filter is a list of directives, each a
level for the targets that start with a name; of those that apply, the longest name decides. A
filter may also have a pattern, and then only messages pass in which it is found.
-/

namespace PacketBudget

inductive Level
  | error
  | warn
  | info
  | debug
  | trace
  deriving DecidableEq, Repr

structure LogLine where
  level : Level
  target : String
  message : String
  deriving DecidableEq, Repr

namespace Level

/-- From `1` for errors, the most severe, to `5`. -/
def rank : Level → Nat
  | error => 1
  | warn => 2
  | info => 3
  | debug => 4
  | trace => 5

def name : Level → String
  | error => "ERROR"
  | warn => "WARN"
  | info => "INFO"
  | debug => "DEBUG"
  | trace => "TRACE"

/-- The rank that a word lets through; case does not matter, and `off` lets nothing through. -/
def limit? (word : String) : Option Nat :=
  ["off", "error", "warn", "info", "debug", "trace"].idxOf? word.toLower

end Level

/-- The message as it stands in the log: lines after the first are set in by four blanks, and what
would control a terminal is left out. -/
def LogLine.shown (l : LogLine) : String := Text.plain (l.message.replace "\n" "\n    ")

/-- The line as it is printed; the name of the level is set in five columns. -/
def LogLine.text (l : LogLine) : String :=
  let gap := "".pushn ' ' (5 - l.level.name.length)
  "[" ++ l.level.name ++ gap ++ " " ++ l.target ++ "] " ++ l.shown

namespace Log

/-- Lets targets that start with `target` through up to a rank; no target stands for all. -/
structure Directive where
  target : Option String
  limit : Nat
  deriving DecidableEq, Repr

/-- A filter, and the parts of its text that say nothing. -/
structure Filter where
  directives : List Directive := []
  /-- Only messages in which this is found pass. -/
  pattern : Option Pattern := none
  faults : List String := []

def trimmed (s : String) : String := String.ofList (Text.trim s.toList)

/-- What a comma leaves of the text of a filter: `level`, `target` or `target=level`. -/
def Directive.read (s : String) : Except String Directive :=
  match s.splitOn "=" with
  | [a] =>
    match Level.limit? a with
    | some limit => .ok ⟨none, limit⟩
    | none => .ok ⟨some a, 5⟩
  | [a, b] =>
    let b := trimmed b
    if b = "" then .ok ⟨some a, 5⟩
    else
      match Level.limit? b with
      | some limit => .ok ⟨some a, limit⟩
      | none => .error s!"invalid logging spec '{b}'"
  | _ => .error s!"invalid logging spec '{s}'"

namespace Filter

/-- A directive for the same target takes the place of an earlier one. -/
def add (f : Filter) (d : Directive) : Filter :=
  if f.directives.any (·.target = d.target) then
    { f with directives := f.directives.map fun e => if e.target = d.target then d else e }
  else { f with directives := f.directives ++ [d] }

/-- The filter with one more directive, as it is read. -/
def addText (f : Filter) (part : String) : Filter :=
  match Directive.read part with
  | .ok d => f.add d
  | .error e => { f with faults := f.faults ++ [e] }

/-- The filter with a pattern, as it is read. -/
def setPattern (f : Filter) (pattern : String) : Filter :=
  match Pattern.read pattern with
  | .ok p => { f with pattern := some p }
  | .error e => { f with faults := f.faults ++ ["invalid regex filter - " ++ e.message] }

/-- Reads `directive,directive,…`, with `/pattern` after it if messages are to be filtered too. -/
def read (text : String) : Filter :=
  match text.splitOn "/" with
  | directives :: rest =>
    if 1 < rest.length then { faults := [s!"invalid logging spec '{text}' (too many '/'s)"] }
    else
      let parts := (directives.splitOn ",").map trimmed
      rest.foldl setPattern ((parts.filter (· ≠ "")).foldl addText {})
  | [] => {}

/-- How long the name is by which a directive applies. -/
def nameSize (d : Directive) : Nat := (d.target.map String.utf8ByteSize).getD 0

/-- The rank up to which a target is let through: that of the last directive among those with the
longest name. Without directives only errors pass. -/
def limit (f : Filter) (target : String) : Nat :=
  match f.directives with
  | [] => 1
  | directives =>
    let fits := directives.filter fun d =>
      match d.target with
      | some t => t.toList.isPrefixOf target.toList
      | none => true
    (fits.foldl (fun best d =>
        match best with
        | none => some d
        | some b => if nameSize b ≤ nameSize d then some d else some b)
      none).elim 0 Directive.limit

def passes (f : Filter) (l : LogLine) : Bool :=
  l.level.rank ≤ f.limit l.target && f.pattern.all (·.foundIn l.message)

end Filter

end Log

end PacketBudget
