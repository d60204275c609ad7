import PacketBudget.Pattern.Fault

/-!
The form of a pattern, as it is written: which part stands inside which, and where each part
stands.
-/

namespace PacketBudget.Pattern

inductive Flag
  | ignoreCase
  | multiLine
  | dotAll
  | lazy
  | unicode
  | returns
  /-- Blanks and comments in the pattern say nothing. -/
  | verbose
  deriving DecidableEq, Repr

/-- One character of a group of flags. -/
inductive FlagItem
  | minus
  | flag (f : Flag)
  deriving DecidableEq, Repr

/-- What a group of flags makes of `f`, if it names it. -/
def flagValue? (f : Flag) : List FlagItem → Option Bool
  | [] => none
  | .minus :: is => if FlagItem.flag f ∈ is then some false else none
  | .flag g :: is => if g = f then some true else flagValue? f is

/-- A place between two characters that a pattern asks for. -/
inductive LookKind
  | lineStart
  | lineStop
  | textStart
  | textStop
  | wordEdge
  | noWordEdge
  | wordStart
  | wordStop
  | wordStartHalf
  | wordStopHalf
  deriving DecidableEq, Repr

/-- Classes with a letter of their own. -/
inductive Shorthand
  | digit
  | space
  | word
  deriving DecidableEq, Repr

/-- Classes with a name. -/
inductive NamedClass
  | alnum
  | alpha
  | ascii
  | blank
  | cntrl
  | digit
  | graph
  | lower
  | print
  | punct
  | space
  | upper
  | word
  | xdigit
  deriving DecidableEq, Repr

def NamedClass.ofName? (name : List Char) : Option NamedClass :=
  [("alnum", alnum), ("alpha", alpha), ("ascii", ascii), ("blank", blank), ("cntrl", cntrl),
    ("digit", digit), ("graph", graph), ("lower", lower), ("print", print), ("punct", punct),
    ("space", space), ("upper", upper), ("word", word), ("xdigit", xdigit)].lookup
    (String.ofList name)

/-- A character that a pattern asks for. -/
structure Literal where
  span : Span
  char : Char
  /-- It is written as a byte, by two hexadecimal digits. -/
  isByte : Bool := false
  deriving DecidableEq, Repr

/-- The smallest parts of a pattern. -/
inductive Atom
  | literal (l : Literal)
  | dot (span : Span)
  | look (span : Span) (kind : LookKind)
  | shorthand (span : Span) (kind : Shorthand) (negated : Bool)
  /-- Characters with a property of the given name. -/
  | property (span : Span) (name : List Char)
  deriving DecidableEq, Repr

def Atom.span : Atom → Span
  | literal l => l.span
  | dot s | look s _ | shorthand s .. | property s _ => s

inductive SetOp
  | inter
  | diff
  | symmDiff
  deriving DecidableEq, Repr

/-- What stands between brackets. -/
inductive SetTerm
  | empty (span : Span)
  | literal (l : Literal)
  | range (span : Span) (low high : Literal)
  | named (span : Span) (kind : NamedClass) (negated : Bool)
  | shorthand (span : Span) (kind : Shorthand) (negated : Bool)
  | property (span : Span) (name : List Char)
  | bracket (span : Span) (negated : Bool) (set : SetTerm)
  | union (span : Span) (items : List SetTerm)
  | op (span : Span) (op : SetOp) (left right : SetTerm)

def SetTerm.span : SetTerm → Span
  | literal l => l.span
  | empty s | range s .. | named s .. | shorthand s .. | property s .. | bracket s .. | union s ..
  | op s .. => s

inductive Term
  | empty (span : Span)
  /-- Flags that hold up to the end of the group. -/
  | flags (span : Span) (items : List FlagItem)
  | atom (a : Atom)
  | bracket (span : Span) (negated : Bool) (set : SetTerm)
  /-- A repetition; `isLazy` says that it is written with a question mark behind it. -/
  | times (span : Span) (least : Nat) (most : Option Nat) (isLazy : Bool) (term : Term)
  /-- A group; `keeps` says that what meets it is to be remembered. -/
  | group (span : Span) (keeps : Bool) (flags : List FlagItem) (term : Term)
  | row (span : Span) (terms : List Term)
  | choice (span : Span) (terms : List Term)

def Term.span : Term → Span
  | atom a => a.span
  | empty s | flags s _ | bracket s .. | times s .. | group s .. | row s _ | choice s _ => s

/-- Whether something can be repeated. -/
def Term.isRepeatable : Term → Bool
  | empty _ | flags .. => false
  | _ => true

/-- A fault if `depth` more levels are too many. -/
def checkDepth (depth : Nat) (span : Span) : Except Fault Unit :=
  if maxDepth < depth then fault .nesting span else .ok ()

mutual

/-- The first part of a class, from the left, that is nested too deep. -/
def SetTerm.check (depth : Nat) : SetTerm → Except Fault Unit
  | bracket s _ set => checkDepth (depth + 1) s >>= fun _ => set.check (depth + 1)
  | union s items => checkDepth (depth + 1) s >>= fun _ => SetTerm.checkAll (depth + 1) items
  | op s _ l r =>
    checkDepth (depth + 1) s >>= fun _ => l.check (depth + 1) >>= fun _ => r.check (depth + 1)
  | _ => .ok ()

def SetTerm.checkAll (depth : Nat) : List SetTerm → Except Fault Unit
  | [] => .ok ()
  | t :: ts => t.check depth >>= fun _ => SetTerm.checkAll depth ts

end

mutual

/-- The first part, from the left, that is nested too deep. -/
def Term.check (depth : Nat) : Term → Except Fault Unit
  | bracket s _ set => checkDepth (depth + 1) s >>= fun _ => set.check (depth + 1)
  | times s _ _ _ t => checkDepth (depth + 1) s >>= fun _ => t.check (depth + 1)
  | group s _ _ t => checkDepth (depth + 1) s >>= fun _ => t.check (depth + 1)
  | row s ts => checkDepth (depth + 1) s >>= fun _ => Term.checkAll (depth + 1) ts
  | choice s ts => checkDepth (depth + 1) s >>= fun _ => Term.checkAll (depth + 1) ts
  | _ => .ok ()

def Term.checkAll (depth : Nat) : List Term → Except Fault Unit
  | [] => .ok ()
  | t :: ts => t.check depth >>= fun _ => Term.checkAll depth ts

end

end PacketBudget.Pattern
