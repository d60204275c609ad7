import PacketBudget.Pattern.Charset
import PacketBudget.Pattern.Look

/-!
What a pattern asks of a text. Expressions are put together by functions that keep them small: texts
side by side are one text, single characters as alternatives are one set, and alternatives that
start alike have their start in common. Main statement: the empty text adds nothing to a row.
-/

namespace PacketBudget.Pattern

inductive Expr
  | empty
  /-- The bytes of a text that is not empty. -/
  | literal (bytes : List UInt8)
  | set (s : Charset)
  | look (l : Look)
  /-- At least `least` times, and at most `most` times if that is given. -/
  | times (e : Expr) (least : Nat) (most : Option Nat) (isLazy : Bool)
  /-- What is remembered of a text. -/
  | group (e : Expr)
  | row (es : List Expr)
  | choice (es : List Expr)
  deriving Repr

/-- What is known of the texts that meet an expression. -/
structure Facts where
  /-- The least number of bytes; none if no text meets it. -/
  shortest : Option Nat
  /-- The greatest number of bytes; none if there is none, or no text meets it. -/
  longest : Option Nat
  /-- They are only found at the start of a text. -/
  atStart : Bool := false
  /-- They are only found at its end. -/
  atStop : Bool := false
  hasLook : Bool := false
  hasGroup : Bool := false
  hasUnicodeEdge : Bool := false

namespace Facts

/-- The facts of what the empty text meets alone. -/
def blank : Facts := { shortest := some 0, longest := some 0 }

/-- The facts of what no text meets. -/
def none : Facts := { shortest := .none, longest := .none }

def isBlank (f : Facts) : Bool := f.longest = some 0

/-- The facts of what meets one expression and then another. -/
def followedBy (f g : Facts) : Facts where
  shortest := do pure ((← f.shortest) + (← g.shortest))
  longest := do pure ((← f.longest) + (← g.longest))
  atStart := f.atStart || f.isBlank && g.atStart
  atStop := g.atStop || g.isBlank && f.atStop
  hasLook := f.hasLook || g.hasLook
  hasGroup := f.hasGroup || g.hasGroup
  hasUnicodeEdge := f.hasUnicodeEdge || g.hasUnicodeEdge

/-- The facts of what meets one expression or another. -/
def orElse (f g : Facts) : Facts where
  shortest := do pure (min (← f.shortest) (← g.shortest))
  longest := do pure (max (← f.longest) (← g.longest))
  atStart := f.atStart && g.atStart
  atStop := f.atStop && g.atStop
  hasLook := f.hasLook || g.hasLook
  hasGroup := f.hasGroup || g.hasGroup
  hasUnicodeEdge := f.hasUnicodeEdge || g.hasUnicodeEdge

end Facts

namespace Expr

mutual

/-- What is known of the texts that meet an expression. -/
def facts : Expr → Facts
  | empty => .blank
  | literal bs => { shortest := some bs.length, longest := some bs.length }
  | set s => { shortest := s.shortest?, longest := s.longest? }
  | look l =>
    { Facts.blank with
      atStart := l = .textStart
      atStop := l = .textStop
      hasLook := true
      hasUnicodeEdge := l = .unicodeEdge }
  | times e least most _ =>
    let f := e.facts
    { f with
      shortest := f.shortest.map (· * least)
      longest := do pure ((← f.longest) * (← most))
      atStart := 0 < least && f.atStart
      atStop := 0 < least && f.atStop }
  | group e => { e.facts with hasGroup := true }
  | row es => rowFacts .blank es
  | choice [] => .none
  | choice (e :: es) => choiceFacts e.facts es

/-- The facts of a row that starts with what has the facts `f`. -/
def rowFacts (f : Facts) : List Expr → Facts
  | [] => f
  | e :: es => rowFacts (f.followedBy e.facts) es

/-- The facts of alternatives, some of which have the facts `f`. -/
def choiceFacts (f : Facts) : List Expr → Facts
  | [] => f
  | e :: es => choiceFacts (f.orElse e.facts) es

end

mutual

/-- Whether two expressions are the same. Each group is one of its own. -/
def alike : Expr → Expr → Bool
  | empty, empty => true
  | literal a, literal b => a = b
  | set s, set t => s = t
  | look l, look k => l = k
  | times e least most isLazy, times f least' most' isLazy' =>
    least = least' && most = most' && isLazy = isLazy' && e.alike f
  | row es, row fs => allAlike es fs
  | choice es, choice fs => allAlike es fs
  | _, _ => false

def allAlike : List Expr → List Expr → Bool
  | [], [] => true
  | e :: es, f :: fs => e.alike f && allAlike es fs
  | _, _ => false

end

/-- The character with a number. -/
def ofNumber (n : Nat) : Expr := literal (String.utf8EncodeChar (Char.ofNat n))

/-- A character of a set. -/
def ofSet (s : Charset) : Expr :=
  if s.isEmpty then set { ofBytes := true }
  else
    match s.single? with
    | some n => ofNumber n
    | none => set s

/-- A row has the parts of a row in it as its own, and no empty ones. -/
def parts : Expr → List Expr
  | empty => []
  | row es => es
  | e => [e]

/-- One more part in front of a row. -/
def consPart (es : List Expr) (e : Expr) : List Expr :=
  match e, es with
  | literal a, literal b :: es => literal (a ++ b) :: es
  | e, es => e :: es

/-- One expression after the other. -/
def inRow (es : List Expr) : Expr :=
  match (es.flatMap parts).reverse.foldl consPart [] with
  | [] => empty
  | [e] => e
  | es => row es

/-- Repetition. What no text but the empty one meets need not be repeated. -/
def repeated (e : Expr) (least : Nat) (most : Option Nat) (isLazy : Bool) : Expr :=
  let blank := e.facts.isBlank
  let least := if blank then min least 1 else least
  let most := if blank then some (min (most.getD 1) 1) else most
  if most = some 0 then empty
  else if least = 1 ∧ most = some 1 then e
  else times e least most isLazy

/-- Alternatives have the alternatives of an alternative as their own. -/
def branches : Expr → List Expr
  | choice es => es
  | e => [e]

/-- The number of the character whose bytes these are, if they are those of just one. -/
def charOfBytes? : List UInt8 → Option Nat
  | [a] => some a.toNat
  | [a, b] => if 0xC0 ≤ a then some (a.toNat % 32 * 64 + b.toNat % 64) else none
  | [a, b, c] =>
    if 0xE0 ≤ a then some ((a.toNat % 16 * 64 + b.toNat % 64) * 64 + c.toNat % 64) else none
  | [a, b, c, d] =>
    if 0xF0 ≤ a then
      some (((a.toNat % 8 * 64 + b.toNat % 64) * 64 + c.toNat % 64) * 64 + d.toNat % 64)
    else none
  | _ => none

/-- The number of the character that an expression is. -/
def char? : Expr → Option Nat
  | literal bs => charOfBytes? bs
  | _ => none

def charset? : Expr → Option Charset
  | set s => some s
  | _ => none

/-- One alternative or another, where they have no start in common. -/
def oneOf (es : List Expr) : Expr :=
  match es.flatMap branches with
  | [] => set { ofBytes := true }
  | [e] => e
  | es =>
    match es.mapM char?, es.mapM charset? with
    | some ns, _ => ofSet (.ofRanges (ns.map fun n => (n, n)) false)
    | _, some ss => ofSet (.ofRanges (ss.flatMap (·.ranges)) false)
    | none, none => choice es

/-- How many parts two rows have in common at their start. -/
def commonLength : List Expr → List Expr → Nat
  | e :: es, f :: fs => if e.alike f then commonLength es fs + 1 else 0
  | _, _ => 0

/-- The parts of a row. -/
def row? : Expr → Option (List Expr)
  | row es => some es
  | _ => none

/-- One alternative or another. -/
def anyOf (es : List Expr) : Expr :=
  match (es.flatMap branches).mapM row? with
  | some (first :: second :: rest) =>
    let n := (second :: rest).foldl (fun n r => min n (commonLength first r)) first.length
    if n = 0 then oneOf es
    else inRow (first.take n ++ [oneOf ((first :: second :: rest).map fun r => inRow (r.drop n))])
  | _ => oneOf es

theorem inRow_nil : inRow [] = empty := rfl

theorem inRow_cons_empty (es : List Expr) : inRow (empty :: es) = inRow es := rfl

end Expr

end PacketBudget.Pattern
