import PacketBudget.Pattern.Expr

/-!
What the form of a pattern means under the flags that hold. Flags named within a group hold up to
the end of the group, across its alternatives.
-/

namespace PacketBudget.Pattern

/-- The flags that decide what a pattern means. -/
structure Flags where
  ignoreCase : Bool := false
  multiLine : Bool := false
  dotAll : Bool := false
  /-- A repetition takes as little as it can, unless a question mark stands behind it. -/
  isLazy : Bool := false
  /-- Classes and cases are those of all characters, and not of bytes. -/
  unicode : Bool := true
  /-- A line may end with a carriage return and a line feed. -/
  returns : Bool := false
  deriving DecidableEq, Repr

/-- The flags, with what a group of flags makes of them. -/
def Flags.set (f : Flags) (items : List FlagItem) : Flags where
  ignoreCase := (flagValue? .ignoreCase items).getD f.ignoreCase
  multiLine := (flagValue? .multiLine items).getD f.multiLine
  dotAll := (flagValue? .dotAll items).getD f.dotAll
  isLazy := (flagValue? .lazy items).getD f.isLazy
  unicode := (flagValue? .unicode items).getD f.unicode
  returns := (flagValue? .returns items).getD f.returns

/-- The character of a literal. Bytes beyond ASCII are parts of characters. -/
def Literal.mean (f : Flags) (l : Literal) : Except Fault Char :=
  if !f.unicode && l.isByte && 127 < l.char.toNat then fault .partOfCharacter l.span else .ok l.char

/-- The character of a literal in a class. -/
def Literal.meanInSet (f : Flags) (l : Literal) : Except Fault Char :=
  if !f.unicode && !l.isByte && 127 < l.char.toNat then fault .unicodeInBytes l.span
  else l.mean f

/-- A set without regard to case. -/
def foldCase (f : Flags) (span : Span) (s : Charset) : Except Fault Charset :=
  if !f.ignoreCase then .ok s
  else if f.unicode then fault .noCaseFolding span
  else .ok s.anyCase

/-- A set or the rest of the characters. The rest of the bytes has parts of characters among
them. -/
def complement (f : Flags) (span : Span) (negated : Bool) (s : Charset) : Except Fault Charset :=
  if !negated then .ok s
  else if f.unicode then .ok s.compl
  else fault .partOfCharacter span

/-- The set of the characters in some ranges. -/
def Flags.charset (f : Flags) (rs : List (Char × Char)) : Charset := .ofChars (!f.unicode) rs

def Shorthand.mean (f : Flags) (span : Span) (negated : Bool) (k : Shorthand) :
    Except Fault Charset :=
  if f.unicode then fault .noShorthand span else complement f span negated (f.charset k.ranges)

def NamedClass.mean (f : Flags) (span : Span) (negated : Bool) (k : NamedClass) :
    Except Fault Charset :=
  foldCase f span (f.charset k.ranges) >>= complement f span negated

/-- The name of a property without what does not matter in it. -/
def plainName (name : List Char) : List Char :=
  let lower := (name.filter fun d => d.toNat < 128).map Char.toLower
  let stem := if lower.take 2 = ['i', 's'] then lower.drop 2 else lower
  stem.filter fun d => d ≠ ' ' && d ≠ '_' && d ≠ '-'

/-- There is no table of any property. Three names can be those of values too, and are missed as
such. -/
def missProperty (f : Flags) (span : Span) (name : List Char) : Except Fault α :=
  if !f.unicode then fault .unicodeInBytes span
  else if String.ofList (plainName name) ∈ ["cf", "sc", "lc"] then fault .noPropertyValue span
  else fault .noProperty span

mutual

/-- Whether nothing stands in a class, so that its case does not matter. -/
def SetTerm.isBare : SetTerm → Bool
  | empty _ => true
  | bracket _ _ set => set.isBare
  | union _ items => SetTerm.areBare items
  | op _ _ left right => left.isBare && right.isBare
  | _ => false

def SetTerm.areBare : List SetTerm → Bool
  | [] => true
  | t :: ts => t.isBare && SetTerm.areBare ts

end

/-- The set of a class without regard to case. -/
def SetTerm.foldCase (f : Flags) (span : Span) (t : SetTerm) (s : Charset) : Except Fault Charset :=
  if t.isBare then .ok s else Pattern.foldCase f span s

def SetOp.mean : SetOp → Charset → Charset → Charset
  | inter => .inter
  | diff => .diff
  | symmDiff => .symmDiff

mutual

/-- The set of what stands in a class. -/
def SetTerm.mean (f : Flags) : SetTerm → Except Fault Charset
  | empty _ => .ok (f.charset [])
  | literal l => (l.meanInSet f).map fun c => f.charset [(c, c)]
  | range _ low high => do
    let low ← low.meanInSet f
    let high ← high.meanInSet f
    pure (f.charset [(low, high)])
  | named span kind negated => kind.mean f span negated
  | shorthand span kind negated => kind.mean f span negated
  | property span name => missProperty f span name
  | bracket span negated set => do
    let s ← set.mean f
    let s ← set.foldCase f span s
    complement f span negated s
  | union _ items => (SetTerm.meanAll f [] items).map (.ofRanges · (!f.unicode))
  | op _ kind left right => do
    let s ← left.mean f
    let t ← right.mean f
    let t ← right.foldCase f right.span t
    let s ← left.foldCase f left.span s
    pure (kind.mean s t)

/-- The ranges of the sets of some items, put before those that are there. -/
def SetTerm.meanAll (f : Flags) (ranges : List (Nat × Nat)) :
    List SetTerm → Except Fault (List (Nat × Nat))
  | [] => .ok ranges
  | t :: ts =>
    match t.mean f with
    | .error e => .error e
    | .ok s => SetTerm.meanAll f (s.ranges ++ ranges) ts

end

/-- The place that is asked for; edges of words are those of all characters or of ASCII. -/
def LookKind.mean (f : Flags) (k : LookKind) : Look :=
  let edge (l : Look) : Look := if f.unicode then .unicodeEdge else l
  match k with
  | lineStart =>
    if !f.multiLine then .textStart else if f.returns then .returnStart else .lineStart
  | lineStop => if !f.multiLine then .textStop else if f.returns then .returnStop else .lineStop
  | textStart => .textStart
  | textStop => .textStop
  | wordEdge => edge .wordEdge
  | noWordEdge => edge .noWordEdge
  | wordStart => edge .wordStart
  | wordStop => edge .wordStop
  | wordStartHalf => edge .wordStartHalf
  | wordStopHalf => edge .wordStopHalf

/-- The characters of a dot. -/
def dotSet (f : Flags) : Charset :=
  if f.dotAll then (f.charset []).compl
  else if f.returns then (f.charset [('\n', '\n'), ('\r', '\r')]).compl
  else (f.charset [('\n', '\n')]).compl

def Atom.mean (f : Flags) : Atom → Except Fault Expr
  | literal l => do
    let c ← l.mean f
    if !f.ignoreCase then pure (.ofNumber c.toNat)
    else if f.unicode then fault .noCaseFolding l.span
    else pure (.ofSet (f.charset [(c, c)]).anyCase)
  | dot span => if f.unicode then .ok (.ofSet (dotSet f)) else fault .partOfCharacter span
  | look _ kind => .ok (.look (kind.mean f))
  | shorthand span kind negated => (kind.mean f span negated).map .ofSet
  | property span name => missProperty f span name

mutual

/-- What a term means, and the flags that hold behind it. -/
def Term.mean (f : Flags) : Term → Except Fault (Expr × Flags)
  | empty _ => .ok (.empty, f)
  | flags _ items => .ok (.empty, f.set items)
  | atom a => (a.mean f).map fun e => (e, f)
  | bracket span negated set => do
    let s ← set.mean f
    let s ← set.foldCase f span s
    let s ← complement f span negated s
    pure (.ofSet s, f)
  | times _ least most isLazy t => do
    let (e, f') ← t.mean f
    pure (e.repeated least most (isLazy != f.isLazy), f')
  | group _ keeps items t => do
    let (e, _) ← t.mean (f.set items)
    pure (if keeps then .group e else e, f)
  | row _ ts => do
    let (es, f) ← Term.meanAll f [] ts
    pure (.inRow es, f)
  | choice _ ts => do
    let (es, f) ← Term.meanAll f [] ts
    pure (.anyOf es, f)

/-- What some terms mean, behind what is there already, the last one first. -/
def Term.meanAll (f : Flags) (es : List Expr) : List Term → Except Fault (List Expr × Flags)
  | [] => .ok (es.reverse, f)
  | t :: ts =>
    match t.mean f with
    | .error e => .error e
    | .ok (e, f) => Term.meanAll f (e :: es) ts

end

end PacketBudget.Pattern
