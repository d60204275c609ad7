import PacketBudget.Pattern.Cursor
import PacketBudget.Text.Letter
import PacketBudget.Text.Numeral

/-!
Reading the form of a pattern. Groups and alternatives that are still open are kept on a list, the
innermost first, and the same is done for brackets within brackets; so a pattern is read from left
to right in steps, each of which passes at least one character.
-/

namespace PacketBudget.Pattern

open Text (isBlank isLetter isLetterOrNumber digit? digitIn? numberIn?)

/-! ### Counts -/

def maxCount : Nat := 4294967295

/-- A number in a count, with the blanks around it. What is wrong with it is told apart from the
cursor, for a count that is not closed is told of first. -/
def readCountBound (c : Cursor) : Except Fault Nat × Cursor :=
  let c := c.pass (c.rest.takeWhile isBlank).length
  let start := c.place
  let (digits, c) := c.takeWhile fun d => (digit? d).isSome
  let span := c.since start
  let (_, c) := c.takeWhile isBlank
  let bound := match numberIn? 10 digits with
    | none => fault .countEmpty span
    | some n => if maxCount < n then fault .numberInvalid span else .ok n
  (bound, c)

/-- How often something is to come. -/
structure Count where
  least : Nat
  most : Option Nat
  isLazy : Bool := false

/-- Passes over the question mark behind a repetition, and says whether there is one. -/
def readLazy (c : Cursor) : Bool × Cursor :=
  if c.startsWith '?' then (true, c.pass 1) else (false, c)

/-- A count `{n}`, `{n,}` or `{n,m}`, with the question mark behind it. -/
def readCount (c : Cursor) : Except Fault (Count × Cursor) := do
  let start := c.place
  let c := c.next
  if c.atEnd then fault .countUnclosed (c.since start)
  let (least, c) := readCountBound c
  if c.atEnd then fault .countUnclosed (c.since start)
  let ((least, most), c) ←
    if c.startsWith ',' then do
      let c := c.next
      if c.atEnd then fault .countUnclosed (c.since start)
      if c.startsWith '}' then pure ((← least, none), c)
      else
        let n ← least
        let (most, c) := readCountBound c
        pure ((n, some (← most)), c)
    else
      let n ← least
      pure ((n, some n), c)
  if !c.startsWith '}' then fault .countUnclosed (c.since start)
  let (isLazy, c) := readLazy c.next
  if most.any (· < least) then fault .countOrder (c.since start)
  pure (⟨least, most, isLazy⟩, c)

/-! ### Escapes -/

/-- The character with a hexadecimal number. -/
def hexChar? (digits : List Char) : Option Char :=
  (numberIn? 16 digits).bind fun n => if n.isValidChar then some (Char.ofNat n) else none

/-- Exactly `n` hexadecimal digits. -/
def readHexDigits : Nat → Cursor → Except Fault (List Char × Cursor)
  | 0, c => .ok ([], c)
  | n + 1, c =>
    match c.rest with
    | [] => fault .escapeCutShort c.point
    | d :: _ =>
      if (digitIn? 16 d).isSome then
        (readHexDigits n c.next).map fun (ds, c) => (d :: ds, c)
      else fault .hexDigit c.charSpan

/-- A hexadecimal number of `n` digits, or of any number of them between braces. The backslash is
at `start`. -/
def readHex (start : Place) (n : Nat) (c : Cursor) : Except Fault (Literal × Cursor) := do
  let c := c.next
  if c.atEnd then fault .escapeCutShort c.point
  if c.startsWith '{' then
    let brace := c.place
    let first := (c.pass 1).place
    let (digits, c) := c.next.takeWhile fun d => (digitIn? 16 d).isSome
    if c.atEnd then fault .escapeCutShort (c.since brace)
    if !c.startsWith '}' then fault .hexDigit c.charSpan
    let written := c.since first
    let c := c.next
    if digits = [] then fault .hexEmpty (c.since brace)
    match hexChar? digits with
    | none => fault .hexNoCharacter written
    | some d => pure (⟨c.since start, d, false⟩, c)
  else
    let first := c.place
    let (digits, c) ← readHexDigits n c
    match hexChar? digits with
    | none => fault .hexNoCharacter (c.since first)
    | some d => pure (⟨c.since start, d, n = 2⟩, c)

/-- The name of a property, behind the letter of its escape. -/
def readProperty (start : Place) (c : Cursor) : Except Fault (Atom × Cursor) := do
  let c := c.next
  match c.rest with
  | [] => fault .escapeCutShort c.point
  | '{' :: _ =>
    let (name, c) := c.next.takeWhile (· ≠ '}')
    if c.atEnd then fault .escapeCutShort c.point
    let c := c.pass 1
    pure (.property (c.since start) name, c)
  | '\\' :: _ => fault .propertyName c.charSpan
  | d :: _ =>
    let c := c.next
    pure (.property (c.since start) [d], c)

/-- The name of a part of a word edge, between braces. Braces around anything else belong to a
count, and are left to it. -/
def readWordEdge (start : Place) (c : Cursor) : Except Fault (LookKind × Cursor) := do
  if !c.startsWith '{' then return (.wordEdge, c)
  let isLetter (d : Char) : Bool := d.isAlpha || d = '-'
  let inner := c.next
  if inner.atEnd then fault .wordCutShort (inner.since start)
  if !inner.rest.head?.any isLetter then return (.wordEdge, c)
  let (name, behind) := inner.takeWhile isLetter
  if !behind.startsWith '}' then fault .wordUnclosed (behind.since c.place)
  match String.ofList name with
  | "start" => pure (.wordStart, behind.pass 1)
  | "end" => pure (.wordStop, behind.pass 1)
  | "start-half" => pure (.wordStartHalf, behind.pass 1)
  | "end-half" => pure (.wordStopHalf, behind.pass 1)
  | _ => fault .wordUnknown (behind.since inner.place)

/-- Whether a character stands for itself behind a backslash. -/
def isPlainEscape (d : Char) : Bool := d.toNat < 128 && !d.isAlphanum && d ≠ '<' && d ≠ '>'

/-- The character that a letter behind a backslash stands for. -/
def escaped? : Char → Option Char
  | 'a' => some '\x07'
  | 'f' => some '\x0c'
  | 't' => some '\t'
  | 'n' => some '\n'
  | 'r' => some '\r'
  | 'v' => some '\x0b'
  | _ => none

/-- The place that a letter behind a backslash asks for, word edges with a name apart. -/
def escapedLook? : Char → Option LookKind
  | 'A' => some .textStart
  | 'z' => some .textStop
  | 'B' => some .noWordEdge
  | '<' => some .wordStart
  | '>' => some .wordStop
  | _ => none

/-- The class that a letter behind a backslash stands for; a capital takes the rest of the
characters. -/
def escapedClass? : Char → Option (Shorthand × Bool)
  | 'd' => some (.digit, false)
  | 's' => some (.space, false)
  | 'w' => some (.word, false)
  | 'D' => some (.digit, true)
  | 'S' => some (.space, true)
  | 'W' => some (.word, true)
  | _ => none

/-- What starts with a backslash. -/
def readEscape (c : Cursor) : Except Fault (Atom × Cursor) := do
  let start := c.place
  let c := c.pass 1
  match c.rest with
  | [] => fault .escapeCutShort (c.since start)
  | 'x' :: _ => (readHex start 2 c).map fun (l, c) => (.literal l, c)
  | 'u' :: _ => (readHex start 4 c).map fun (l, c) => (.literal l, c)
  | 'U' :: _ => (readHex start 8 c).map fun (l, c) => (.literal l, c)
  | 'p' :: _ => readProperty start c
  | 'P' :: _ => readProperty start c
  | d :: _ =>
    let c := c.pass 1
    let span := c.since start
    if (digit? d).isSome then fault .backReference span
    if isPlainEscape d then return (.literal ⟨span, d, false⟩, c)
    if d = 'b' then
      let (kind, c) ← readWordEdge start c
      return (.look (c.since start) kind, c)
    match escapedClass? d, escaped? d, escapedLook? d with
    | some (kind, negated), _, _ => pure (.shorthand span kind negated, c)
    | _, some e, _ => pure (.literal ⟨span, e, false⟩, c)
    | _, _, some kind => pure (.look span kind, c)
    | _, _, _ => fault .escapeUnknown span

/-- One of the smallest parts of a pattern. -/
def readAtom (c : Cursor) : Except Fault (Atom × Cursor) :=
  match c.rest with
  | '\\' :: _ => readEscape c
  | '.' :: _ => .ok (.dot c.charSpan, c.pass 1)
  | '^' :: _ => .ok (.look c.charSpan .lineStart, c.pass 1)
  | '$' :: _ => .ok (.look c.charSpan .lineStop, c.pass 1)
  | d :: _ => .ok (.literal ⟨c.charSpan, d, false⟩, c.pass 1)
  | [] => fault .escapeCutShort c.point

/-! ### Brackets -/

/-- Items of a class side by side. -/
structure Items where
  span : Span
  /-- The last one first. -/
  items : List SetTerm := []

namespace Items

def push (u : Items) (t : SetTerm) : Items :=
  ⟨⟨if u.items.isEmpty then t.span.start else u.span.start, t.span.stop⟩, t :: u.items⟩

def term (u : Items) : SetTerm :=
  match u.items with
  | [] => .empty u.span
  | [t] => t
  | ts => .union u.span ts.reverse

end Items

/-- What is still open between brackets. -/
inductive SetPending
  /-- A bracket, with the items that stand before it in the one around it. -/
  | bracket (outer : Items) (span : Span) (negated : Bool)
  /-- An operation, with its left side. -/
  | op (kind : SetOp) (left : SetTerm)

/-- The fault of a pattern that ends within brackets. -/
def unclosed : List SetPending → Cursor → Except Fault α
  | .bracket _ span _ :: _, _ => fault .classUnclosed span
  | .op .. :: ps, c => unclosed ps c
  | [], c => fault .classUnclosed c.point

/-- Hyphens at the start of a class stand for themselves. -/
def readHyphens (start : Place) (c : Cursor) (u : Items) : Except Fault (Items × Cursor) :=
  match _h : c.rest with
  | '-' :: _ =>
    if c.next.atEnd then fault .classUnclosed (.point start)
    else readHyphens start c.next (u.push (.literal ⟨c.charSpan, '-', false⟩))
  | _ => .ok (u, c)
termination_by c.rest.length
decreasing_by exact c.length_rest_next_lt _h

/-- The start of a class: its bracket, a caret, and what stands for itself only there. -/
def readSetStart (c : Cursor) : Except Fault ((Span × Bool × Items) × Cursor) := do
  let start := c.place
  let c := c.next
  if c.atEnd then fault .classUnclosed (c.since start)
  let negated := c.startsWith '^'
  let c := if negated then c.next else c
  if c.atEnd then fault .classUnclosed (c.since start)
  let (u, c) ← readHyphens start c ⟨c.point, []⟩
  if u.items.isEmpty && c.startsWith ']' then
    let u := u.push (.literal ⟨c.charSpan, ']', false⟩)
    let c := c.next
    if c.atEnd then fault .classUnclosed (c.since start)
    pure ((c.since start, negated, u), c)
  else pure ((c.since start, negated, u), c)

/-- A class `[:name:]`, if that is what comes next. -/
def readNamedClass? (c : Cursor) : Option (SetTerm × Cursor) := do
  let start := c.place
  let c ← c.eat? "[:"
  let (negated, c) := match c.eat? "^" with
    | some c => (true, c)
    | none => (false, c)
  let name := c.rest.takeWhile (· ≠ ':')
  let c ← (c.pass name.length).eat? ":]"
  let kind ← NamedClass.ofName? name
  some (.named (c.since start) kind negated, c)

/-- One end of a range, or an item by itself. -/
def readSetAtom (c : Cursor) : Except Fault (Atom × Cursor) :=
  match c.rest with
  | '\\' :: _ => readEscape c
  | d :: _ => .ok (.literal ⟨c.charSpan, d, false⟩, c.pass 1)
  | [] => fault .classUnclosed c.point

/-- An atom as an item of a class. -/
def Atom.setTerm : Atom → Except Fault SetTerm
  | literal l => .ok (.literal l)
  | shorthand s kind negated => .ok (.shorthand s kind negated)
  | property s name => .ok (.property s name)
  | a => fault .classEscape a.span

/-- An atom as an end of a range. -/
def Atom.bound : Atom → Except Fault Literal
  | literal l => .ok l
  | a => fault .classRangeBound a.span

/-- An item of a class or a range of them. A hyphen before the closing bracket or before another
hyphen makes no range. -/
def readSetItem (ps : List SetPending) (c : Cursor) : Except Fault (SetTerm × Cursor) := do
  let (a, c) ← readSetAtom c
  let c := c.skip
  if c.atEnd then unclosed ps c
  if !c.startsWith '-' || c.peek = some ']' || c.peek = some '-' then
    return (← a.setTerm, c)
  let c := c.next
  if c.atEnd then unclosed ps c
  let (b, c) ← readSetAtom c
  let span : Span := ⟨a.span.start, b.span.stop⟩
  let low ← a.bound
  let high ← b.bound
  if high.char < low.char then fault .classRangeOrder span
  pure (.range span low high, c)

/-- Closes the operation that is open within the innermost bracket, if one is. -/
def closeOp (right : SetTerm) : List SetPending → SetTerm × List SetPending
  | .op kind left :: ps => (.op ⟨left.span.start, right.span.stop⟩ kind left right, ps)
  | ps => (right, ps)

/-- Reads on within brackets, up to the outermost closing one. -/
def readSet : Nat → Cursor → Items → List SetPending → Except Fault (Term × Cursor)
  | 0, c, _, ps => unclosed ps c
  | n + 1, c, u, ps =>
    let c := c.skip
    let operate (kind : SetOp) : Except Fault (Term × Cursor) :=
      let (left, ps) := closeOp u.term ps
      let c := c.pass 2
      readSet n c ⟨c.point, []⟩ (.op kind left :: ps)
    match c.rest with
    | [] => unclosed ps c
    | '&' :: '&' :: _ => operate .inter
    | '-' :: '-' :: _ => operate .diff
    | '~' :: '~' :: _ => operate .symmDiff
    | '[' :: _ =>
      match if ps.isEmpty then none else readNamedClass? c with
      | some (t, c) => readSet n c (u.push t) ps
      | none =>
        match readSetStart c with
        | .error f => .error f
        | .ok ((span, negated, inner), c) => readSet n c inner (.bracket u span negated :: ps)
    | ']' :: _ =>
      match closeOp u.term ps with
      | (set, .bracket outer span negated :: ps) =>
        let c := c.pass 1
        let span := c.since span.start
        if ps.isEmpty then .ok (.bracket span negated set, c)
        else readSet n c (outer.push (.bracket span negated set)) ps
      | (_, ps) => unclosed ps c
    | _ =>
      match readSetItem ps c with
      | .error f => .error f
      | .ok (t, c) => readSet n c (u.push t) ps

/-! ### Groups -/

def flag? : Char → Option Flag
  | 'i' => some .ignoreCase
  | 'm' => some .multiLine
  | 's' => some .dotAll
  | 'U' => some .lazy
  | 'u' => some .unicode
  | 'R' => some .returns
  | 'x' => some .verbose
  | _ => none

/-- Flags up to the colon or the parenthesis behind them; `minus` is a minus sign with nothing
behind it yet. -/
def readFlags (c : Cursor) (minus : Option Span) (seen : List (FlagItem × Span)) :
    Except Fault (List FlagItem × Cursor) :=
  match _h : c.rest with
  | [] => fault .flagCutShort c.point
  | d :: _ =>
    if d = ':' ∨ d = ')' then
      match minus with
      | some span => fault .flagDangling span
      | none => .ok (seen.reverse.map Prod.fst, c)
    else
      let item? := if d = '-' then some FlagItem.minus else (flag? d).map .flag
      match item? with
      | none => fault .flagUnknown c.charSpan
      | some item =>
        match seen.find? (·.1 = item) with
        | some (_, earlier) =>
          .error ⟨if item = .minus then .flagNegatedTwice else .flagDuplicate, c.charSpan,
            some earlier⟩
        | none =>
          readFlags (c.pass 1) (if item = .minus then some c.charSpan else none)
            ((item, c.charSpan) :: seen)
termination_by c.rest.length
decreasing_by exact c.length_rest_pass_lt _h

/-- Whether a character may stand in the name of a group. -/
def isNameChar (first : Bool) (d : Char) : Bool :=
  d = '_' ||
    if first then isLetter d else d = '.' || d = '[' || d = ']' || isLetterOrNumber d

/-- The characters of a name, which go up to `>` or the end of the pattern; the first bad one is a
fault. `read` are those before it, the last one first. -/
def readNameChars (read : List Char) (c : Cursor) : Except Fault (List Char × Cursor) :=
  match _h : c.rest with
  | [] => .ok (read.reverse, c)
  | d :: _ =>
    if d = '>' then .ok (read.reverse, c)
    else if isNameChar read.isEmpty d then readNameChars (d :: read) (c.pass 1)
    else fault .nameCharacter c.charSpan
termination_by c.rest.length
decreasing_by exact c.length_rest_pass_lt _h

/-- The name of a group and the `>` behind it. -/
def readName (names : List (List Char × Span)) (c : Cursor) :
    Except Fault ((List Char × Span) × Cursor) := do
  let (name, stop) ← readNameChars [] c
  if stop.atEnd then fault .nameUnclosed stop.point
  let span := stop.since c.place
  if name = [] then fault .nameEmpty (.point c.place)
  match names.find? (·.1 = name) with
  | some (_, earlier) => .error ⟨.nameDuplicate, span, some earlier⟩
  | none => pure ((name, span), stop.pass 1)

/-- What an opening parenthesis starts. -/
inductive Opening
  | flags (items : List FlagItem)
  /-- A group that keeps what meets it. -/
  | kept (name : Option (List Char × Span))
  /-- A group under flags of its own. -/
  | plain (flags : List FlagItem)

/-- An opening parenthesis and what belongs to it. -/
def readOpening (names : List (List Char × Span)) (c : Cursor) :
    Except Fault (Opening × Cursor) := do
  let paren := c.charSpan
  let c := c.next
  match ["?=", "?!", "?<=", "?<!"].findSome? c.eat? with
  | some c => fault .lookAround (c.since paren.start)
  | none => pure ()
  match ["?P<", "?<"].findSome? c.eat? with
  | some c =>
    let (name, c) ← readName names c
    pure (.kept (some name), c)
  | none =>
    match c.eat? "?" with
    | none => pure (.kept none, c)
    | some inner =>
      if inner.atEnd then fault .groupUnclosed paren
      let (items, behind) ← readFlags inner none []
      if behind.startsWith ':' then pure (.plain items, behind.pass 1)
      else if items = [] then fault .nothingToRepeat c.point
      else pure (.flags items, behind.pass 1)

/-! ### The whole pattern -/

/-- Parts of a pattern side by side. -/
structure Row where
  start : Place
  /-- The last one first. -/
  terms : List Term := []

def Row.term (r : Row) (stop : Place) : Term :=
  match r.terms with
  | [] => .empty ⟨r.start, stop⟩
  | [t] => t
  | ts => .row ⟨r.start, stop⟩ ts.reverse

/-- What is still open. -/
inductive Pending
  /-- A group, with what stands before it and whether blanks said nothing there. -/
  | group (outer : Row) (paren : Span) (keeps : Bool) (flags : List FlagItem) (verbose : Bool)
  /-- Alternatives, the last one first. -/
  | choice (start : Place) (terms : List Term)

/-- Where a reader stands in a pattern. -/
structure Reader where
  cursor : Cursor
  row : Row
  pending : List Pending := []
  /-- The groups with a name, and where they are named. -/
  names : List (List Char × Span) := []

namespace Reader

def start (pattern : List Char) : Reader := { cursor := { rest := pattern }, row := ⟨{}, []⟩ }

/-- One more part. -/
def push (r : Reader) (t : Term) (c : Cursor) : Reader :=
  { r with cursor := c, row := { r.row with terms := t :: r.row.terms } }

/-- The last part, if it is one that can be repeated, and the reader without it. -/
def takeLast (r : Reader) : Except Fault (Term × Reader) :=
  match r.row.terms with
  | t :: ts =>
    if t.isRepeatable then .ok (t, { r with row := { r.row with terms := ts } })
    else fault .nothingToRepeat r.cursor.point
  | [] => fault .nothingToRepeat r.cursor.point

/-- The last part repeated, by a sign. -/
def repeatLast (r : Reader) (least : Nat) (most : Option Nat) : Except Fault Reader := do
  let (t, r) ← r.takeLast
  let (isLazy, c) := readLazy (r.cursor.pass 1)
  pure (r.push (.times ⟨t.span.start, c.place⟩ least most isLazy t) c)

/-- The last part repeated, by a count. -/
def countLast (r : Reader) : Except Fault Reader := do
  let (t, r) ← r.takeLast
  let (count, c) ← readCount r.cursor
  pure (r.push (.times ⟨t.span.start, c.place⟩ count.least count.most count.isLazy t) c)

/-- A bar: the row so far is an alternative. -/
def branch (r : Reader) : Reader :=
  let t := r.row.term r.cursor.place
  let pending := match r.pending with
    | .choice s ts :: ps => .choice s (t :: ts) :: ps
    | ps => .choice r.row.start [t] :: ps
  let c := r.cursor.pass 1
  { r with cursor := c, row := ⟨c.place, []⟩, pending := pending }

/-- Opens a group at `c`, behind its parenthesis `paren`. -/
def pushGroup (r : Reader) (paren : Span) (keeps : Bool) (items : List FlagItem)
    (name : Option (List Char × Span)) (c : Cursor) : Reader :=
  { r with
    cursor := { c with verbose := (flagValue? .verbose items).getD c.verbose }
    row := ⟨c.place, []⟩
    pending := .group r.row paren keeps items c.verbose :: r.pending
    names := name.toList ++ r.names }

/-- An opening parenthesis. -/
def openGroup (r : Reader) : Except Fault Reader := do
  let paren := r.cursor.charSpan
  let (opening, c) ← readOpening r.names r.cursor
  match opening with
  | .flags items =>
    let verbose := (flagValue? .verbose items).getD c.verbose
    pure (r.push (.flags (c.since paren.start) items) { c with verbose })
  | .kept name => pure (r.pushGroup paren true [] name c)
  | .plain items => pure (r.pushGroup paren false items none c)

/-- The alternatives or the single row that end at `stop`, and what is open around them. -/
def close (r : Reader) (stop : Place) : Term × List Pending :=
  let t := r.row.term stop
  match r.pending with
  | .choice s ts :: ps => (.choice ⟨s, stop⟩ (t :: ts).reverse, ps)
  | ps => (t, ps)

/-- A closing parenthesis. -/
def closeGroup (r : Reader) : Except Fault Reader :=
  match r.close r.cursor.place with
  | (t, .group outer paren keeps flags verbose :: ps) =>
    let c := { r.cursor.pass 1 with verbose }
    .ok { r with
      cursor := c
      row := { outer with terms := .group (c.since paren.start) keeps flags t :: outer.terms }
      pending := ps }
  | _ => fault .groupUnopened r.cursor.charSpan

/-- Reads the next part, which starts with `d`. A class has no more than `fuel` parts. -/
def step (r : Reader) (fuel : Nat) (d : Char) : Except Fault Reader :=
  match d with
  | '(' => r.openGroup
  | ')' => r.closeGroup
  | '|' => .ok r.branch
  | '[' =>
    (readSet fuel r.cursor ⟨r.cursor.point, []⟩ []).map fun (t, c) => r.push t c
  | '?' => r.repeatLast 0 (some 1)
  | '*' => r.repeatLast 0 none
  | '+' => r.repeatLast 1 none
  | '{' => r.countLast
  | _ => (readAtom r.cursor).map fun (a, c) => r.push (.atom a) c

/-- The end of the pattern. -/
def finish (r : Reader) : Except Fault Term :=
  match r.close r.cursor.place with
  | (t, []) => .ok t
  | (_, .group _ paren _ _ _ :: _) => fault .groupUnclosed paren
  | (_, .choice s _ :: _) => fault .groupUnclosed (.point s)

/-- Reads on to the end; each part takes at least one character. -/
def run : Nat → Reader → Except Fault Term
  | 0, r => r.finish
  | n + 1, r =>
    let r := { r with cursor := r.cursor.skip }
    match r.cursor.rest with
    | [] => r.finish
    | d :: _ => r.step (n + 2) d >>= run n

end Reader

/-- The form of a pattern. Nesting is looked at last. -/
def Term.read (pattern : List Char) : Except Fault Term := do
  let t ← (Reader.start pattern).run pattern.length
  t.check 0
  pure t

end PacketBudget.Pattern
