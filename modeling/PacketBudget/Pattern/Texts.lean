import PacketBudget.Pattern.Expr

/-!
Expressions that only a few texts meet, each of which can be told in full. Such an expression is
found where one of its texts is, and there is no need of a machine. Main statement: texts are found
in a text exactly if one of them is a stretch of it.
-/

namespace PacketBudget.Pattern

namespace Texts

/-- How many characters a set may have. -/
def maxSet : Nat := 10

/-- How often something may come. -/
def maxTimes : Nat := 10

/-- How long a text may be. -/
def maxLength : Nat := 100

/-- How many texts there may be. -/
def maxCount : Nat := 250

/-- Without texts that stand next to themselves. -/
def dedup : List (List UInt8) → List (List UInt8)
  | t :: u :: ts => if t = u then dedup (u :: ts) else t :: dedup (u :: ts)
  | ts => ts

/-- Each text of one kind followed by each of another. -/
def followed (ts us : List (List UInt8)) : Option (List (List UInt8)) :=
  if maxCount < ts.length * us.length then none
  else
    let all := ts.flatMap fun t => us.map (t ++ ·)
    if all.all (·.length ≤ maxLength) then some (dedup all) else none

/-- The texts of one kind and those of another. -/
def both (ts us : List (List UInt8)) : Option (List (List UInt8)) :=
  if maxCount < ts.length + us.length then none else some (dedup (ts ++ us))

/-- The texts `us` a number of times behind the texts `ts`. -/
def repeated (us ts : List (List UInt8)) : Nat → Option (List (List UInt8))
  | 0 => some ts
  | n + 1 => if ts = [] then some [] else followed ts us >>= fun ts => repeated us ts n

/-- The texts of a set. -/
def ofSet? (s : Charset) : Option (List (List UInt8)) :=
  let count := s.ranges.foldl (fun n r => n + (r.2 - r.1 + 1)) 0
  if maxSet < count then none
  else some (s.ranges.flatMap fun r =>
    (List.range (r.2 - r.1 + 1)).map fun k => String.utf8EncodeChar (Char.ofNat (r.1 + k)))

/-- Without the texts that an earlier one is the start of. -/
def minimal (seen : List (List UInt8)) : List (List UInt8) → List (List UInt8)
  | [] => seen.reverse
  | t :: ts => minimal (if seen.any (·.isPrefixOf t) then seen else t :: seen) ts

/-- How many bytes two texts have in common at their start. -/
def commonLength : List UInt8 → List UInt8 → Nat
  | a :: as, b :: bs => if a = b then commonLength as bs + 1 else 0
  | _, _ => 0

/-- Whether texts are so few, and so different, that each of them is worth looking for. -/
def areFew : List (List UInt8) → Bool
  | [] => false
  | [_] => true
  | t :: ts => ts.length < 10 && ts.foldl (fun n u => min n (commonLength t u)) t.length ≤ 4

/-- Whether one of some texts is found in a text. -/
def foundIn (ts : List (List UInt8)) : List UInt8 → Bool
  | [] => ts.any (·.isEmpty)
  | b :: bs => ts.any (·.isPrefixOf (b :: bs)) || foundIn ts bs

theorem foundIn_iff {ts : List (List UInt8)} {text : List UInt8} :
    foundIn ts text = true ↔ ∃ t ∈ ts, t <:+: text := by
  induction text with
  | nil => simp [foundIn]
  | cons b bs ih =>
    simp only [foundIn, Bool.or_eq_true, List.any_eq_true, List.isPrefixOf_iff_prefix, ih,
      List.infix_cons_iff]
    constructor
    · rintro (⟨t, ht, h⟩ | ⟨t, ht, h⟩)
      · exact ⟨t, ht, .inl h⟩
      · exact ⟨t, ht, .inr h⟩
    · rintro ⟨t, ht, h | h⟩
      · exact .inl ⟨t, ht, h⟩
      · exact .inr ⟨t, ht, h⟩

end Texts

namespace Expr

mutual

/-- The texts that meet an expression, if they can be told. Once there are none, nothing behind
them matters. -/
def texts? : Expr → Option (List (List UInt8))
  | empty => some [[]]
  | look _ => some [[]]
  | literal bs => if bs.length ≤ Texts.maxLength then some [bs] else none
  | set s => Texts.ofSet? s
  | group e => e.texts?
  | times e least most isLazy => do
    let ts ← e.texts?
    if least = 0 then
      if ts = [] then pure [[]]
      else if most = some 1 then if isLazy then Texts.both [[]] ts else Texts.both ts [[]]
      else none
    else if ts = [] then pure []
    else if most = some least ∧ least ≤ Texts.maxTimes then Texts.repeated ts [[]] least
    else none
  | row es => rowTexts? [[]] es
  | choice es => choiceTexts? [] es

def rowTexts? (ts : List (List UInt8)) : List Expr → Option (List (List UInt8))
  | [] => some ts
  | e :: es =>
    if ts = [] then some []
    else
      match e.texts? with
      | none => none
      | some us =>
        match Texts.followed ts us with
        | none => none
        | some ts => rowTexts? ts es

def choiceTexts? (ts : List (List UInt8)) : List Expr → Option (List (List UInt8))
  | [] => some ts
  | e :: es =>
    match e.texts? with
    | none => none
    | some us =>
      match Texts.both ts us with
      | none => none
      | some ts => choiceTexts? ts es

end

/-- The texts to look for in place of an expression, if they are few. What is remembered of a text,
and what is asked of its surroundings, only a machine can tell. -/
def fewTexts? (e : Expr) : Option (List (List UInt8)) :=
  let f := e.facts
  if f.hasGroup || f.hasLook then none
  else
    match e.texts? with
    | none => none
    | some ts =>
      if ts.any (·.isEmpty) then none
      else
        let ts := Texts.minimal [] ts
        if Texts.areFew ts then some ts else none

theorem rowTexts?_nil (es : List Expr) : rowTexts? [] es = some [] := by
  cases es <;> simp [rowTexts?]

end Expr

end PacketBudget.Pattern
