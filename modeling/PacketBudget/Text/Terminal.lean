/-!
Texts that may hold sequences by which a terminal is controlled, and what is left to be read of
them. Main statements: a text without control characters is left as it is, what is left has no
control characters but blanks, and leaving them out twice is leaving them out once.
-/

namespace PacketBudget.Text

/-- Where a terminal stands between two characters. -/
inductive Phase
  | ground
  /-- Behind an escape character. -/
  | escape
  /-- Behind an escape character and characters that its end is still to come after. -/
  | escapeTail
  /-- In a control sequence, up to its final letter. -/
  | control
  /-- At the head of a device string. -/
  | deviceHead
  /-- Among the parameters of a device string. -/
  | deviceParameters
  /-- Behind the parameters of a device string, before its final letter. -/
  | deviceTail
  /-- In a string that an escape character ends. -/
  | string
  /-- In a string that a bell ends too. -/
  | title
  deriving DecidableEq, Repr

/-- Blanks that move on in the line or to another. -/
def isMove (c : Char) : Bool := c = '\t' || c = '\n' || c = '\x0c' || c = '\r'

/-- Whether a character shows on a terminal that controls nothing. -/
def isShown (c : Char) : Bool := (' ' ≤ c && c ≠ '\x7f') || isMove c

/-- Whether one of the bytes of a character beyond ASCII ends a string. -/
def endsString (c : Char) : Bool :=
  let n := c.toNat
  127 < n && (n % 64 = 28 || 2048 ≤ n && n / 64 % 64 = 28 || 65536 ≤ n && n / 4096 % 64 = 28)

namespace Phase

/-- Whether a character shows behind one that does not. -/
def starts (p : Phase) (c : Char) : Bool :=
  match p with
  | ground => isShown c
  | escape | escapeTail | control => isMove c
  | deviceHead | deviceParameters | deviceTail | string | title => false

/-- The phase behind a character that shows. Only characters beyond ASCII end a sequence then. -/
def afterShown (p : Phase) (c : Char) : Phase := if 127 < c.toNat then ground else p

/-- The phase behind a character that does not show. -/
def next (p : Phase) (c : Char) : Phase :=
  if c = '\x1b' then escape
  else if c = '\x18' ∨ c = '\x1a' then ground
  else
    match p with
    | ground => ground
    | escape =>
      if c = '[' then control
      else if c = ']' then title
      else if c = 'P' then deviceHead
      else if c = 'X' ∨ c = '^' ∨ c = '_' then string
      else if ' ' ≤ c ∧ c ≤ '/' then escapeTail
      else if '0' ≤ c ∧ c ≤ '~' then ground
      else escape
    | escapeTail => if '0' ≤ c ∧ c ≤ '~' then ground else escapeTail
    | control => if '@' ≤ c ∧ c ≤ '~' then ground else control
    | deviceHead =>
      if '@' ≤ c ∧ c ≤ '~' then string
      else if ' ' ≤ c ∧ c ≤ '/' then deviceTail
      else if '0' ≤ c ∧ c ≤ '?' then deviceParameters
      else deviceHead
    | deviceParameters =>
      if '<' ≤ c ∧ c ≤ '~' then string
      else if ' ' ≤ c ∧ c ≤ '/' then deviceTail
      else deviceParameters
    | deviceTail => if '0' ≤ c ∧ c ≤ '~' then string else deviceTail
    | string => if endsString c then ground else string
    | title => if c = '\x07' then ground else title

/-- What shows of a text. While characters show, the next one shows too unless it is a control
character, whatever sequence it may belong to; `showing` says that they do. -/
def visible (p : Phase) (showing : Bool) : List Char → List Char
  | [] => []
  | c :: cs =>
    if (showing && isShown c) || p.starts c then c :: visible (p.afterShown c) true cs
    else visible (p.next c) false cs

theorem isShown_of_starts {p : Phase} {c : Char} (h : p.starts c = true) : isShown c = true := by
  cases p <;> simp_all [starts, isShown]

theorem isShown_of_mem_visible {p : Phase} {showing : Bool} {s : List Char} {c : Char}
    (h : c ∈ p.visible showing s) : isShown c = true := by
  induction s generalizing p showing with
  | nil => simp [visible] at h
  | cons d ds ih =>
    by_cases hd : ((showing && isShown d) || p.starts d) = true
    · rw [visible, if_pos hd] at h
      rcases List.mem_cons.mp h with rfl | h
      · rcases Bool.or_eq_true_iff.mp hd with hd | hd
        · exact (Bool.and_eq_true_iff.mp hd).2
        · exact isShown_of_starts hd
      · exact ih h
    · rw [visible, if_neg hd] at h
      exact ih h

theorem visible_eq_self {showing : Bool} {s : List Char} (h : ∀ c ∈ s, isShown c = true) :
    ground.visible showing s = s := by
  induction s generalizing showing with
  | nil => rfl
  | cons c cs ih =>
    have hc : ((showing && isShown c) || ground.starts c) = true := by
      simp [starts, h c List.mem_cons_self]
    have hg : ground.afterShown c = ground := by simp [afterShown]
    rw [visible, if_pos hc, hg, ih fun d hd => h d (List.mem_cons_of_mem c hd)]

theorem visible_visible (p : Phase) (showing : Bool) (s : List Char) :
    ground.visible false (p.visible showing s) = p.visible showing s :=
  visible_eq_self fun _ => isShown_of_mem_visible

end Phase

/-- A text without what would control a terminal. -/
def plain (s : String) : String := String.ofList (Phase.ground.visible false s.toList)

end PacketBudget.Text
