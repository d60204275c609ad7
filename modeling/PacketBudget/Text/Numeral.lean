/-!
Decimal numerals of bounded integers. A numeral is read from the left, and the first character
that is no digit or that carries the value out of range decides the fault. Main statements: what is read
is within the bound, and reading a longer numeral goes on from the value of its front part.
-/

namespace PacketBudget.Text

/-- Why a text is no numeral of the range asked for. -/
inductive NumeralFault
  | empty
  | badDigit
  | tooLarge
  | tooSmall
  deriving DecidableEq, Repr

def NumeralFault.message : NumeralFault → String
  | .empty => "cannot parse integer from empty string"
  | .badDigit => "invalid digit found in string"
  | .tooLarge => "number too large to fit in target type"
  | .tooSmall => "number too small to fit in target type"

/-- The value of an ASCII digit. -/
def digit? (c : Char) : Option Nat :=
  if '0' ≤ c ∧ c ≤ '9' then some (c.toNat - '0'.toNat) else none

/-- The value of a digit in a base of at most 16; letters follow the digits, in either case. -/
def digitIn? (base : Nat) (c : Char) : Option Nat :=
  let n :=
    if '0' ≤ c ∧ c ≤ '9' then c.toNat - '0'.toNat
    else if 'a' ≤ c ∧ c ≤ 'f' then c.toNat - 'a'.toNat + 10
    else if 'A' ≤ c ∧ c ≤ 'F' then c.toNat - 'A'.toNat + 10
    else base
  if n < base then some n else none

/-- The value of digits in a base; there must be one. -/
def numberIn? (base : Nat) (digits : List Char) : Option Nat :=
  if digits = [] then none
  else digits.foldlM (fun n d => (digitIn? base d).map (n * base + ·)) 0

/-- Reads digits after a value `acc`, none of which may take the value above `max`. -/
def readDigits (max : Nat) (beyond : NumeralFault) : Nat → List Char → Except NumeralFault Nat
  | acc, [] => .ok acc
  | acc, c :: cs =>
    match digit? c with
    | none => .error .badDigit
    | some d =>
      if acc * 10 + d ≤ max then readDigits max beyond (acc * 10 + d) cs else .error beyond

/-- A numeral of at most `max`; a plus sign may stand before it. -/
def readUnsigned (max : Nat) : List Char → Except NumeralFault Nat
  | [] => .error .empty
  | ['+'] => .error .badDigit
  | '+' :: ds => readDigits max .tooLarge 0 ds
  | ds => readDigits max .tooLarge 0 ds

/-- A numeral from `-low` to `high`; a sign may stand before it. -/
def readSigned (low high : Nat) : List Char → Except NumeralFault Int
  | [] => .error .empty
  | ['+'] => .error .badDigit
  | ['-'] => .error .badDigit
  | '+' :: ds => (readDigits high .tooLarge 0 ds).map Int.ofNat
  | '-' :: ds => (readDigits low .tooSmall 0 ds).map fun n => -Int.ofNat n
  | ds => (readDigits high .tooLarge 0 ds).map Int.ofNat

/-- A numeral of at most 2^64 - 1. -/
def readUInt64 (s : List Char) : Except NumeralFault UInt64 :=
  (readUnsigned 18446744073709551615 s).map UInt64.ofNat

/-- A numeral from -2^63 to 2^63 - 1. -/
def readInt64 (s : List Char) : Except NumeralFault Int64 :=
  (readSigned 9223372036854775808 9223372036854775807 s).map Int64.ofInt

theorem lt_of_digitIn? {base n : Nat} {c : Char} (h : digitIn? base c = some n) : n < base := by
  simp only [digitIn?] at h
  split at h <;> simp_all <;> omega

theorem le_of_readDigits {max acc n : Nat} {f : NumeralFault} {s : List Char} (hacc : acc ≤ max)
    (h : readDigits max f acc s = .ok n) : n ≤ max := by
  fun_induction readDigits max f acc s with
  | case1 acc => simp only [Except.ok.injEq] at h; omega
  | case2 => simp at h
  | case3 acc c cs d hd hle ih => exact ih hle h
  | case4 => simp at h

/-- Reading goes on where it stopped. -/
theorem readDigits_append {max acc n : Nat} {f : NumeralFault} {s t : List Char}
    (h : readDigits max f acc s = .ok n) :
    readDigits max f acc (s ++ t) = readDigits max f n t := by
  fun_induction readDigits max f acc s with
  | case1 acc => simp only [Except.ok.injEq] at h; simp [h]
  | case2 => simp at h
  | case3 acc c cs d hd hle ih => simp [readDigits, hd, hle, ih h]
  | case4 => simp at h

end PacketBudget.Text
