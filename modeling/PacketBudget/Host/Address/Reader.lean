import PacketBudget.Host.Address
import PacketBudget.Text.Blank
import PacketBudget.Text.Numeral

/-!
Reading an address. An address of version 6 may stand between brackets; anything else is a host and
an endpoint with the last colon between them. The host is numbers, of version 4 in any base and with
the last of them for all bytes that are left, or the name of the machine itself. Main statement:
the parts of a text between separators hold none.
-/

namespace PacketBudget

open Text

namespace HostAddress

/-- The parts of a text between separators. -/
def parts (sep : Char) : List Char → List (List Char)
  | [] => [[]]
  | c :: cs =>
    match parts sep cs with
    | [] => [[c]]
    | p :: ps => if c = sep then [] :: p :: ps else (c :: p) :: ps

/-- A number: in base 16 behind `0x`, in base 8 behind `0`, else in base 10. -/
def number? : List Char → Option Nat
  | '0' :: 'x' :: ds => numberIn? 16 ds
  | '0' :: 'X' :: ds => numberIn? 16 ds
  | '0' :: ds => numberIn? 8 ('0' :: ds)
  | ds => numberIn? 10 ds

/-- An address of one to four numbers: each is a byte, but the last, which is all bytes left. -/
def loose? (s : List Char) : Option Nat := do
  let numbers ← (parts '.' s).mapM number?
  match numbers with
  | [a] => if a < 4294967296 then some a else none
  | [a, b] => if a < 256 ∧ b < 16777216 then some (a * 16777216 + b) else none
  | [a, b, c] =>
    if a < 256 ∧ b < 256 ∧ c < 65536 then some ((a * 256 + b) * 65536 + c) else none
  | [a, b, c, d] =>
    if a < 256 ∧ b < 256 ∧ c < 256 ∧ d < 256 then some (ofBytes a b c d) else none
  | _ => none

/-- A byte in base 10 without zeros in front. -/
def byte? (s : List Char) : Option Nat := do
  let n ← numberIn? 10 s
  if n < 256 ∧ s = (toString n).toList then some n else none

/-- Four bytes as two groups. -/
def quad? (s : List Char) : Option (List Nat) := do
  match ← (parts '.' s).mapM byte? with
  | [a, b, c, d] => some [a * 256 + b, c * 256 + d]
  | _ => none

/-- One to four digits in base 16. -/
def group? (s : List Char) : Option Nat := if s.length ≤ 4 then numberIn? 16 s else none

/-- Groups between colons; the last may be four bytes. -/
def groups? (s : List Char) : Option (List Nat) :=
  if s = [] then some []
  else
    let ps := parts ':' s
    let last := ps.getLastD []
    do
      let front ← ps.dropLast.mapM group?
      let back ← if '.' ∈ last then quad? last else (group? last).map ([·])
      some (front ++ back)

/-- The texts before and after the first two colons in a row. -/
def cutColons? : List Char → Option (List Char × List Char)
  | ':' :: ':' :: cs => some ([], cs)
  | c :: cs => (cutColons? cs).map fun (a, b) => (c :: a, b)
  | [] => none

/-- The eight groups of an address of version 6; two colons in a row stand for one group or more
of zeros. -/
def strict? (s : List Char) : Option (List Nat) :=
  match cutColons? s with
  | none => (groups? s).filter (·.length = 8)
  | some (front, back) => do
    if '.' ∈ front then none
    let front ← groups? front
    let back ← groups? back
    let n := front.length + back.length
    if n < 8 then some (front ++ List.replicate (8 - n) 0 ++ back) else none

/-- An address of version 6, with the number of its scope behind a percent sign. -/
def scoped? (s : List Char) : Option HostAddress :=
  match cut? '%' s with
  | none => (strict? s).map (v6 · 0)
  | some (s, scope) => do
    let groups ← strict? s
    let n ← numberIn? 10 scope
    if n < 4294967296 then some (v6 groups n) else none

/-- The name of the machine itself, in any case. -/
def localName : List Char := "localhost".toList

/-- The host that a text names. -/
def read (s : List Char) : Except AddressFault HostAddress :=
  if '\x00' ∈ s then .error .badName
  else
    match loose? s, scoped? s with
    | some n, _ => .ok (v4 n)
    | none, some a => .ok a
    | none, none =>
      if s.map Char.toLower = localName then .ok (v4 (ofBytes 127 0 0 1)) else .error .unknownName

theorem not_mem_of_mem_parts {sep : Char} {s p : List Char} (h : p ∈ parts sep s) : sep ∉ p := by
  induction s generalizing p with
  | nil => simp_all [parts]
  | cons c cs ih =>
    unfold parts at h
    cases hp : parts sep cs with
    | nil =>
      exfalso
      cases cs with
      | nil => simp [parts] at hp
      | cons d ds =>
        unfold parts at hp
        split at hp
        · simp at hp
        · split at hp <;> simp at hp
    | cons q qs =>
      rw [hp] at h ih
      simp only at h
      by_cases hc : c = sep
      · rw [if_pos hc] at h
        rcases List.mem_cons.mp h with rfl | h
        · simp
        · exact ih h
      · rw [if_neg hc] at h
        rcases List.mem_cons.mp h with rfl | h
        · have := ih (p := q) List.mem_cons_self
          simp [Ne.symm hc, this]
        · exact ih (List.mem_cons_of_mem _ h)

end HostAddress

namespace Address

/-- An address of version 6 between brackets, with digits as its endpoint. -/
def bracketed? : List Char → Option Address
  | '[' :: s =>
    match cut? ']' s with
    | some (host, ':' :: digits) => do
      let host ← HostAddress.scoped? host
      let endpoint ← numberIn? 10 digits
      if endpoint < 65536 then some ⟨host, endpoint⟩ else none
    | _ => none
  | _ => none

/-- The address in a text. -/
def read (text : String) : Except AddressFault Address :=
  match bracketed? text.toList with
  | some a => .ok a
  | none =>
    match cut? ':' text.toList.reverse with
    | none => .error .noEndpoint
    | some (endpoint, host) =>
      match readUnsigned 65535 endpoint.reverse with
      | .error _ => .error .badEndpoint
      | .ok endpoint => (HostAddress.read host.reverse).map (⟨·, endpoint⟩)

/-- The address in a text, if a host may listen on it. -/
def toListen (text : String) : Except AddressFault Address := do
  let a ← read text
  match a.refusal? with
  | some f => .error f
  | none => pure a

end Address

end PacketBudget
