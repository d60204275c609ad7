import PacketBudget.Fault

/-!
Addresses of the Internet Protocol with an endpoint, their text, and which of them a host may
listen on. Main statement: four bytes make a number of 32 bits.
-/

namespace PacketBudget

/-- The address of a host. -/
inductive HostAddress
  /-- Of version 4, as a number of 32 bits. -/
  | v4 (number : Nat)
  /-- Of version 6, as eight groups of 16 bits; the scope is zero where there is none. -/
  | v6 (groups : List Nat) (scope : Nat)
  deriving DecidableEq, Repr

structure Address where
  host : HostAddress
  endpoint : Nat
  deriving DecidableEq, Repr

namespace HostAddress

/-- The number with the bytes `a.b.c.d`. -/
def ofBytes (a b c d : Nat) : Nat := ((a * 256 + b) * 256 + c) * 256 + d

/-- Whether the address of version 6 is one of version 4 in disguise. -/
def isMapped (groups : List Nat) : Bool := groups.take 6 = [0, 0, 0, 0, 0, 65535]

/-- How many groups are zero in front. -/
def zeros (groups : List Nat) : Nat := (groups.takeWhile (· = 0)).length

/-- The first of the longest runs of zeros, by its place and its length. -/
def longestZeros (groups : List Nat) : Nat × Nat :=
  (List.range groups.length).foldl
    (fun best i => if best.2 < zeros (groups.drop i) then (i, zeros (groups.drop i)) else best) (0, 0)

/-- A number in base 16. -/
def hexText (n : Nat) : String := String.ofList (Nat.toDigits 16 n)

def groupsText (groups : List Nat) : String := String.intercalate ":" (groups.map hexText)

def bytesText (n : Nat) : String :=
  String.intercalate "." ([n / 16777216, n / 65536 % 256, n / 256 % 256, n % 256].map toString)

/-- The address as it is written; of version 6 with the longest run of zeros left out, if it is of
two groups or more. -/
def text : HostAddress → String
  | v4 n => bytesText n
  | v6 groups _ =>
    if isMapped groups then
      "::ffff:" ++ bytesText ((groups.drop 6).foldl (fun n g => n * 65536 + g) 0)
    else
      let (i, n) := longestZeros groups
      if n < 2 then groupsText groups
      else groupsText (groups.take i) ++ "::" ++ groupsText (groups.drop (i + n))

end HostAddress

/-- The address as it is bound: endpoint zero leaves the choice to the machine, which has `free`
for it. -/
def Address.text (a : Address) (free : Nat) : String :=
  let endpoint := toString (if a.endpoint = 0 then free else a.endpoint)
  match a.host with
  | .v4 _ => a.host.text ++ ":" ++ endpoint
  | .v6 _ scope =>
    "[" ++ a.host.text ++ (if scope = 0 then "" else s!"%{scope}") ++ "]:" ++ endpoint

/-- Why a host cannot listen on an address. -/
inductive AddressFault
  /-- No colon parts the host from the endpoint. -/
  | noEndpoint
  | badEndpoint
  /-- The name of the host has a NUL character in it. -/
  | badName
  | unknownName
  /-- The endpoint is kept for privileged programs. -/
  | privileged
  /-- The address stands for no single host of a known link. -/
  | notOneHost
  /-- The address is none of this machine's. -/
  | notLocal
  deriving DecidableEq, Repr

def AddressFault.toIoError : AddressFault → IoError
  | .noEndpoint => ⟨.invalidInput, "invalid socket address"⟩
  | .badEndpoint => ⟨.invalidInput, "invalid port value"⟩
  | .badName => ⟨.invalidInput, "file name contained an unexpected NUL byte"⟩
  | .unknownName => ⟨.uncategorized,
      "failed to lookup address information: Temporary failure in name resolution"⟩
  | .privileged => ⟨.permissionDenied, "Permission denied (os error 13)"⟩
  | .notOneHost => ⟨.invalidInput, "Invalid argument (os error 22)"⟩
  | .notLocal => ⟨.addrNotAvailable, "Cannot assign requested address (os error 99)"⟩

/-- Whether an endpoint may be listened on by privileged programs only. -/
def isPrivileged (endpoint : Nat) : Bool := 0 < endpoint && endpoint < 1024

/-- Why the machine does not let a host listen on an address. Addresses of version 4 are not held
against its own; of version 6 it has the one that stands for all of them, and those of version 4 in
disguise. -/
def Address.refusal? (a : Address) : Option AddressFault :=
  match a.host with
  | .v4 _ => if isPrivileged a.endpoint then some .privileged else none
  | .v6 groups scope =>
    let first := groups.headD 0
    if first / 256 = 255 then some .notOneHost
    else if isPrivileged a.endpoint then some .privileged
    else if first / 64 = 1018 ∧ scope = 0 then some .notOneHost
    else if HostAddress.isMapped groups ∨ groups.all (· = 0) then none
    else some .notLocal

theorem HostAddress.ofBytes_lt {a b c d : Nat} (ha : a < 256) (hb : b < 256) (hc : c < 256)
    (hd : d < 256) : ofBytes a b c d < 4294967296 := by
  simp only [ofBytes]
  omega

end PacketBudget
