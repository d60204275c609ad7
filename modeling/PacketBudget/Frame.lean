import PacketBudget.Stream

/-!
Frames: the length of a payload in four bytes, the most significant first, and then the payload.
Main statement: the four bytes of a length that fits are read back as that length.
-/

namespace PacketBudget.Frame

/-- How many bytes stand before a payload. -/
def headerSize : Nat := 4

/-- The first length that does not fit into four bytes. -/
def tooLong : Nat := 4294967296

/-- The four bytes of a length. -/
def header (n : Nat) : Bytes :=
  [UInt8.ofNat (n / 16777216), UInt8.ofNat (n / 65536), UInt8.ofNat (n / 256), UInt8.ofNat n]

/-- The length that header bytes stand for. -/
def lengthOf (bs : Bytes) : Nat := bs.foldl (fun n b => 256 * n + b.toNat) 0

def encode (payload : Bytes) : Bytes := header payload.length ++ payload

/-- Writes a payload as one frame. -/
def write (s : Sink) (payload : Bytes) : Option IoError × Sink :=
  if payload.length < tooLong then s.writeAll (encode payload)
  else (some ⟨.invalidInput, "frame too large"⟩, s)

theorem length_encode (payload : Bytes) : (encode payload).length = headerSize + payload.length := by
  simp [encode, header, headerSize]; omega

theorem lengthOf_header {n : Nat} (h : n < tooLong) : lengthOf (header n) = n := by
  simp only [header, lengthOf, List.foldl_cons, List.foldl_nil, UInt8.toNat_ofNat', tooLong] at h ⊢
  omega

end PacketBudget.Frame
