import PacketBudget.Proofs.Leases

/-!
Frames as bytes. A frame is read as it was written, a packet that was read takes up just the bytes
that writing it gives, and where the bytes were cut on their way does not matter.
-/

namespace PacketBudget

namespace Frame

theorem length_header (n : Nat) : (header n).length = headerSize := rfl

theorem four_bytes {bs : Bytes} (h : bs.length = headerSize) : ∃ a b c d, bs = [a, b, c, d] := by
  match bs, h with
  | [a, b, c, d], _ => exact ⟨a, b, c, d, rfl⟩

theorem exists_header {bs : Bytes} (h : ¬ bs.length < headerSize) :
    ∃ hd tl, bs = hd ++ tl ∧ hd.length = headerSize :=
  ⟨bs.take headerSize, bs.drop headerSize, (List.take_append_drop ..).symm,
    List.length_take_of_le (Nat.not_lt.mp h)⟩

theorem lengthOf_lt {bs : Bytes} (h : bs.length = headerSize) : lengthOf bs < tooLong := by
  obtain ⟨a, b, c, d, rfl⟩ := four_bytes h
  have ha := a.toNat_lt
  have hb := b.toNat_lt
  have hc := c.toNat_lt
  have hd := d.toNat_lt
  simp only [lengthOf, List.foldl_cons, List.foldl_nil, tooLong]
  omega

/-- Four bytes are the header of the length that they stand for. -/
theorem header_lengthOf {bs : Bytes} (h : bs.length = headerSize) : header (lengthOf bs) = bs := by
  obtain ⟨a, b, c, d, rfl⟩ := four_bytes h
  have ha := a.toNat_lt
  have hb := b.toNat_lt
  have hc := c.toNat_lt
  have hd := d.toNat_lt
  simp only [header, lengthOf, List.foldl_cons, List.foldl_nil, List.cons.injEq, and_true,
    ← UInt8.toNat_inj, UInt8.toNat_ofNat']
  omega

/-- A whole header and enough bytes behind it are a frame. -/
theorem encode_take {hd bs : Bytes} (h : hd.length = headerSize) (hn : lengthOf hd ≤ bs.length) :
    encode (bs.take (lengthOf hd)) = hd ++ bs.take (lengthOf hd) := by
  rw [encode, List.length_take_of_le hn, header_lengthOf h]

namespace Assembly

variable {conn : ConnId} {maxFrame : Nat} {s s' : Service} {l : Lease}

/-- What comes to an end with the first bytes leaves the rest alone, and what does not goes on with
them. -/
theorem feed_append (a : Assembly) (s : Service) (bs ds : Bytes) :
    a.feed conn maxFrame s (bs ++ ds) =
      match a.feed conn maxFrame s bs with
      | (.more a, _, s) => a.feed conn maxFrame s ds
      | (p, left, s) => (p, left ++ ds, s) := by
  induction bs generalizing a s with
  | nil => rfl
  | cons b bs ih =>
    rw [List.cons_append, feed, feed]
    rcases a.push conn maxFrame s b with ⟨_ | _ | _, s'⟩
    · exact ih _ _
    · rfl
    · rfl

theorem feed_header {got bs : Bytes} (h : got.length + bs.length < headerSize) :
    (Assembly.header got).feed conn maxFrame s bs =
      (.more (.header (bs.reverse ++ got)), [], s) := by
  induction bs generalizing got with
  | nil => rfl
  | cons b bs ih =>
    simp only [List.length_cons] at h
    have hb : got.length + 1 < headerSize := by omega
    simp only [feed, push, hb, ↓reduceIte]
    rw [ih (by simp only [List.length_cons]; omega), List.reverse_cons, List.append_assoc]
    rfl

theorem feed_payload {got bs : Bytes} {n : Nat} (hn : 0 < n) :
    (Assembly.payload l got n).feed conn maxFrame s bs =
      if n ≤ bs.length then (.packet ⟨l, got.reverse ++ bs.take n⟩, bs.drop n, s)
      else (.more (.payload l (bs.reverse ++ got) (n - bs.length)), [], s) := by
  induction bs generalizing got n with
  | nil =>
    rw [if_neg (by simp only [List.length_nil]; omega)]
    rfl
  | cons b bs ih =>
    rw [feed, push]
    by_cases h1 : n ≤ 1
    · obtain rfl : n = 1 := by omega
      simp
    · obtain ⟨m, rfl⟩ : ∃ m, n = m + 1 := ⟨n - 1, by omega⟩
      simp only [h1, ↓reduceIte, Nat.add_sub_cancel]
      rw [ih (by omega)]
      simp only [List.length_cons, Nat.add_le_add_iff_right, List.reverse_cons, List.append_assoc,
        List.singleton_append, List.take_succ_cons, List.drop_succ_cons, Nat.add_sub_add_right]

/-- A whole header, and what comes behind it. -/
theorem feed_fresh {hd : Bytes} (h : hd.length = headerSize) (bs : Bytes) :
    Assembly.fresh.feed conn maxFrame s (hd ++ bs) =
      match begin conn maxFrame (lengthOf hd) s with
      | (.more a, s) => a.feed conn maxFrame s bs
      | (p, s) => (p, bs, s) := by
  obtain ⟨w, x, y, z, rfl⟩ := four_bytes h
  rcases hb : begin conn maxFrame (lengthOf [w, x, y, z]) s with ⟨_ | _ | _, t⟩ <;>
    simp [fresh, feed, push, headerSize, hb]

/-- A header whose payload is granted, and what comes behind it. -/
theorem feed_granted {hd : Bytes} (hh : hd.length = headerSize) (hb : lengthOf hd ≤ maxFrame)
    (hl : s.lease conn (lengthOf hd) = (.ok l, s')) (bs : Bytes) :
    Assembly.fresh.feed conn maxFrame s (hd ++ bs) =
      if lengthOf hd ≤ bs.length then
        (.packet ⟨l, bs.take (lengthOf hd)⟩, bs.drop (lengthOf hd), s')
      else (.more (.payload l bs.reverse (lengthOf hd - bs.length)), [], s') := by
  rw [feed_fresh hh, begin, if_neg (Nat.not_lt.mpr hb)]
  simp only [hl]
  by_cases hz : lengthOf hd = 0
  · simp [hz]
  · simp only [hz, ↓reduceIte, feed_payload (Nat.pos_of_ne_zero hz), List.reverse_nil,
      List.nil_append, List.append_nil]

/-- The bytes up to where the assembly ends are enough for it. -/
theorem feed_split {a : Assembly} {bs left : Bytes} {p : Packet}
    (h : a.feed conn maxFrame s bs = (.packet p, left, s')) :
    ∃ front, bs = front ++ left ∧ a.feed conn maxFrame s front = (.packet p, [], s') := by
  induction bs generalizing a s with
  | nil => cases h
  | cons b bs ih =>
    rw [feed] at h
    rcases hp : a.push conn maxFrame s b with ⟨a' | q | e, t⟩
    · simp only [hp] at h
      obtain ⟨front, rfl, hf⟩ := ih h
      refine ⟨b :: front, rfl, ?_⟩
      simp only [feed, hp]
      exact hf
    · simp only [hp, Prod.mk.injEq, Progress.packet.injEq] at h
      obtain ⟨rfl, rfl, rfl⟩ := h
      refine ⟨[b], rfl, ?_⟩
      simp only [feed, hp]
    · simp only [hp, Prod.mk.injEq, reduceCtorEq, false_and] at h

/-- What becomes of an assembly when `bs` is all that still comes: how the reading stops, what is
left and the service. -/
def outcome (conn : ConnId) (maxFrame : Nat) (a : Assembly) (s : Service) (bs : Bytes) :
    Stop × Bytes × Service :=
  match a.feed conn maxFrame s bs with
  | (.more a, _, s) => ((a.finish s).1, [], (a.finish s).2)
  | (.packet p, left, s) => (.packet p, left, s)
  | (.failed e, left, s) => (.failed e, left, s)

theorem outcome_nil (conn : ConnId) (maxFrame : Nat) (s : Service) :
    fresh.outcome conn maxFrame s [] = (.closed, [], s) := rfl

theorem finish_header {got : Bytes} (h : got ≠ []) (s : Service) :
    (Assembly.header got).finish s = (.failed truncatedHeader, s) := by
  cases got with
  | nil => exact absurd rfl h
  | cons b got => rfl

/-- The end of the input is an end between two frames, or a failure. -/
theorem finish_cases (a : Assembly) (s : Service) :
    a = .fresh ∧ a.finish s = (.closed, s) ∨ ∃ e, (a.finish s).1 = .failed e := by
  rcases a with (_ | ⟨b, got⟩) | ⟨l, got, n⟩
  · exact Or.inl ⟨rfl, rfl⟩
  · exact Or.inr ⟨_, rfl⟩
  · exact Or.inr ⟨_, rfl⟩

theorem finish_service (a : Assembly) (s : Service) : (a.finish s).2 = a.abandon s := by
  rcases a with (_ | ⟨b, got⟩) | ⟨l, got, missing⟩ <;> rfl

/-- With a byte of it there, a frame has begun. -/
theorem push_more {a a' : Assembly} {b : UInt8}
    (h : a.push conn maxFrame s b = (.more a', s')) : a' ≠ .fresh := by
  rintro rfl
  rcases a with got | ⟨l, got, n⟩
  · rw [push, begin] at h
    split at h
    · cases h
    · split at h
      · cases h
      · split at h
        · cases h
        · split at h <;> cases h
  · rw [push] at h
    split at h <;> cases h

theorem feed_more {a a' : Assembly} {bs left : Bytes}
    (h : a.feed conn maxFrame s bs = (.more a', left, s')) : bs = [] ∧ a' = a ∨ a' ≠ .fresh := by
  induction bs generalizing a s with
  | nil =>
    cases h
    exact Or.inl ⟨rfl, rfl⟩
  | cons b bs ih =>
    right
    rw [feed] at h
    rcases hp : a.push conn maxFrame s b with ⟨a₁ | p | e, t⟩
    · simp only [hp] at h
      rcases ih h with ⟨-, rfl⟩ | hne
      · exact push_more hp
      · exact hne
    · simp only [hp, Prod.mk.injEq, reduceCtorEq, false_and] at h
    · simp only [hp, Prod.mk.injEq, reduceCtorEq, false_and] at h

theorem outcome_short {bs : Bytes} (hne : bs ≠ []) (h : bs.length < headerSize) (s : Service) :
    fresh.outcome conn maxFrame s bs = (.failed truncatedHeader, [], s) := by
  have hf : fresh.feed conn maxFrame s bs = (.more (.header (bs.reverse ++ [])), [], s) :=
    feed_header (by simpa using h)
  rw [List.append_nil] at hf
  simp only [outcome, hf, finish_header (List.reverse_ne_nil_iff.mpr hne)]

variable {t : Service} {host : HostContext} {e : Entry} {k : Nat} {hd bs : Bytes}

/-- An acceptable frame is a packet, which is held from then on. -/
theorem outcome_encode {p : Bytes} (hp : s.Passed conn e k t) (taken : s.host = some host)
    (hl : p.length < tooLong) (ha : Acceptable maxFrame s host e p.length) (bs : Bytes) :
    ∃ u holder, fresh.outcome conn maxFrame t (encode p ++ bs) =
        (.packet ⟨⟨holder, ⟨conn, e.epoch, p.length⟩⟩, p⟩, bs, u) ∧
      s.Holds conn e k p.length u := by
  obtain ⟨u, hu, hold⟩ := hp.lease taken ha
  refine ⟨u, t.identity, ?_, hold⟩
  rw [← lengthOf_header hl] at ha hu
  have hle : lengthOf (Frame.header p.length) ≤ (p ++ bs).length := by
    rw [lengthOf_header hl, List.length_append]
    exact Nat.le_add_right _ _
  rw [encode, List.append_assoc, outcome, feed_granted (length_header _) ha.bounded hu, if_pos hle,
    lengthOf_header hl, List.take_left, List.drop_left]

/-- An acceptable frame that breaks off gives its charge back. -/
theorem outcome_truncated (hp : s.Passed conn e k t) (taken : s.host = some host)
    (hh : hd.length = headerSize) (ha : Acceptable maxFrame s host e (lengthOf hd))
    (hn : bs.length < lengthOf hd) :
    ∃ u, fresh.outcome conn maxFrame t (hd ++ bs) = (.failed truncatedPayload, [], u) ∧
      s.Passed conn e (k + 1) u := by
  obtain ⟨u, hu, hold⟩ := hp.lease taken ha
  refine ⟨u.dropLease ⟨t.identity, ⟨conn, e.epoch, lengthOf hd⟩⟩, ?_, hold.dropLease _⟩
  rw [outcome, feed_granted hh ha.bounded hu, if_neg (Nat.not_le.mpr hn)]
  rfl

/-- Why a frame with `n` bytes of payload is not taken in. -/
def objection (maxFrame : Nat) (s : Service) (host : HostContext) (e : Entry) (n : Nat) : IoError :=
  if maxFrame < n then tooLarge
  else (Fault.budgetExhausted n (s.ledger.accounts.room host.policy.cap e)).toIoError

/-- A frame that is not acceptable is refused before any of its payload is looked at. -/
theorem outcome_refused (hp : s.Passed conn e k t) (taken : s.host = some host)
    (hcap : host.policy.cap = 0 ∨ e.packetBytes ≤ host.policy.cap) (hh : hd.length = headerSize)
    (ha : ¬ Acceptable maxFrame s host e (lengthOf hd)) :
    ∃ u, fresh.outcome conn maxFrame t (hd ++ bs) =
        (.failed (objection maxFrame s host e (lengthOf hd)), bs, u) ∧ s.Passed conn e k u := by
  by_cases hm : maxFrame < lengthOf hd
  · refine ⟨t, ?_, hp⟩
    simp only [outcome, feed_fresh hh, begin, hm, ↓reduceIte, objection]
  · obtain ⟨u, hu, hu'⟩ := hp.refusal taken hcap (Nat.not_lt.mp hm) ha
    refine ⟨u, ?_, hu'⟩
    simp only [outcome, feed_fresh hh, begin, hm, ↓reduceIte, hu, objection]

/-- A packet takes up just the bytes that stand for it. -/
theorem encode_of_packet {p : Packet} (h : fresh.feed conn maxFrame s bs = (.packet p, [], s')) :
    bs = encode p.payload ∧ p.payload.length < tooLong := by
  by_cases hs : bs.length < headerSize
  · rw [fresh, feed_header (by simpa using hs)] at h
    cases h
  · obtain ⟨hd, ps, rfl, hh⟩ := exists_header hs
    suffices hp : p.payload = ps ∧ lengthOf hd = ps.length by
      obtain ⟨hp, hl⟩ := hp
      rw [encode, hp, ← hl, header_lengthOf hh]
      exact ⟨rfl, lengthOf_lt hh⟩
    by_cases hm : maxFrame < lengthOf hd
    · rw [feed_fresh hh, begin, if_pos hm] at h
      cases h
    · rcases hl : s.lease conn (lengthOf hd) with ⟨f | l, u⟩
      · rw [feed_fresh hh, begin, if_neg hm] at h
        simp only [hl, Prod.mk.injEq, reduceCtorEq, false_and] at h
      · rw [feed_granted hh (Nat.not_lt.mp hm) hl] at h
        split at h
        · rename_i hn
          simp only [Prod.mk.injEq, Progress.packet.injEq, List.drop_eq_nil_iff] at h
          obtain ⟨rfl, hd, -⟩ := h
          exact ⟨List.take_of_length_le hd, Nat.le_antisymm hn hd⟩
        · cases h

end Assembly

end Frame

/-- The bytes that come in before the input ends. -/
def inputBytes : List Arrival → Bytes
  | [] | .data [] :: _ | .hang :: _ => []
  | .data (b :: bs) :: as => b :: bs ++ inputBytes as
  | .failure _ :: as | .delay _ :: as => inputBytes as

theorem inputBytes_requeue (left : Bytes) (as : List Arrival) :
    inputBytes (requeue left as) = left ++ inputBytes as := by
  cases left <;> rfl

/-- The arrivals are the bytes, cut somehow into pieces of which none is empty. -/
inductive Cut : Bytes → List Arrival → Prop
  | nil : Cut [] []
  | cons {b : UInt8} {bs cs : Bytes} {as : List Arrival} (rest : Cut cs as) :
      Cut (b :: bs ++ cs) (.data (b :: bs) :: as)

theorem Cut.requeue {bs : Bytes} {as : List Arrival} (h : Cut bs as) (left : Bytes) :
    Cut (left ++ bs) (requeue left as) := by
  cases left with
  | nil => exact h
  | cons b left => exact .cons h

theorem Cut.inputBytes {bs : Bytes} {as : List Arrival} (h : Cut bs as) :
    PacketBudget.inputBytes as = bs := by
  induction h with
  | nil => rfl
  | cons rest ih => rw [PacketBudget.inputBytes, ih]

namespace Frame

variable {conn : ConnId} {maxFrame : Nat} {deadline : Option Nat}

/-- The cuts do not show in what a frame comes to. -/
theorem read_cut {bs left : Bytes} {as : List Arrival} {a : Assembly} {s t : Service} {stop : Stop}
    (h : Cut bs as) (ho : a.outcome conn maxFrame s bs = (stop, left, t)) (deadline : Option Nat)
    (now : Nat) :
    ∃ as', Cut left as' ∧ read conn maxFrame deadline as a now s = ⟨stop, as', now, t⟩ := by
  induction h generalizing a s with
  | nil =>
    cases ho
    exact ⟨[], .nil, rfl⟩
  | @cons b bs cs as rest ih =>
    rw [Assembly.outcome, Assembly.feed_append] at ho
    rw [read]
    rcases hf : a.feed conn maxFrame s (b :: bs) with ⟨a' | p | e, left', t'⟩
    · rw [hf] at ho
      exact ih ho
    · rw [hf] at ho
      cases ho
      exact ⟨_, rest.requeue left', rfl⟩
    · rw [hf] at ho
      cases ho
      exact ⟨_, rest.requeue left', rfl⟩

/-- A packet that was read stands at the front of what came in. -/
theorem read_packet {as : List Arrival} {a : Assembly} {now : Nat} {s : Service} {p : Packet}
    (h : (read conn maxFrame deadline as a now s).stop = .packet p) :
    ∃ front, inputBytes as =
        front ++ inputBytes (read conn maxFrame deadline as a now s).rest ∧
      a.feed conn maxFrame s front =
        (.packet p, [], (read conn maxFrame deadline as a now s).service) := by
  fun_induction read conn maxFrame deadline as a now s with
  | case1 a now s stop s' hf | case2 rest a now s stop s' hf =>
    have hs : (a.finish s).1 = .packet p := (congrArg Prod.fst hf).trans h
    rcases a.finish_cases s with ⟨-, hc⟩ | ⟨e, hc⟩ <;> simp [hc] at hs
  | case3 b bs rest a now s a' left s' hf ih =>
    obtain ⟨front, hi, hp⟩ := ih h
    refine ⟨b :: bs ++ front, ?_, ?_⟩
    · rw [inputBytes, hi, List.append_assoc]
    · rw [Assembly.feed_append, hf]
      exact hp
  | case4 b bs rest a now s q left s' hf =>
    obtain rfl : q = p := by simpa using h
    obtain ⟨front, hb, hp⟩ := Assembly.feed_split hf
    refine ⟨front, ?_, hp⟩
    rw [inputBytes, hb, inputBytes_requeue, List.append_assoc]
  | case5 b bs rest a now s e left s' hf => simp at h
  | case6 e rest a now s => simp at h
  | case7 ms rest a now s ht ih => exact ih h
  | case8 ms rest a now s ht => simp at h
  | case9 rest a now s => simp at h

theorem read_encode {as : List Arrival} {now : Nat} {s : Service} {p : Packet}
    (h : (read conn maxFrame deadline as .fresh now s).stop = .packet p) :
    inputBytes as = encode p.payload ++
        inputBytes (read conn maxFrame deadline as .fresh now s).rest ∧
      p.payload.length < tooLong := by
  obtain ⟨front, hi, hf⟩ := read_packet h
  obtain ⟨rfl, hl⟩ := Assembly.encode_of_packet hf
  exact ⟨hi, hl⟩

/-- The input is closed between two frames only when no byte comes any more. -/
theorem read_closed {as : List Arrival} {a : Assembly} {now : Nat} {s : Service}
    (h : (read conn maxFrame deadline as a now s).stop = .closed) :
    a = .fresh ∧ inputBytes as = [] := by
  fun_induction read conn maxFrame deadline as a now s with
  | case1 a now s stop s' hf | case2 rest a now s stop s' hf =>
    have hs : (a.finish s).1 = .closed := (congrArg Prod.fst hf).trans h
    rcases a.finish_cases s with ⟨ha, -⟩ | ⟨e, hc⟩
    · exact ⟨ha, rfl⟩
    · simp [hc] at hs
  | case3 b bs rest a now s a' left s' hf ih =>
    obtain ⟨rfl, -⟩ := ih h
    rcases Assembly.feed_more hf with ⟨hb, -⟩ | hne
    · cases hb
    · exact absurd rfl hne
  | case4 b bs rest a now s q left s' hf => simp at h
  | case5 b bs rest a now s e left s' hf => simp at h
  | case6 e rest a now s => simp at h
  | case7 ms rest a now s ht ih => exact ih h
  | case8 ms rest a now s ht => simp at h
  | case9 rest a now s => simp at h

end Frame

end PacketBudget
