import PacketBudget.Proofs.Locality
import PacketBudget.Proofs.Restoring

/-!
What the reading of one frame comes to. It follows from the bytes that come in and from nothing
else about their arrival: how the reading stops, which bytes are left for the next frame, and what
has become of the service.
-/

namespace PacketBudget

namespace Service

/-- `t` is `s` with the refusal of a packet counted and reported; nothing else has changed. -/
structure Refused (s : Service) (f : Fault) (t : Service) : Prop where
  identity : t.identity = s.identity
  host : t.host = s.host
  accounts : t.ledger.accounts = s.ledger.accounts
  counters : t.counters = s.counters.tickAll (.incr .packetsRejected :: f.ticks)
  reported : ∃ n, t.journal = n :: s.journal

variable {s t : Service} {conn : ConnId} {n : Nat} {f : Fault}

theorem refused_of_charge (h : s.charge conn n = (.error f, t)) : s.Refused f t := by
  cases hh : s.host with
  | none =>
    simp only [charge, hh, Prod.mk.injEq, Except.error.injEq] at h
    obtain ⟨rfl, rfl⟩ := h
    exact ⟨rfl, rfl, rfl, rfl, _, rfl⟩
  | some c =>
    rcases hr : s.ledger.accounts.charge conn n c.policy.cap with g | r
    · simp only [charge, hh, Ledger.charge, hr, Prod.mk.injEq, Except.error.injEq] at h
      obtain ⟨rfl, rfl⟩ := h
      exact ⟨rfl, hh.symm, rfl, rfl, _, rfl⟩
    · simp only [charge, hh, Ledger.charge, hr, Prod.mk.injEq, reduceCtorEq, false_and] at h

/-- A packet finds nobody exactly where a host has taken the service up and the connection is not
registered. -/
theorem notFound_iff (h : s.charge conn n = (.error f, t)) :
    f.kind = .notFound ↔ s.isInitialized = true ∧ s.entry? conn = none := by
  rcases charge_refused (congrArg Prod.fst h) with ⟨hh, rfl⟩ | ⟨c, hh, hr⟩
  · simp [Fault.kind, isInitialized, hh]
  · rcases Accounts.charge_error hr with ⟨he, rfl⟩ | ⟨e, m, he, rfl, -⟩
    · have he : s.entry? conn = none := he
      simp [Fault.kind, isInitialized, hh, he]
    · have he : s.entry? conn = some e := he
      simp [Fault.kind, he]

theorem lease_refused (h : s.lease conn n = (.error f, t)) : s.charge conn n = (.error f, t) := by
  rw [lease] at h
  rcases hc : s.charge conn n with ⟨_ | c, u⟩ <;> rw [hc] at h <;> cases h
  rfl

end Service

namespace Frame

/-- What the reading of one frame comes to if `bs` is all that comes in: how it stops, the bytes
that it leaves and the service. The first four bytes are `hd`. -/
inductive Received (conn : ConnId) (maxFrame : Nat) (s : Service) :
    Bytes → Stop → Bytes → Service → Prop
  | nothing : Received conn maxFrame s [] .closed [] s
  | headless {bs : Bytes} {e : IoError} (begun : bs ≠ []) (short : bs.length < headerSize)
      (kind : e.kind = .unexpectedEof) : Received conn maxFrame s bs (.failed e) [] s
  | tooLarge {hd tl : Bytes} {e : IoError} (whole : hd.length = headerSize)
      (large : maxFrame < lengthOf hd) (kind : e.kind = .invalidData) :
      Received conn maxFrame s (hd ++ tl) (.failed e) tl s
  | refused {hd tl : Bytes} {f : Fault} {t : Service} (whole : hd.length = headerSize)
      (bounded : lengthOf hd ≤ maxFrame) (asked : (s.charge conn (lengthOf hd)).1 = .error f)
      (exhausted : f.toIoError.kind = .outOfMemory ↔ f.isBudgetExhausted = true)
      (unknown : f.toIoError.kind = .notFound ↔ s.isInitialized = true ∧ s.entry? conn = none)
      (counted : s.Refused f t) : Received conn maxFrame s (hd ++ tl) (.failed f.toIoError) tl t
  | truncated {hd tl : Bytes} {c : Charge} {e : IoError} {t : Service}
      (whole : hd.length = headerSize) (bounded : lengthOf hd ≤ maxFrame)
      (asked : (s.charge conn (lengthOf hd)).1 = .ok c) (short : tl.length < lengthOf hd)
      (kind : e.kind = .unexpectedEof) (returned : s.Restores t) :
      Received conn maxFrame s (hd ++ tl) (.failed e) [] t
  | packet {hd tl : Bytes} {p : Packet} {e : Entry} {t : Service}
      (whole : hd.length = headerSize) (bounded : lengthOf hd ≤ maxFrame)
      (asked : (s.charge conn (lengthOf hd)).1 = .ok p.lease.charge)
      (size : p.payload.length = lengthOf hd) (used : t.used = s.used + lengthOf hd)
      (found : s.entry? conn = some e) (entry : t.entry? conn = some (e.charge (lengthOf hd)))
      (returned : s.Restores (t.dropLease p.lease)) :
      Received conn maxFrame s (hd ++ p.payload ++ tl) (.packet p) tl t

namespace Assembly

variable {conn : ConnId} {maxFrame : Nat} {s t : Service} {hd : Bytes} {l : Lease}

theorem received_refused {f : Fault} (hh : hd.length = headerSize) (hb : lengthOf hd ≤ maxFrame)
    (hl : s.lease conn (lengthOf hd) = (.error f, t)) (tl : Bytes) :
    fresh.outcome conn maxFrame s (hd ++ tl) = (.failed f.toIoError, tl, t) ∧
      Received conn maxFrame s (hd ++ tl) (.failed f.toIoError) tl t := by
  have hc := Service.lease_refused hl
  constructor
  · simp only [outcome, feed_fresh hh, begin, if_neg (Nat.not_lt.mpr hb), hl]
  · exact .refused hh hb (congrArg Prod.fst hc) Fault.kind_eq_outOfMemory_iff
      (Service.notFound_iff hc) (Service.refused_of_charge hc)

/-- A frame that is granted is a packet if all of it comes in, and gives its charge back if not. -/
theorem received_granted (hh : hd.length = headerSize) (hb : lengthOf hd ≤ maxFrame)
    (hl : s.lease conn (lengthOf hd) = (.ok l, t)) (tl : Bytes) :
    ∃ stop left u, fresh.outcome conn maxFrame s (hd ++ tl) = (stop, left, u) ∧
      Received conn maxFrame s (hd ++ tl) stop left u := by
  obtain ⟨e, found, hcharge, hold⟩ := Service.lease_ok hl
  have hreturned := Service.lease_restores hl
  have hasked : (s.charge conn (lengthOf hd)).1 = .ok l.charge := by
    rw [Service.lease] at hl
    rcases hc : s.charge conn (lengthOf hd) with ⟨_ | c, u⟩ <;> rw [hc] at hl <;> cases hl
    rfl
  by_cases hle : lengthOf hd ≤ tl.length
  · refine ⟨.packet ⟨l, tl.take (lengthOf hd)⟩, tl.drop (lengthOf hd), t, ?_, ?_⟩
    · rw [outcome, feed_granted hh hb hl, if_pos hle]
    · have hlen : (tl.take (lengthOf hd)).length = lengthOf hd := List.length_take_of_le hle
      have hr : Received conn maxFrame s (hd ++ tl.take (lengthOf hd) ++ tl.drop (lengthOf hd))
          (.packet ⟨l, tl.take (lengthOf hd)⟩) (tl.drop (lengthOf hd)) t :=
        .packet (p := ⟨l, tl.take (lengthOf hd)⟩) hh hb hasked hlen hold.used_eq found hold.found
          hreturned
      rwa [List.append_assoc, List.take_append_drop] at hr
  · refine ⟨.failed truncatedPayload, [], t.dropLease l, ?_,
      .truncated hh hb hasked (Nat.not_le.mp hle) rfl hreturned⟩
    rw [outcome, feed_granted hh hb hl, if_neg hle]
    rfl

theorem outcome_received (conn : ConnId) (maxFrame : Nat) (s : Service) (bs : Bytes) :
    ∃ stop left t, fresh.outcome conn maxFrame s bs = (stop, left, t) ∧
      Received conn maxFrame s bs stop left t := by
  by_cases hz : bs = []
  · subst hz
    exact ⟨_, _, _, outcome_nil conn maxFrame s, .nothing⟩
  by_cases hs : bs.length < headerSize
  · exact ⟨_, _, _, outcome_short hz hs s, .headless hz hs rfl⟩
  obtain ⟨hd, tl, rfl, hh⟩ := exists_header hs
  by_cases hm : maxFrame < lengthOf hd
  · refine ⟨.failed Frame.tooLarge, tl, s, ?_, .tooLarge hh hm rfl⟩
    simp only [outcome, feed_fresh hh, begin, if_pos hm]
  have hb : lengthOf hd ≤ maxFrame := Nat.not_lt.mp hm
  rcases hl : s.lease conn (lengthOf hd) with ⟨f | l, t⟩
  · exact ⟨_, _, _, received_refused hh hb hl tl⟩
  · exact received_granted hh hb hl tl

end Assembly

/-- What a frame comes to is decided by the bytes that come in before the end of the input, however
they are cut into pieces. -/
theorem reception_follows_bytes (conn : ConnId) (maxFrame : Nat) (s : Service) (bs : Bytes) :
    ∃ stop left t, Received conn maxFrame s bs stop left t ∧
      ∀ as, Cut bs as → ∀ deadline now, ∃ rest, Cut left rest ∧
        read conn maxFrame deadline as .fresh now s = ⟨stop, rest, now, t⟩ := by
  obtain ⟨stop, left, t, ho, hr⟩ := Assembly.outcome_received conn maxFrame s bs
  exact ⟨stop, left, t, hr, fun as hc deadline now => read_cut hc ho deadline now⟩

/-- A cut through the header and one through the payload. -/
theorem reception_follows_bytes_of_two_cuts :
    ∃ s al t, Service.create 100 {} = .ok (s, al) ∧
      Received ⟨7⟩ 8 (s.run [.init ⟨"host", ⟨10, 2⟩⟩, .connect ⟨7⟩]).2 [0, 0, 0, 2, 104, 105, 9]
        (.packet ⟨⟨⟨1⟩, ⟨⟨7⟩, 1, 2⟩⟩, [104, 105]⟩) [9] t ∧
      read ⟨7⟩ 8 none [.data [0], .data [0, 0, 2, 104], .data [105, 9]] .fresh 0
          (s.run [.init ⟨"host", ⟨10, 2⟩⟩, .connect ⟨7⟩]).2 =
        ⟨.packet ⟨⟨⟨1⟩, ⟨⟨7⟩, 1, 2⟩⟩, [104, 105]⟩, [.data [9]], 0, t⟩ := by
  let s : Service := ⟨⟨1⟩, none, .ofCeiling 100, [.constructed ⟨1⟩ 100]⟩
  let u := (s.run [.init ⟨"host", ⟨10, 2⟩⟩, .connect ⟨7⟩]).2
  have hc : Cut [0, 0, 0, 2, 104, 105, 9] [.data [0], .data [0, 0, 2, 104], .data [105, 9]] :=
    @Cut.cons 0 [] _ _ (@Cut.cons 0 [0, 2, 104] _ _ (@Cut.cons 105 [9] _ _ .nil))
  obtain ⟨stop, left, t, hr, hread⟩ :=
    reception_follows_bytes ⟨7⟩ 8 u [0, 0, 0, 2, 104, 105, 9]
  obtain ⟨rest, hrest, hread⟩ := hread _ hc none 0
  obtain ⟨t', ht⟩ : ∃ t', read ⟨7⟩ 8 none [.data [0], .data [0, 0, 2, 104], .data [105, 9]]
      .fresh 0 u = ⟨.packet ⟨⟨⟨1⟩, ⟨⟨7⟩, 1, 2⟩⟩, [104, 105]⟩, [.data [9]], 0, t'⟩ := ⟨_, rfl⟩
  obtain ⟨rfl, rfl, -, rfl⟩ := Reading.mk.inj (hread.symm.trans ht)
  obtain rfl : left = [9] := hrest.inputBytes.symm
  exact ⟨s, _, t, rfl, hr, ht⟩

end Frame

end PacketBudget
