import PacketBudget.Proofs.Framing

/-!
The writer and the reader of frames. Payloads that are written one after another to a sink that
goes on accepting are read as they were, and what was read gives, when it is written again, the
bytes that had come in.
-/

namespace PacketBudget

namespace Sink

/-- No write fails, and each accepts something of what it is offered. -/
def Accepting (k : Sink) : Prop :=
  ∀ calls accepted offered, 0 < offered →
    ∃ m, 0 < m ∧ k.behaviour calls accepted offered = .accept m

/-- `k'` is what becomes of an accepting sink with `bs` written to it. -/
structure Took (k : Sink) (bs : Bytes) (k' : Sink) : Prop where
  accepting : k'.Accepting
  out : k'.out.toList = k.out.toList ++ bs

variable {k k' : Sink} {bs : Bytes}

theorem accepting_limited {n : Nat} (hn : 0 < n) : (limited (some n) none).Accepting := by
  intro calls accepted offered ho
  exact ⟨min offered n, Nat.lt_min.mpr ⟨ho, hn⟩, rfl⟩

theorem Accepting.write (h : k.Accepting) {offered : Nat} (ho : 0 < offered) (bytes : Bytes) :
    (k.write offered bytes).2.Accepting ∧
      ∃ m, 0 < m ∧ (k.write offered bytes).1 = .ok (min m offered) := by
  obtain ⟨m, hm, ha⟩ := h k.calls k.accepted offered ho
  simp only [Sink.write, ha]
  exact ⟨h, m, hm, rfl⟩

theorem Accepting.writeRest (h : k.Accepting) {left : Nat} (hl : bs.length ≤ left) :
    (k.writeRest left bs).1 = none ∧ (k.writeRest left bs).2.Accepting := by
  fun_induction Sink.writeRest k left bs with
  | case1 k => exact ⟨rfl, h⟩
  | case2 k left b bs e k' hw =>
    obtain ⟨-, m, -, hm⟩ := h.write (Nat.zero_lt_of_lt hl) (b :: bs)
    rw [hw] at hm
    cases hm
  | case3 k left b bs k' hw =>
    have hleft : 0 < left := Nat.zero_lt_of_lt hl
    obtain ⟨-, m, hp, hm⟩ := h.write hleft (b :: bs)
    rw [hw] at hm
    have hz : 0 = min m left := Except.ok.inj hm
    omega
  | case4 k left b bs n k' hw ih =>
    obtain ⟨ha, -⟩ := h.write (Nat.zero_lt_of_lt hl) (b :: bs)
    rw [hw] at ha
    refine ih ha ?_
    simp only [List.length_cons, List.length_drop] at hl ⊢
    omega

theorem took_nil (h : k.Accepting) : k.Took [] k := ⟨h, by rw [List.append_nil]⟩

theorem Took.append {k'' : Sink} {cs : Bytes} (h : k.Took bs k') (h' : k'.Took cs k'') :
    k.Took (bs ++ cs) k'' :=
  ⟨h'.accepting, by rw [h'.out, h.out, List.append_assoc]⟩

theorem Accepting.writeAll (h : k.Accepting) (bs : Bytes) :
    ∃ k', k.writeAll bs = (none, k') ∧ k.Took bs k' := by
  obtain ⟨hn, ha⟩ := h.writeRest (Nat.le_refl bs.length)
  obtain ⟨front, -, ho, hf⟩ := out_writeAll k bs
  exact ⟨_, Prod.ext hn rfl, ha, hf hn ▸ ho⟩

end Sink

namespace Frame

/-- Writes frame after frame. -/
def writeEach (k : Sink) : List Bytes → Option IoError × Sink
  | [] => (none, k)
  | p :: ps =>
    match write k p with
    | (none, k) => writeEach k ps
    | (some e, k) => (some e, k)

theorem write_accepting {k : Sink} {p : Bytes} (h : k.Accepting) (hp : p.length < tooLong) :
    ∃ k', write k p = (none, k') ∧ k.Took (encode p) k' := by
  rw [write, if_pos hp]
  exact h.writeAll _

theorem writeEach_accepting {k : Sink} {ps : List Bytes} (h : k.Accepting)
    (hp : ∀ p ∈ ps, p.length < tooLong) :
    ∃ k', writeEach k ps = (none, k') ∧ k.Took (ps.flatMap encode) k' := by
  induction ps generalizing k with
  | nil => exact ⟨k, rfl, Sink.took_nil h⟩
  | cons p ps ih =>
    obtain ⟨hp, hps⟩ := List.forall_mem_cons.mp hp
    obtain ⟨k₁, hw, ht⟩ := write_accepting h hp
    obtain ⟨k₂, hws, hts⟩ := ih ht.accepting hps
    exact ⟨k₂, by simp only [writeEach, hw, hws], ht.append hts⟩

/-- Reads frame after frame, each packet let go before the next is read, until no packet comes.
Gives the payloads and the last reading. -/
def readEach (conn : ConnId) (maxFrame : Nat) (as : List Arrival) (now : Nat) (s : Service) :
    List Bytes × Reading :=
  match _hr : read conn maxFrame none as .fresh now s with
  | ⟨.packet p, rest, now', s'⟩ =>
    let r := readEach conn maxFrame rest now' (s'.dropLease p.lease)
    (p.payload :: r.1, r.2)
  | r => ([], r)
termination_by inputWeight as
decreasing_by
  have hw := @inputWeight_read conn maxFrame none as .fresh now s p (by rw [_hr])
  rwa [_hr] at hw

variable {conn : ConnId} {maxFrame : Nat}

theorem readEach_packet {as rest : List Arrival} {now now' : Nat} {s s' : Service} {p : Packet}
    (h : read conn maxFrame none as .fresh now s = ⟨.packet p, rest, now', s'⟩) :
    readEach conn maxFrame as now s =
      (p.payload :: (readEach conn maxFrame rest now' (s'.dropLease p.lease)).1,
        (readEach conn maxFrame rest now' (s'.dropLease p.lease)).2) := by
  rw [readEach]
  split
  · rename_i hr
    rw [h] at hr
    cases hr
    rfl
  · rename_i hn
    exact absurd h (hn _ _ _ _)

theorem readEach_of_not_packet {as : List Arrival} {now : Nat} {s : Service}
    (h : ∀ p, (read conn maxFrame none as .fresh now s).stop ≠ .packet p) :
    readEach conn maxFrame as now s = ([], read conn maxFrame none as .fresh now s) := by
  rw [readEach]
  split
  · rename_i p _ _ _ hr
    exact absurd (by rw [hr]) (h p)
  · rfl

/-- The frames of acceptable payloads are read one by one, each with the accounts as they were. -/
theorem readEach_cut {s t : Service} {host : HostContext} {e : Entry} {k : Nat} {ps : List Bytes}
    {as : List Arrival} (taken : s.host = some host) (hp : s.Passed conn e k t)
    (hok : ∀ p ∈ ps, p.length < tooLong ∧ Acceptable maxFrame s host e p.length)
    (hc : Cut (ps.flatMap encode) as) (now : Nat) :
    ∃ u, readEach conn maxFrame as now t = (ps, ⟨.closed, [], now, u⟩) ∧
      s.Passed conn e (k + ps.length) u := by
  induction ps generalizing k t as with
  | nil =>
    obtain ⟨as', hc', hr⟩ := read_cut hc (Assembly.outcome_nil conn maxFrame t) none now
    cases hc'
    refine ⟨t, ?_, hp⟩
    rw [readEach_of_not_packet (by rw [hr]; nofun), hr]
  | cons p ps ih =>
    obtain ⟨⟨hl, ha⟩, hok⟩ := List.forall_mem_cons.mp hok
    obtain ⟨u, holder, ho, hold⟩ := Assembly.outcome_encode hp taken hl ha (ps.flatMap encode)
    obtain ⟨as', hc', hr⟩ := read_cut hc ho none now
    rw [readEach_packet hr]
    obtain ⟨v, hv, hv'⟩ := ih (hold.dropLease holder) hok hc'
    refine ⟨v, by rw [hv], ?_⟩
    rwa [List.length_cons, Nat.add_comm ps.length, ← Nat.add_assoc]

/-- Up to a clean end, the frames of the payloads that were read are what had come in. -/
theorem encode_of_readEach {as : List Arrival} {now : Nat} {s : Service}
    (h : (readEach conn maxFrame as now s).2.stop = .closed) :
    inputBytes as = (readEach conn maxFrame as now s).1.flatMap encode ∧
      ∀ p ∈ (readEach conn maxFrame as now s).1, p.length < tooLong := by
  fun_induction readEach conn maxFrame as now s with
  | case1 as now s p rest now' s' hr r ih =>
    have hs : (read conn maxFrame none as .fresh now s).stop = .packet p := by rw [hr]
    obtain ⟨hi, hl⟩ := read_encode hs
    obtain ⟨his, hls⟩ := ih h
    refine ⟨?_, List.forall_mem_cons.mpr ⟨hl, hls⟩⟩
    rw [hi, hr, List.flatMap_cons, his]
  | case2 as now s hn =>
    obtain ⟨-, hi⟩ := read_closed h
    exact ⟨hi, nofun⟩

/-- What is written is read, payload by payload; a packet that was read takes up just what writing
it gives; and what was read up to a clean end gives all of the input when it is written again. -/
theorem frames_round_trip (conn : ConnId) (maxFrame : Nat) (s : Service) {k : Sink}
    (hk : k.Accepting) :
    (∀ host e, s.host = some host → s.entry? conn = some e →
      ∀ ps : List Bytes, (∀ p ∈ ps, p.length < tooLong ∧ Acceptable maxFrame s host e p.length) →
        (∃ k', writeEach k ps = (none, k') ∧ k.Took (ps.flatMap encode) k') ∧
        ∀ as now, Cut (ps.flatMap encode) as →
          ∃ u, readEach conn maxFrame as now s = (ps, ⟨.closed, [], now, u⟩) ∧
            s.Passed conn e ps.length u) ∧
    (∀ deadline as now p, (read conn maxFrame deadline as .fresh now s).stop = .packet p →
      (∃ k', write k p.payload = (none, k') ∧ k.Took (encode p.payload) k') ∧
      inputBytes as = encode p.payload ++
        inputBytes (read conn maxFrame deadline as .fresh now s).rest) ∧
    (∀ as now, (readEach conn maxFrame as now s).2.stop = .closed →
      ∃ k', writeEach k (readEach conn maxFrame as now s).1 = (none, k') ∧
        k.Took (inputBytes as) k') := by
  refine ⟨?_, ?_, ?_⟩
  · intro host e taken found ps hok
    refine ⟨writeEach_accepting hk fun p hp => (hok p hp).1, fun as now hc => ?_⟩
    obtain ⟨u, hu, hu'⟩ := readEach_cut taken (Service.passed_self found) hok hc now
    rw [Nat.zero_add] at hu'
    exact ⟨u, hu, hu'⟩
  · intro deadline as now p hs
    obtain ⟨hi, hl⟩ := read_encode hs
    exact ⟨write_accepting hk hl, hi⟩
  · intro as now hs
    obtain ⟨hi, hl⟩ := encode_of_readEach hs
    rw [hi]
    exact writeEach_accepting hk hl

/-- Three bytes are accepted at a time, and a cut goes through each header. -/
theorem frames_round_trip_in_small_pieces :
    ∃ s al, Service.create 100 {} = .ok (s, al) ∧
      (∃ k', writeEach (.limited (some 3) none) [[104, 105], []] = (none, k') ∧
        k'.out.toList = [0, 0, 0, 2, 104, 105, 0, 0, 0, 0]) ∧
      ∃ u, readEach ⟨7⟩ 2 [.data [0, 0], .data [0, 2, 104, 105, 0], .data [0, 0, 0]] 0
          (s.run [.init ⟨"host", ⟨10, 2⟩⟩, .connect ⟨7⟩]).2 =
        ([[104, 105], []], ⟨.closed, [], 0, u⟩) := by
  let s : Service := ⟨⟨1⟩, none, .ofCeiling 100, [.constructed ⟨1⟩ 100]⟩
  let t := (s.run [.init ⟨"host", ⟨10, 2⟩⟩, .connect ⟨7⟩]).2
  have hk : (Sink.limited (some 3) none).Accepting := Sink.accepting_limited (by decide)
  obtain ⟨⟨k', hw, ht⟩, hr⟩ := (frames_round_trip ⟨7⟩ 2 t hk).1 ⟨"host", ⟨10, 2⟩⟩
    { epoch := 1, overhead := 10 } rfl (by decide) [[104, 105], []] (by decide)
  have hc : Cut [0, 0, 0, 2, 104, 105, 0, 0, 0, 0]
      [.data [0, 0], .data [0, 2, 104, 105, 0], .data [0, 0, 0]] :=
    @Cut.cons 0 [0] _ _ (@Cut.cons 0 [2, 104, 105, 0] _ _ (@Cut.cons 0 [0, 0] _ _ .nil))
  obtain ⟨u, hu, -⟩ := hr _ 0 hc
  exact ⟨s, _, rfl, ⟨k', hw, ht.out⟩, u, hu⟩

end Frame

end PacketBudget
