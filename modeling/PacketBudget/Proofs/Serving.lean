import PacketBudget.Conversation
import PacketBudget.Proofs.RoundTrip

/-!
Conversations that only reply. A client whose bytes come in without a delay is served the longest
front part of them that is made of acceptable frames, and what follows it decides how the
conversation ends. Every packet meets the accounts that the first one met.
-/

namespace PacketBudget

namespace Frame

theorem encode_append_inj {p q bs cs : Bytes} (hp : p.length < tooLong) (hq : q.length < tooLong)
    (h : encode p ++ bs = encode q ++ cs) : p = q ∧ bs = cs := by
  simp only [encode, List.append_assoc] at h
  obtain ⟨hh, ht⟩ := List.append_inj h rfl
  have hl : p.length = q.length := by
    rw [← lengthOf_header hp, ← lengthOf_header hq, hh]
  exact List.append_inj ht hl

/-- `bs` is the frames of `ps`, which have acceptable lengths, and `rest`. -/
structure Framed (ok : Nat → Prop) (bs : Bytes) (ps : List Bytes) (rest : Bytes) : Prop where
  whole : bs = ps.flatMap encode ++ rest
  accepted : ∀ p ∈ ps, p.length < tooLong ∧ ok p.length

/-- No more of `bs` than the frames of `ps` is made of acceptable frames. -/
structure LongestFramed (ok : Nat → Prop) (bs : Bytes) (ps : List Bytes) (rest : Bytes) : Prop
    extends Framed ok bs ps rest where
  longest : ∀ qs more, Framed ok bs qs more → qs <+: ps

/-- The acceptable frames in front of `bs`, one after another, up to where there is none. -/
inductive Parsed (ok : Nat → Prop) : Bytes → List Bytes → Bytes → Prop
  | stop {bs : Bytes} (ended : ∀ p more, ¬ Framed ok bs [p] more) : Parsed ok bs [] bs
  | frame {p bs : Bytes} {ps : List Bytes} {rest : Bytes} (fits : p.length < tooLong)
      (accepted : ok p.length) (tail : Parsed ok bs ps rest) :
      Parsed ok (encode p ++ bs) (p :: ps) rest

variable {ok : Nat → Prop}

theorem exists_parsed (ok : Nat → Prop) (bs : Bytes) : ∃ ps rest, Parsed ok bs ps rest := by
  induction hn : bs.length using Nat.strongRecOn generalizing bs with
  | ind n ih =>
    by_cases hf : ∃ p more, Framed ok bs [p] more
    · obtain ⟨p, more, hw, ha⟩ := hf
      obtain ⟨hl, ha⟩ := ha p List.mem_cons_self
      simp only [List.flatMap_cons, List.flatMap_nil, List.append_nil] at hw
      have hlt : more.length < n := by
        rw [← hn, hw, List.length_append, length_encode, headerSize]
        omega
      obtain ⟨ps, rest, hp⟩ := ih _ hlt more rfl
      exact ⟨p :: ps, rest, hw ▸ .frame hl ha hp⟩
    · exact ⟨[], bs, .stop fun p more h => hf ⟨p, more, h⟩⟩

theorem Framed.head {bs more q : Bytes} {qs : List Bytes} (h : Framed ok bs (q :: qs) more) :
    Framed ok bs [q] (qs.flatMap encode ++ more) := by
  constructor
  · rw [h.whole, List.flatMap_cons, List.flatMap_singleton, List.append_assoc]
  · intro p hm
    obtain rfl := List.mem_singleton.mp hm
    exact h.accepted p List.mem_cons_self

/-- There is only one longest front part. -/
theorem LongestFramed.unique {bs rest more : Bytes} {ps qs : List Bytes}
    (h : LongestFramed ok bs ps rest) (h' : LongestFramed ok bs qs more) :
    ps = qs ∧ rest = more := by
  obtain rfl : ps = qs :=
    (h'.longest ps rest h.toFramed).eq_of_length_le (h.longest qs more h'.toFramed).length_le
  exact ⟨rfl, List.append_cancel_left (h.whole.symm.trans h'.whole)⟩

theorem Parsed.framed {bs rest : Bytes} {ps : List Bytes} (h : Parsed ok bs ps rest) :
    Framed ok bs ps rest := by
  induction h with
  | stop => exact ⟨rfl, nofun⟩
  | frame fits accepted tail ih =>
    refine ⟨?_, List.forall_mem_cons.mpr ⟨⟨fits, accepted⟩, ih.accepted⟩⟩
    rw [List.flatMap_cons, List.append_assoc, ← ih.whole]

theorem Parsed.longestFramed {bs rest : Bytes} {ps : List Bytes} (h : Parsed ok bs ps rest) :
    LongestFramed ok bs ps rest := by
  refine ⟨h.framed, ?_⟩
  induction h with
  | stop ended =>
    intro qs more hq
    cases qs with
    | nil => exact List.prefix_refl _
    | cons q qs => exact absurd hq.head (ended q _)
  | @frame p bs ps rest fits accepted tail ih =>
    intro qs more hq
    cases qs with
    | nil => exact List.nil_prefix
    | cons q qs =>
      obtain ⟨⟨hl, -⟩, hqs⟩ := List.forall_mem_cons.mp hq.accepted
      have hw := hq.whole
      rw [List.flatMap_cons, List.append_assoc] at hw
      obtain ⟨rfl, htail⟩ := encode_append_inj fits hl hw
      exact (List.prefix_cons_inj p).mpr (ih qs more ⟨htail, hqs⟩)

/-- A header whose length is not acceptable begins no frame. -/
theorem not_framed_of_header {hd : Bytes} (hh : hd.length = headerSize)
    (ha : ¬ ok (lengthOf hd)) (tl p more : Bytes) : ¬ Framed ok (hd ++ tl) [p] more := by
  intro h
  obtain ⟨hl, hok⟩ := h.accepted p List.mem_cons_self
  have hw := h.whole
  rw [List.flatMap_singleton, encode, List.append_assoc] at hw
  obtain ⟨rfl, -⟩ := List.append_inj hw hh
  rw [lengthOf_header hl] at ha
  exact ha hok

/-- A header with an acceptable length that begins no frame has too little behind it. -/
theorem short_of_not_framed {hd tl : Bytes} (hh : hd.length = headerSize) (ha : ok (lengthOf hd))
    (hn : ∀ p more, ¬ Framed ok (hd ++ tl) [p] more) : tl.length < lengthOf hd := by
  apply Nat.not_le.mp
  intro hle
  apply hn (tl.take (lengthOf hd)) (tl.drop (lengthOf hd))
  constructor
  · rw [List.flatMap_singleton, encode_take hh hle, List.append_assoc, List.take_append_drop]
  · intro p hm
    obtain rfl := List.mem_singleton.mp hm
    rw [List.length_take_of_le hle]
    exact ⟨lengthOf_lt hh, ha⟩

/-- How a conversation ends when nothing acceptable is at the front of `rest`, which is all that
still comes. -/
def verdict (maxFrame : Nat) (s : Service) (host : HostContext) (e : Entry) (rest : Bytes) :
    Ending :=
  if rest = [] then .closed
  else if rest.length < headerSize then .failed truncatedHeader
  else if Acceptable maxFrame s host e (lengthOf (rest.take headerSize)) then
    .failed truncatedPayload
  else .failed (Assembly.objection maxFrame s host e (lengthOf (rest.take headerSize)))

theorem verdict_ok_iff {maxFrame : Nat} {s : Service} {host : HostContext} {e : Entry}
    {rest : Bytes} :
    (verdict maxFrame s host e rest).result? = some (.ok ()) ↔ rest = [] := by
  unfold verdict
  split
  · simp [Ending.result?, *]
  · repeat' split
    all_goals simp [Ending.result?, *]

theorem verdict_ne_waiting {maxFrame : Nat} {s : Service} {host : HostContext} {e : Entry}
    {rest : Bytes} (a : Assembly) : verdict maxFrame s host e rest ≠ .waiting a := by
  unfold verdict
  repeat' split
  all_goals nofun

end Frame

namespace Conversation

open PacketBudget.Frame (Assembly)

variable {l : Limits} {h : Handler} {conn : ConnId} {patience : Option Nat} {c : Conversation}
variable {bs left : Bytes} {u : Service}

/-- The ending that a reading without a packet comes to, if it is over. -/
def ending? : Frame.Stop → Option Ending
  | .closed => some .closed
  | .failed e => some (.failed e)
  | .packet _ | .waiting _ => none

theorem goOn_stop {stop : Frame.Stop} {ending : Ending} (hc : Cut bs c.input)
    (ho : Assembly.fresh.outcome conn l.maxFrame c.service bs = (stop, left, u))
    (hs : ending? stop = some ending) :
    ∃ rest, c.goOn l h conn patience .fresh = (ending, { c with input := rest, service := u }) := by
  obtain ⟨rest, -, hr⟩ := Frame.read_cut hc ho (earlier (l.deadline c.now) patience) c.now
  refine ⟨rest, ?_⟩
  rw [goOn]
  split <;> rename_i hr' <;> rw [hr] at hr' <;> cases hr' <;> cases hs <;> rfl

theorem goOn_packet {p : Packet} (hc : Cut bs c.input)
    (ho : Assembly.fresh.outcome conn l.maxFrame c.service bs = (.packet p, left, u)) :
    ∃ rest, Cut left rest ∧ ∀ served,
      serve h conn p { c with input := rest, service := u } = (none, served) →
        c.goOn l h conn patience .fresh = served.goOn l h conn patience .fresh := by
  obtain ⟨rest, hl, hr⟩ := Frame.read_cut hc ho (earlier (l.deadline c.now) patience) c.now
  refine ⟨rest, hl, fun served hs => ?_⟩
  rw [goOn]
  split <;> rename_i hr' <;> rw [hr] at hr' <;> cases hr'
  split <;> rename_i hs' <;> rw [hs] at hs' <;> cases hs'
  rfl

/-- What serving the packets `ps` with the replies of `f` makes of a conversation. The service was
`s` when the first of them was there. -/
structure Served (s : Service) (conn : ConnId) (e : Entry) (f : Bytes → Option Bytes)
    (ps : List Bytes) (c c' : Conversation) : Prop where
  calls : ∃ xs : List Exchange, c'.exchanges = xs.reverse ++ c.exchanges ∧
    xs.map Exchange.payload = ps ∧ ∀ x ∈ xs, ∃ k, s.Holds conn e k x.payload.length x.seen
  replies : c.sink.Took ((ps.filterMap f).flatMap Frame.encode) c'.sink
  books : ∃ k, s.Passed conn e k c'.service

variable {s : Service} {host : HostContext} {e : Entry} {f : Bytes → Option Bytes} {k : Nat}

theorem served_nothing {rest : List Arrival} (hk : c.sink.Accepting)
    (hp : s.Passed conn e k u) : Served s conn e f [] c { c with input := rest, service := u } :=
  ⟨⟨[], rfl, rfl, nofun⟩, Sink.took_nil hk, k, hp⟩

theorem Served.append {ps qs : List Bytes} {c' c'' : Conversation}
    (h : Served s conn e f ps c c') (h' : Served s conn e f qs c' c'') :
    Served s conn e f (ps ++ qs) c c'' := by
  obtain ⟨xs, hx, hm, hs⟩ := h.calls
  obtain ⟨ys, hy, hm', hs'⟩ := h'.calls
  refine ⟨⟨xs ++ ys, ?_, ?_, ?_⟩, ?_, h'.books⟩
  · rw [hy, hx, List.reverse_append, List.append_assoc]
  · rw [List.map_append, hm, hm']
  · intro x hxy
    rcases List.mem_append.mp hxy with hx | hy
    · exact hs x hx
    · exact hs' x hy
  · rw [List.filterMap_append, List.flatMap_append]
    exact h.replies.append h'.replies

/-- Writes a reply, if there is one. -/
def writeReply (k : Sink) : Option Bytes → Option IoError × Sink
  | none => (none, k)
  | some r => Frame.write k r

theorem serve_ofReply (f : Bytes → Option Bytes) (conn : ConnId) (p : Packet) (c : Conversation) :
    serve (.ofReply f) conn p c =
      ((writeReply c.sink (f p.payload)).1,
        { c with
          sink := (writeReply c.sink (f p.payload)).2
          service := (c.service.note (.packet conn p.payload.length)).dropLease p.lease
          exchanges :=
            ⟨p.payload, c.service.note (.packet conn p.payload.length), []⟩ :: c.exchanges }) := by
  cases hr : f p.payload <;> simp only [serve, Handler.ofReply, Service.run, hr, writeReply]

theorem writeReply_accepting {k : Sink} {o : Option Bytes} (hk : k.Accepting)
    (ho : ∀ r, o = some r → r.length < Frame.tooLong) :
    ∃ k', writeReply k o = (none, k') ∧ k.Took (o.toList.flatMap Frame.encode) k' := by
  cases o with
  | none => exact ⟨k, rfl, Sink.took_nil hk⟩
  | some r =>
    rw [Option.toList_some, List.flatMap_singleton]
    exact Frame.write_accepting hk (ho r rfl)

/-- The handler meets the packet charged, its reply is written, and the charge goes. -/
theorem serve_packet {p : Bytes} (hk : c.sink.Accepting)
    (hf : ∀ r, f p = some r → r.length < Frame.tooLong)
    (hold : s.Holds conn e k p.length c.service) (holder : Identity) :
    ∃ c', serve (.ofReply f) conn ⟨⟨holder, ⟨conn, e.epoch, p.length⟩⟩, p⟩ c = (none, c') ∧
      c'.input = c.input ∧ Served s conn e f [p] c c' ∧ s.Passed conn e (k + 1) c'.service := by
  have hseen := hold.note (.packet conn p.length)
  have hgone := hseen.dropLease holder
  obtain ⟨k', hw, ht⟩ := writeReply_accepting hk hf
  have hnone : (writeReply c.sink (f p)).1 = none := by rw [hw]
  refine ⟨_, (serve_ofReply ..).trans (Prod.ext hnone rfl), rfl,
    ⟨⟨[_], rfl, rfl, ?_⟩, ?_, _, hgone⟩, hgone⟩
  · intro x hx
    obtain rfl := List.mem_singleton.mp hx
    exact ⟨k, hseen⟩
  · have hone : [p].filterMap f = (f p).toList := by cases hr : f p <;> simp [hr]
    rw [hone, hw]
    exact ht

/-- Where there is no acceptable frame any more, the conversation ends as its verdict says. -/
theorem goOn_end (taken : s.host = some host)
    (hcap : host.policy.cap = 0 ∨ e.packetBytes ≤ host.policy.cap) (hc : Cut bs c.input)
    (hp : s.Passed conn e k c.service)
    (hn : ∀ p more, ¬ Frame.Framed (Acceptable l.maxFrame s host e) bs [p] more) :
    ∃ rest u k', s.Passed conn e k' u ∧ c.goOn l h conn patience .fresh =
      (Frame.verdict l.maxFrame s host e bs, { c with input := rest, service := u }) := by
  by_cases hz : bs = []
  · subst hz
    obtain ⟨rest, hg⟩ := goOn_stop hc (Assembly.outcome_nil ..) rfl
    exact ⟨rest, _, k, hp, hg⟩
  by_cases hs : bs.length < Frame.headerSize
  · obtain ⟨rest, hg⟩ := goOn_stop hc (Assembly.outcome_short hz hs _) rfl
    refine ⟨rest, _, k, hp, ?_⟩
    rw [Frame.verdict, if_neg hz, if_pos hs, hg]
  obtain ⟨hd, tl, rfl, hh⟩ := Frame.exists_header hs
  have hv : Frame.verdict l.maxFrame s host e (hd ++ tl) =
      if Acceptable l.maxFrame s host e (Frame.lengthOf hd) then .failed Frame.truncatedPayload
      else .failed (Assembly.objection l.maxFrame s host e (Frame.lengthOf hd)) := by
    rw [Frame.verdict, if_neg hz, if_neg hs, List.take_left' hh]
  by_cases ha : Acceptable l.maxFrame s host e (Frame.lengthOf hd)
  · have hlt := Frame.short_of_not_framed hh ha hn
    obtain ⟨u, ho, hu⟩ := Assembly.outcome_truncated hp taken hh ha hlt
    obtain ⟨rest, hg⟩ := goOn_stop hc ho rfl
    exact ⟨rest, u, k + 1, hu, by rw [hv, if_pos ha, hg]⟩
  · obtain ⟨u, ho, hu⟩ := Assembly.outcome_refused hp taken hcap hh ha
    obtain ⟨rest, hg⟩ := goOn_stop hc ho rfl
    exact ⟨rest, u, k, hu, by rw [hv, if_neg ha, hg]⟩

theorem goOn_parsed {ps : List Bytes} {rest : Bytes} (patience : Option Nat)
    (taken : s.host = some host)
    (hcap : host.policy.cap = 0 ∨ e.packetBytes ≤ host.policy.cap)
    (hparsed : Frame.Parsed (Acceptable l.maxFrame s host e) bs ps rest)
    (hf : ∀ p ∈ ps, ∀ r, f p = some r → r.length < Frame.tooLong) (hc : Cut bs c.input)
    (hk : c.sink.Accepting) (hp : s.Passed conn e k c.service) :
    ∃ c', c.goOn l (.ofReply f) conn patience .fresh =
        (Frame.verdict l.maxFrame s host e rest, c') ∧ Served s conn e f ps c c' := by
  induction hparsed generalizing c k with
  | stop ended =>
    obtain ⟨rest, u, k', hp', hg⟩ := goOn_end taken hcap hc hp ended
    exact ⟨_, hg, served_nothing hk hp'⟩
  | @frame p bs ps rest fits accepted tail ih =>
    obtain ⟨hfp, hfs⟩ := List.forall_mem_cons.mp hf
    obtain ⟨u, holder, ho, hold⟩ := Assembly.outcome_encode hp taken fits accepted bs
    obtain ⟨rest', hc', hg⟩ := goOn_packet hc ho
    obtain ⟨c₁, hs, hi, hfirst, hp'⟩ := serve_packet
      (c := { c with input := rest', service := u }) hk hfp hold holder
    obtain ⟨c₂, hg₂, hmore⟩ := ih hfs (hi ▸ hc') hfirst.replies.accepting hp'
    have hone : Served s conn e f [p] c c₁ := ⟨hfirst.calls, hfirst.replies, hfirst.books⟩
    exact ⟨c₂, (hg c₁ hs).trans hg₂, hone.append hmore⟩

/-- Of all that a client sends, the longest front part that is made of acceptable frames is served,
in order and whatever the cuts, each packet on the same accounts; then the conversation ends as the
verdict on the rest says, and the accounts are as they were but for the count of packets. -/
theorem frames_are_served {limit : Int64} {al al' : Allocator} {s₀ : Service}
    (h : Service.create limit al = .ok (s₀, al')) (ks : List Call) (l : Limits)
    (f : Bytes → Option Bytes) (patience : Option Nat) (hs : c.service = (s₀.run ks).2)
    (taken : c.service.host = some host) (found : c.service.entry? conn = some e)
    (hc : Cut bs c.input) (hk : c.sink.Accepting) :
    ∃ ps rest, Frame.LongestFramed (Acceptable l.maxFrame c.service host e) bs ps rest ∧
      ((∀ p ∈ ps, ∀ r, f p = some r → r.length < Frame.tooLong) →
        ∃ ending c', c.run l (.ofReply f) conn patience = (ending, c') ∧
          ending = Frame.verdict l.maxFrame c.service host e rest ∧
          (ending.result? = some (.ok ()) ↔ rest = []) ∧
          (∃ xs : List Exchange, c'.exchanges = xs.reverse ++ c.exchanges ∧
            xs.map Exchange.payload = ps ∧
            ∀ x ∈ xs, x.seen.used = c.service.used + x.payload.length ∧
              ∃ y, x.seen.entry? conn = some y ∧
                y.packetBytes = e.packetBytes + x.payload.length ∧
                y.inFlight = e.inFlight + 1) ∧
          c.sink.Took ((ps.filterMap f).flatMap Frame.encode) c'.sink ∧
          ∃ k, c.service.Passed conn e k c'.service) := by
  obtain ⟨ps, rest, hparsed⟩ :=
    Frame.exists_parsed (Acceptable l.maxFrame c.service host e) bs
  refine ⟨ps, rest, hparsed.longestFramed, fun hf => ?_⟩
  have hcap : host.policy.cap = 0 ∨ e.packetBytes ≤ host.policy.cap := by
    have hw := Service.withinCap_run (Service.withinCap_create h) ks
    rw [← hs] at hw
    exact (hw.cap host taken).imp_right fun hle => hle conn e found
  obtain ⟨c', hg, hserved⟩ := goOn_parsed patience taken hcap hparsed hf hc hk
    (Service.passed_self found)
  obtain ⟨xs, hx, hm, hseen⟩ := hserved.calls
  refine ⟨_, c', ?_, rfl, Frame.verdict_ok_iff, ⟨xs, hx, hm, ?_⟩, hserved.replies, hserved.books⟩
  · rw [run, hg]
    split
    · rename_i hw
      exact absurd (congrArg Prod.fst hw) (Frame.verdict_ne_waiting _)
    · rfl
  · intro x hx
    obtain ⟨k, hold⟩ := hseen x hx
    exact ⟨hold.used_eq, _, hold.found, rfl, rfl⟩

/-- Two frames are echoed, one of them empty, and the third is too large. -/
theorem frames_are_served_up_to_one_too_large :
    ∃ s al c', Service.create 100 {} = .ok (s, al) ∧
      run ⟨8, 0⟩ .echo ⟨7⟩ none
          { input := [.data [0, 0], .data [0, 2, 104, 105, 0, 0], .data [0, 0, 0, 0, 0, 9, 1]]
            sink := .limited (some 3) none
            service := (s.run [.init ⟨"host", ⟨10, 2⟩⟩, .connect ⟨7⟩]).2 } =
        (.failed Frame.tooLarge, c') ∧
      c'.sink.out.toList = [0, 0, 0, 2, 104, 105, 0, 0, 0, 0] := by
  let s : Service := ⟨⟨1⟩, none, .ofCeiling 100, [.constructed ⟨1⟩ 100]⟩
  let t := (s.run [.init ⟨"host", ⟨10, 2⟩⟩, .connect ⟨7⟩]).2
  let e : Entry := { epoch := 1, overhead := 10 }
  have hc : Cut [0, 0, 0, 2, 104, 105, 0, 0, 0, 0, 0, 0, 0, 9, 1]
      [.data [0, 0], .data [0, 2, 104, 105, 0, 0], .data [0, 0, 0, 0, 0, 9, 1]] :=
    @Cut.cons 0 [0] _ _ (@Cut.cons 0 [2, 104, 105, 0, 0] _ _
      (@Cut.cons 0 [0, 0, 0, 0, 9, 1] _ _ .nil))
  have hstop : Frame.Parsed (Acceptable 8 t ⟨"host", ⟨10, 2⟩⟩ e)
      [0, 0, 0, 9, 1] [] [0, 0, 0, 9, 1] :=
    .stop (Frame.not_framed_of_header (show [0, 0, 0, 9].length = 4 from rfl) (by decide) [1])
  have hempty := hstop.frame (p := []) (by decide) (by decide)
  have hparsed := hempty.frame (p := [104, 105]) (by decide) (by decide)
  obtain ⟨ps, rest, hl, hrun⟩ := frames_are_served (c := ⟨_, .limited (some 3) none, t, 0, []⟩)
    (show Service.create 100 {} = .ok (s, _) from rfl) [.init ⟨"host", ⟨10, 2⟩⟩, .connect ⟨7⟩]
    ⟨8, 0⟩ some none rfl rfl (show t.entry? ⟨7⟩ = some e by decide) hc
    (Sink.accepting_limited (by decide))
  obtain ⟨rfl, rfl⟩ := hl.unique hparsed.longestFramed
  obtain ⟨ending, c', hr, rfl, -, -, ht, -⟩ := hrun (by decide)
  exact ⟨s, _, c', rfl, hr, ht.out⟩

end Conversation

end PacketBudget
