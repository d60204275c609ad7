import PacketBudget.Proofs.Serving

/-!
What a conversation leaves behind. Wherever the reading of a frame breaks off and however a
conversation ends, the service has what it had before, for a charge taken on the way is given up
with the assembly or the packet that it covers. What went out is a front part of the replies.
-/

namespace PacketBudget

namespace Service

/-- `t` has what `s` has: as many bytes in use, the same connections registered, and each entry
with the same bytes and the same packets in flight. Only the packets that have come and gone may be
more. -/
structure Restores (s t : Service) : Prop where
  used : t.used = s.used
  entries : ∀ id, ∃ k, t.ledger.table.get? id =
    (s.ledger.table.get? id).map fun e => { e with total := e.total + k }

variable {s t u : Service} {conn : ConnId} {e : Entry} {n : Nat} {l : Lease} {f : Fault}

theorem restores_of_accounts (h : t.ledger.accounts = s.ledger.accounts) : s.Restores t := by
  refine ⟨by rw [Service.used, Ledger.used, h]; rfl, fun id => ⟨0, ?_⟩⟩
  rw [Ledger.table, h]
  exact Option.map_id'.symm

theorem Restores.refl (s : Service) : s.Restores s := restores_of_accounts rfl

theorem Restores.trans (h : s.Restores t) (h' : t.Restores u) : s.Restores u := by
  refine ⟨h'.used.trans h.used, fun id => ?_⟩
  obtain ⟨j, hj⟩ := h.entries id
  obtain ⟨k, hk⟩ := h'.entries id
  refine ⟨j + k, ?_⟩
  rw [hk, hj, Option.map_map]
  simp only [Function.comp_def, Nat.add_assoc]

theorem Restores.note (h : s.Restores t) (m : Notice) : s.Restores (t.note m) :=
  h.trans (restores_of_accounts rfl)

theorem Passed.restores {k : Nat} (found : s.entry? conn = some e) (h : s.Passed conn e k t) :
    s.Restores t := by
  refine ⟨by rw [Service.used, Ledger.used, h.accounts]; rfl, fun id => ?_⟩
  rw [Ledger.table, h.accounts, Accounts.get?_passed]
  split
  · rename_i hid
    have hg : s.ledger.table.get? id = some e := by rw [hid]; exact found
    exact ⟨k, by rw [hg]; rfl⟩
  · exact ⟨0, Option.map_id'.symm⟩

theorem lease_error (h : s.lease conn n = (.error f, t)) :
    t.ledger.accounts = s.ledger.accounts := by
  rw [lease] at h
  rcases charge_cases s conn n with ⟨g, hr, -, ha, -⟩ | ⟨-, e, -, -, -, -, hr, -⟩
  all_goals
    rcases hc : s.charge conn n with ⟨r, u⟩
    simp only [hc] at h hr
    subst hr
    cases h
  simpa only [hc] using ha

theorem lease_ok (h : s.lease conn n = (.ok l, t)) :
    ∃ e, s.entry? conn = some e ∧ l.charge = ⟨conn, e.epoch, n⟩ ∧ s.Holds conn e 0 n t := by
  have hhost := host_charge s conn n
  rw [lease] at h
  rcases charge_cases s conn n with ⟨g, hr, -⟩ | ⟨-, e, -, found, -, -, hr, ha, -⟩
  all_goals
    rcases hc : s.charge conn n with ⟨r, u⟩
    simp only [hc] at h hr
    subst hr
    cases h
  simp only [hc] at ha hhost
  refine ⟨e, found, rfl, hhost, ?_⟩
  rw [ha, Accounts.passed_zero found]
  rfl

/-- A lease that is let go at once leaves what there was. -/
theorem lease_restores (h : s.lease conn n = (.ok l, t)) : s.Restores (t.dropLease l) := by
  obtain ⟨e, found, hl, hold⟩ := lease_ok h
  have hp := hold.dropLease l.holder
  rw [← hl] at hp
  exact hp.restores found

end Service

namespace Frame

/-- The service with whatever the assembly or the packet still holds given up. -/
def Progress.letGo : Progress → Service → Service
  | .more a, s => a.abandon s
  | .packet p, s => s.dropLease p.lease
  | .failed _, s => s

/-- The service with whatever is still held at the stop given up. -/
def Stop.letGo : Stop → Service → Service
  | .waiting a, s => a.abandon s
  | .packet p, s => s.dropLease p.lease
  | .closed, s | .failed _, s => s

variable {conn : ConnId} {maxFrame : Nat} {s t u : Service}

namespace Assembly

variable {a : Assembly} {p : Progress}

theorem begin_restores (conn : ConnId) (maxFrame n : Nat) (s : Service) :
    s.Restores ((begin conn maxFrame n s).1.letGo (begin conn maxFrame n s).2) := by
  rw [begin]
  split
  · exact .refl s
  · rcases hl : s.lease conn n with ⟨f | l, t⟩
    · exact Service.restores_of_accounts (Service.lease_error hl)
    · simp only
      split <;> exact Service.lease_restores hl

/-- A byte more takes nothing that is not given up with what it comes to. -/
theorem push_restores (conn : ConnId) (maxFrame : Nat) (a : Assembly)
    (h : s.Restores (a.abandon t)) (b : UInt8) :
    s.Restores ((a.push conn maxFrame t b).1.letGo (a.push conn maxFrame t b).2) := by
  cases a with
  | header got =>
    rw [push]
    split
    · exact h
    · exact Service.Restores.trans h (begin_restores ..)
  | payload l got missing =>
    rw [push]
    split <;> exact h

theorem feed_restores (conn : ConnId) (maxFrame : Nat) (a : Assembly)
    (h : s.Restores (a.abandon t)) (bs : Bytes) :
    s.Restores ((a.feed conn maxFrame t bs).1.letGo (a.feed conn maxFrame t bs).2.2) := by
  induction bs generalizing a t with
  | nil => exact h
  | cons b bs ih =>
    have hp := push_restores conn maxFrame a h b
    rw [feed]
    rcases hb : a.push conn maxFrame t b with ⟨a' | p | e, u⟩
    · rw [hb] at hp
      exact ih a' hp
    · rw [hb] at hp
      exact hp
    · rw [hb] at hp
      exact hp

theorem finish_restores (a : Assembly) (h : s.Restores (a.abandon t)) :
    s.Restores ((a.finish t).1.letGo (a.finish t).2) := by
  rcases a with (_ | ⟨b, got⟩) | ⟨l, got, missing⟩ <;> exact h

end Assembly

theorem read_restores (conn : ConnId) (maxFrame : Nat) (deadline : Option Nat) (as : List Arrival)
    (now : Nat) {a : Assembly} (h : s.Restores (a.abandon t)) :
    s.Restores ((read conn maxFrame deadline as a now t).stop.letGo
      (read conn maxFrame deadline as a now t).service) := by
  fun_induction read conn maxFrame deadline as a now t with
  | case1 a now t stop u hf | case2 rest a now t stop u hf =>
    have hs := a.finish_restores h
    rwa [hf] at hs
  | case3 b bs rest a now t a' left u hf ih =>
    have hs := a.feed_restores conn maxFrame h (b :: bs)
    rw [hf] at hs
    exact ih hs
  | case4 b bs rest a now t p left u hf | case5 b bs rest a now t e left u hf =>
    have hs := a.feed_restores conn maxFrame h (b :: bs)
    rwa [hf] at hs
  | case6 e rest a now t => exact h
  | case7 ms rest a now t ht ih => exact ih h
  | case8 ms rest a now t ht => exact h
  | case9 rest a now t => exact h

/-- As long as no header is complete the service has not been asked for anything, and it is not
asked for a frame that is too large. -/
theorem Assembly.push_untouched {a : Assembly} {b : UInt8} {p : Progress}
    (h : ∀ got, a = .header got → t = s) (hp : a.push conn maxFrame t b = (p, u))
    (hu : p = .failed tooLarge ∨ ∃ got, p = .more (.header got)) : u = s := by
  cases a with
  | payload l got missing =>
    rw [push] at hp
    split at hp <;> cases hp <;> simp at hu
  | header got =>
    rw [push] at hp
    split at hp
    · cases hp
      exact h got rfl
    · rw [begin] at hp
      split at hp
      · cases hp
        exact h got rfl
      · split at hp
        · rename_i f u' _
          cases hp
          cases f <;> simp [Fault.toIoError, Fault.kind, tooLarge] at hu
        · cases hp
          split at hu <;> simp at hu

theorem Assembly.feed_untouched {a : Assembly} {bs left : Bytes} {p : Progress}
    (h : ∀ got, a = .header got → t = s) (hp : a.feed conn maxFrame t bs = (p, left, u))
    (hu : p = .failed tooLarge ∨ ∃ got, p = .more (.header got)) : u = s := by
  induction bs generalizing a t with
  | nil =>
    cases hp
    obtain ⟨got, hg⟩ := hu.resolve_left nofun
    exact h got (Progress.more.inj hg)
  | cons b bs ih =>
    rw [feed] at hp
    rcases hb : a.push conn maxFrame t b with ⟨a' | q | e, t'⟩
    · rw [hb] at hp
      refine ih ?_ hp
      rintro got rfl
      exact push_untouched h hb (Or.inr ⟨got, rfl⟩)
    · rw [hb] at hp
      cases hp
      exact push_untouched h hb hu
    · rw [hb] at hp
      cases hp
      exact push_untouched h hb hu

/-- A frame that is refused as too large leaves the service as it is, unless it was the stream that
failed with those words. -/
theorem read_tooLarge {deadline : Option Nat} {as : List Arrival} {a : Assembly} {now : Nat}
    (h : ∀ got, a = .header got → t = s)
    (hs : (read conn maxFrame deadline as a now t).stop = .failed tooLarge) :
    (read conn maxFrame deadline as a now t).service = s ∨
      ∃ pre, as = pre ++ .failure tooLarge :: (read conn maxFrame deadline as a now t).rest := by
  fun_induction read conn maxFrame deadline as a now t with
  | case1 a now t stop u hf | case2 rest a now t stop u hf =>
    have hs : (a.finish t).1 = .failed tooLarge := (congrArg Prod.fst hf).trans hs
    rcases a with (_ | ⟨b, got⟩) | ⟨l, got, missing⟩ <;>
      simp [Assembly.finish, truncatedHeader, truncatedPayload, tooLarge] at hs
  | case3 b bs rest a now t a' left u hf ih =>
    have hu : ∀ got, a' = .header got → u = s := by
      rintro got rfl
      exact Assembly.feed_untouched h hf (Or.inr ⟨got, rfl⟩)
    rcases ih hu hs with hr | ⟨pre, hr⟩
    · exact Or.inl hr
    · exact Or.inr ⟨.data (b :: bs) :: pre, congrArg (List.cons _) hr⟩
  | case4 b bs rest a now t p left u hf => cases hs
  | case5 b bs rest a now t e left u hf =>
    cases hs
    exact Or.inl (Assembly.feed_untouched h hf (Or.inl rfl))
  | case6 e rest a now t =>
    cases hs
    exact Or.inr ⟨[], rfl⟩
  | case7 ms rest a now t ht ih =>
    rcases ih h hs with hr | ⟨pre, hr⟩
    · exact Or.inl hr
    · exact Or.inr ⟨.delay ms :: pre, congrArg (List.cons _) hr⟩
  | case8 ms rest a now t ht => cases hs
  | case9 rest a now t => cases hs

theorem writeEach_append {k k' : Sink} {ps : List Bytes} (h : writeEach k ps = (none, k'))
    (qs : List Bytes) : writeEach k (ps ++ qs) = writeEach k' qs := by
  induction ps generalizing k with
  | nil =>
    cases h
    rfl
  | cons p ps ih =>
    rw [writeEach] at h
    rw [List.cons_append, writeEach]
    rcases hw : write k p with ⟨_ | e, k₁⟩
    · rw [hw] at h
      exact ih h
    · rw [hw] at h
      cases h

theorem out_write (k : Sink) (p : Bytes) :
    ∃ front, front <+: encode p ∧ (write k p).2.out.toList = k.out.toList ++ front ∧
      ((write k p).1 = none → front = encode p) := by
  rw [write]
  split
  · exact Sink.out_writeAll k (encode p)
  · exact ⟨[], List.nil_prefix, (List.append_nil _).symm, by simp⟩

/-- Whatever the sink does, it has a front part of the frames, and all of them if no failure is
reported. -/
theorem out_writeEach (k : Sink) (ps : List Bytes) :
    ∃ front, front <+: ps.flatMap encode ∧
      (writeEach k ps).2.out.toList = k.out.toList ++ front ∧
      ((writeEach k ps).1 = none → front = ps.flatMap encode) := by
  induction ps generalizing k with
  | nil => exact ⟨[], List.nil_prefix, (List.append_nil _).symm, fun _ => rfl⟩
  | cons p ps ih =>
    obtain ⟨front, hp, ho, hall⟩ := out_write k p
    rw [writeEach, List.flatMap_cons]
    rcases hw : write k p with ⟨_ | e, k₁⟩
    · rw [hw] at ho hall
      obtain ⟨more, hm, hmo, hmall⟩ := ih k₁
      refine ⟨encode p ++ more, (List.prefix_append_right_inj _).mpr hm, ?_, fun hn => ?_⟩
      · rw [hmo, ho, hall rfl, List.append_assoc]
      · rw [hmall hn]
    · rw [hw] at ho
      exact ⟨front, hp.trans (List.prefix_append _ _), ho, by simp⟩

end Frame

/-- A handler that makes no calls of the service. -/
def Handler.Quiet (h : Handler) : Prop := ∀ xs s conn p, (h.respond xs s conn p).calls = []

/-- The replies to the packets served, in order. The exchanges have the last one first. -/
def Handler.replies (h : Handler) (conn : ConnId) : List Exchange → List Bytes
  | [] => []
  | x :: xs => h.replies conn xs ++ (h.respond xs x.seen conn x.payload).reply.toList

/-- The service with the frame given up in which the conversation waits. -/
def Ending.letGo : Ending → Service → Service
  | .waiting a, s => a.abandon s
  | .closed, s | .idle, s | .failed _, s => s

namespace Conversation

variable {l : Limits} {h : Handler} {conn : ConnId} {patience : Option Nat} {c : Conversation}
variable {s : Service} {a : Frame.Assembly}

theorem serve_quiet (quiet : h.Quiet) (conn : ConnId) (p : Packet) (c : Conversation) :
    ∃ seen, seen = c.service.note (.packet conn p.payload.length) ∧
      serve h conn p c =
        ((writeReply c.sink (h.respond c.exchanges seen conn p.payload).reply).1,
          { c with
            sink := (writeReply c.sink (h.respond c.exchanges seen conn p.payload).reply).2
            service := seen.dropLease p.lease
            exchanges := ⟨p.payload, seen, []⟩ :: c.exchanges }) := by
  refine ⟨_, rfl, ?_⟩
  rw [serve, quiet]
  cases (h.respond c.exchanges _ conn p.payload).reply <;> rfl

theorem writeReply_eq (k : Sink) (o : Option Bytes) :
    writeReply k o = Frame.writeEach k o.toList := by
  cases o with
  | none => rfl
  | some r =>
    rw [writeReply, Option.toList_some, Frame.writeEach]
    rcases Frame.write k r with ⟨_ | e, k'⟩ <;> rfl

theorem serve_restores (quiet : h.Quiet) (conn : ConnId) {p : Packet}
    (hs : s.Restores (c.service.dropLease p.lease)) :
    s.Restores (serve h conn p c).2.service := by
  obtain ⟨seen, rfl, hserve⟩ := serve_quiet quiet conn p c
  rw [hserve]
  exact hs.trans (Service.restores_of_accounts rfl)

/-- However it ends, a conversation leaves what there was before the frame that it begins with. -/
theorem goOn_restores (quiet : h.Quiet) (l : Limits) (conn : ConnId) (patience : Option Nat)
    (hs : s.Restores (a.abandon c.service)) :
    s.Restores ((c.goOn l h conn patience a).1.letGo (c.goOn l h conn patience a).2.service) := by
  -- Each frame has its own deadline, so this is said of all deadlines.
  have hread : ∀ deadline, s.Restores
      ((Frame.read conn l.maxFrame deadline c.input a c.now c.service).stop.letGo
        (Frame.read conn l.maxFrame deadline c.input a c.now c.service).service) :=
    fun _ => Frame.read_restores _ _ _ _ _ hs
  fun_induction goOn l h conn patience a c with
  | case1 a c due rest now t hr | case2 a c due e rest now t hr =>
    have hread := hread (earlier due patience)
    rwa [hr] at hread
  | case3 a c due a' rest now t hr late =>
    have hread := hread (earlier due patience)
    rw [hr] at hread
    exact hread.note _
  | case4 a c due a' rest now t hr inTime =>
    have hread := hread (earlier due patience)
    rwa [hr] at hread
  | case5 a c due p rest now t hr e served hserve =>
    have hread := hread (earlier due patience)
    rw [hr] at hread
    have hserved := serve_restores (c := ⟨rest, c.sink, t, now, c.exchanges⟩) quiet conn hread
    rwa [hserve] at hserved
  | case6 a c due p rest now t hr served hserve ih =>
    have hread := hread (earlier due patience)
    rw [hr] at hread
    have hserved := serve_restores (c := ⟨rest, c.sink, t, now, c.exchanges⟩) quiet conn hread
    rw [hserve] at hserved
    exact ih hserved fun _ => Frame.read_restores _ _ _ _ _ hserved

/-- The replies between `c` and `c'` have been written one after another, up to one that failed if
one did. -/
def Wrote (h : Handler) (conn : ConnId) (c : Conversation) (failure : Option IoError)
    (c' : Conversation) : Prop :=
  ∃ rs, h.replies conn c'.exchanges = h.replies conn c.exchanges ++ rs ∧
    Frame.writeEach c.sink rs = (failure, c'.sink)

theorem serve_wrote (quiet : h.Quiet) (conn : ConnId) (p : Packet) (c : Conversation) :
    Wrote h conn c (serve h conn p c).1 (serve h conn p c).2 := by
  obtain ⟨seen, -, hserve⟩ := serve_quiet quiet conn p c
  rw [hserve, writeReply_eq]
  exact ⟨_, rfl, rfl⟩

theorem Wrote.append {c' c'' : Conversation} {failure : Option IoError}
    (hw : Wrote h conn c none c') (hw' : Wrote h conn c' failure c'') :
    Wrote h conn c failure c'' := by
  obtain ⟨rs, hr, hk⟩ := hw
  obtain ⟨qs, hq, hk'⟩ := hw'
  refine ⟨rs ++ qs, ?_, ?_⟩
  · rw [hq, hr, List.append_assoc]
  · rw [Frame.writeEach_append hk, hk']

/-- A reply that cannot be written ends the conversation with the failure. -/
theorem goOn_wrote (quiet : h.Quiet) (l : Limits) (conn : ConnId) (patience : Option Nat)
    (a : Frame.Assembly) (c : Conversation) :
    ∃ failure, Wrote h conn c failure (c.goOn l h conn patience a).2 ∧
      ∀ e, failure = some e → (c.goOn l h conn patience a).1 = .failed e := by
  have hnone : ∀ (c : Conversation) rest now t,
      Wrote h conn c none ⟨rest, c.sink, t, now, c.exchanges⟩ :=
    fun c _ _ _ => ⟨[], (List.append_nil _).symm, rfl⟩
  fun_induction goOn l h conn patience a c with
  | case1 a c due rest now t hr | case2 a c due e rest now t hr
  | case3 a c due a' rest now t hr late | case4 a c due a' rest now t hr inTime =>
    exact ⟨none, hnone c rest now _, nofun⟩
  | case5 a c due p rest now t hr e served hserve =>
    have hw := serve_wrote quiet conn p ⟨rest, c.sink, t, now, c.exchanges⟩
    rw [hserve] at hw
    refine ⟨some e, (hnone c rest now t).append hw, ?_⟩
    rintro _ ⟨⟩
    rfl
  | case6 a c due p rest now t hr served hserve ih =>
    have hw := serve_wrote quiet conn p ⟨rest, c.sink, t, now, c.exchanges⟩
    rw [hserve] at hw
    obtain ⟨failure, hmore, hfail⟩ := ih
    exact ⟨failure, ((hnone c rest now t).append hw).append hmore, hfail⟩

theorem run_eq (l : Limits) (h : Handler) (conn : ConnId) (patience : Option Nat)
    (c : Conversation) :
    c.run l h conn patience =
      ((c.goOn l h conn patience .fresh).1,
        { (c.goOn l h conn patience .fresh).2 with
          service := (c.goOn l h conn patience .fresh).1.letGo
            (c.goOn l h conn patience .fresh).2.service }) := by
  rw [run]
  rcases c.goOn l h conn patience .fresh with ⟨_ | _ | e | a, c'⟩ <;> rfl

/-- A frame that comes to nothing gives back what it was charged, one that is too large is not
charged at all, and a conversation restores the service however it ends. What has gone out is a
front part of the replies, and a reply that could not be written is why it ended. -/
theorem conversations_restore (quiet : h.Quiet) (l : Limits) (conn : ConnId) :
    (∀ deadline as now s r, Frame.read conn l.maxFrame deadline as .fresh now s = r →
      (∀ e, r.stop = .failed e → s.Restores r.service) ∧
      (∀ a, r.stop = .waiting a → s.Restores (a.abandon r.service)) ∧
      (r.stop = .failed Frame.tooLarge → r.service = s ∨
        ∃ pre, as = pre ++ .failure Frame.tooLarge :: r.rest)) ∧
    ∀ patience c ending c', Conversation.run l h conn patience c = (ending, c') →
      c.service.Restores c'.service ∧
      ∃ rs failure front, h.replies conn c'.exchanges = h.replies conn c.exchanges ++ rs ∧
        Frame.writeEach c.sink rs = (failure, c'.sink) ∧
        (∀ e, failure = some e → ending.result? = some (.error e)) ∧
        front <+: rs.flatMap Frame.encode ∧ c'.sink.out.toList = c.sink.out.toList ++ front ∧
        (failure = none → front = rs.flatMap Frame.encode) := by
  constructor
  · rintro deadline as now s _ rfl
    have hr := Frame.read_restores conn l.maxFrame deadline as now (a := .fresh)
      (Service.Restores.refl s)
    refine ⟨fun e he => ?_, fun a ha => ?_, Frame.read_tooLarge fun _ _ => rfl⟩
    · rwa [he] at hr
    · rwa [ha] at hr
  · intro patience c ending c' hrun
    have hs := goOn_restores quiet l conn patience (a := .fresh)
      (Service.Restores.refl c.service)
    obtain ⟨failure, ⟨rs, hrs, hk⟩, hfail⟩ := goOn_wrote quiet l conn patience .fresh c
    rw [run_eq] at hrun
    cases hrun
    obtain ⟨front, hp, ho, hall⟩ := Frame.out_writeEach c.sink rs
    rw [hk] at ho hall
    refine ⟨hs, rs, failure, front, hrs, hk, fun e he => ?_, hp, ho, hall⟩
    rw [hfail e he]
    rfl

theorem goOn_broken {p : Packet} {rest : List Arrival} {now : Nat} {e : IoError}
    {served : Conversation}
    (hr : Frame.read conn l.maxFrame (earlier (l.deadline c.now) patience) c.input a c.now
      c.service = ⟨.packet p, rest, now, s⟩)
    (hs : serve h conn p { c with input := rest, now := now, service := s } = (some e, served)) :
    c.goOn l h conn patience a = (.failed e, served) := by
  rw [goOn]
  split <;> rename_i hr' <;> rw [hr] at hr' <;> cases hr'
  split <;> rename_i hs' <;> rw [hs] at hs' <;> cases hs'
  rfl

/-- Three bytes of an echo are accepted, and then the client is gone. -/
theorem conversations_restore_after_broken_echo :
    ∃ s al c', Service.create 100 {} = .ok (s, al) ∧
      run ⟨8, 0⟩ .echo ⟨7⟩ none
          { input := [.data [0, 0], .delay 5, .data [0, 2, 104, 105, 0, 0]]
            sink := .limited none (some 3)
            service := (s.run [.init ⟨"host", ⟨10, 2⟩⟩, .connect ⟨7⟩]).2 } =
        (.failed ⟨.brokenPipe, "write failed"⟩, c') ∧
      (s.run [.init ⟨"host", ⟨10, 2⟩⟩, .connect ⟨7⟩]).2.Restores c'.service ∧
      c'.sink.out.toList <+: Frame.encode [104, 105] := by
  let s : Service := ⟨⟨1⟩, none, .ofCeiling 100, [.constructed ⟨1⟩ 100]⟩
  let t := (s.run [.init ⟨"host", ⟨10, 2⟩⟩, .connect ⟨7⟩]).2
  let c : Conversation :=
    ⟨[.data [0, 0], .delay 5, .data [0, 2, 104, 105, 0, 0]], .limited none (some 3), t, 0, []⟩
  obtain ⟨u, hr⟩ : ∃ u, Frame.read ⟨7⟩ 8 none c.input .fresh 0 t =
      ⟨.packet ⟨⟨⟨1⟩, ⟨⟨7⟩, 1, 2⟩⟩, [104, 105]⟩, [.data [0, 0]], 5, u⟩ := ⟨_, rfl⟩
  have hw : ∃ k, writeReply c.sink (some [104, 105]) =
      (some ⟨.brokenPipe, "write failed"⟩, k) := by
    simp [c, writeReply, Frame.write, Frame.encode, Frame.header, Frame.tooLong, Sink.writeAll,
      Sink.writeRest, Sink.write, Sink.limited]
  obtain ⟨k, hk⟩ := hw
  obtain ⟨seen, -, hserve⟩ := serve_quiet (h := .echo) (fun _ _ _ _ => rfl) ⟨7⟩
    ⟨⟨⟨1⟩, ⟨⟨7⟩, 1, 2⟩⟩, [104, 105]⟩ { c with input := [.data [0, 0]], now := 5, service := u }
  have hreply : (Handler.echo.respond [] seen ⟨7⟩ [104, 105]).reply = some [104, 105] := rfl
  simp only [c, hreply] at hserve hk
  rw [hk] at hserve
  have hrun := run_eq ⟨8, 0⟩ .echo ⟨7⟩ none c
  rw [goOn_broken hr hserve] at hrun
  obtain ⟨hs, rs, failure, front, hrs, -, -, hp, ho, -⟩ :=
    (conversations_restore (h := .echo) (fun _ _ _ _ => rfl) ⟨8, 0⟩ ⟨7⟩).2 none c _ _ hrun
  obtain rfl : [[104, 105]] = rs := hrs
  refine ⟨s, _, _, rfl, hrun, hs, ?_⟩
  rw [ho]
  exact hp

end Conversation

end PacketBudget
