import PacketBudget.Proofs.Callbacks

/-!
Timeouts. The reading of each frame has a deadline of its own. A conversation whose frames all come
in time is the one without delays and without a timeout. One that has to wait too long for a frame
is the same up to there, and then gives up what it has taken for the frame.
-/

namespace PacketBudget

/-- What comes, without the times in which nothing does. -/
def atOnce (as : List Arrival) : List Arrival :=
  as.filter fun
    | .data _ | .failure _ => true
    | .delay _ | .hang => false

theorem atOnce_data (bs : Bytes) (as : List Arrival) :
    atOnce (.data bs :: as) = .data bs :: atOnce as := rfl

theorem atOnce_requeue (left : Bytes) (as : List Arrival) :
    atOnce (requeue left as) = requeue left (atOnce as) := by
  unfold requeue
  split <;> rfl

namespace Frame

/-- How long nothing comes while a frame is read, in milliseconds; none if it is for ever. -/
def delay? (conn : ConnId) (maxFrame : Nat) : List Arrival → Assembly → Service → Option Nat
  | [], _, _ => some 0
  | .data [] :: _, _, _ => some 0
  | .data (b :: bs) :: rest, a, s =>
    match a.feed conn maxFrame s (b :: bs) with
    | (.more a, _, s) => delay? conn maxFrame rest a s
    | (.packet _, _, _) | (.failed _, _, _) => some 0
  | .failure _ :: _, _, _ => some 0
  | .delay ms :: rest, a, s => (delay? conn maxFrame rest a s).map (ms + ·)
  | .hang :: _, _, _ => none

variable {conn : ConnId} {maxFrame : Nat} {as : List Arrival} {a : Assembly} {s : Service}
variable {now m t : Nat}

theorem read_delay (ms : Nat) (rest : List Arrival) :
    read conn maxFrame none (.delay ms :: rest) a now s =
      read conn maxFrame none rest a (now + ms) s :=
  rfl

/-- A deadline that is not missed makes no difference. -/
theorem read_of_delay_le (h : delay? conn maxFrame as a s = some m) (hm : now + m ≤ t) :
    read conn maxFrame (some t) as a now s = read conn maxFrame none as a now s := by
  fun_induction delay? conn maxFrame as a s generalizing now m with
  | case1 a s | case2 rest a s | case6 e rest a s => rfl
  | case3 b bs rest a s a' left s' hf ih =>
    simp only [read, hf]
    exact ih h hm
  | case4 b bs rest a s p left s' hf | case5 b bs rest a s e left s' hf => simp only [read, hf]
  | case7 ms rest a s ih =>
    obtain ⟨m, hd, rfl⟩ := Option.map_eq_some_iff.mp h
    rw [← Nat.add_assoc] at hm
    have early : inTime (some t) (now + ms) = true :=
      decide_eq_true (Nat.le_trans (Nat.le_add_right _ m) hm)
    rw [read, if_pos early, read_delay]
    exact ih hd hm
  | case8 rest a s => cases h

/-- A deadline that is missed is the time at which the reading stops. -/
theorem read_of_lt_delay (h : ∀ m ∈ delay? conn maxFrame as a s, t < now + m) (hn : now ≤ t) :
    ∃ a' rest s', read conn maxFrame (some t) as a now s = ⟨.waiting a', rest, t, s'⟩ := by
  fun_induction delay? conn maxFrame as a s generalizing now with
  | case1 a s | case2 rest a s | case4 b bs rest a s p left s' hf
  | case5 b bs rest a s e left s' hf | case6 e rest a s =>
    have hlt : t < now + 0 := h 0 rfl
    omega
  | case3 b bs rest a s a' left s' hf ih =>
    simp only [read, hf]
    exact ih h hn
  | case7 ms rest a s ih =>
    rw [read]
    split
    · rename_i early
      apply ih
      · intro m hm
        have hlt := h (ms + m) (Option.map_eq_some_iff.mpr ⟨m, hm, rfl⟩)
        omega
      · exact of_decide_eq_true early
    · exact ⟨a, _, s, rfl⟩
  | case8 rest a s => exact ⟨a, _, s, rfl⟩

theorem finish_ne_waiting (a : Assembly) (s : Service) (a' : Assembly) :
    (a.finish s).1 ≠ .waiting a' := by
  intro hw
  rcases a.finish_cases s with ⟨-, hf⟩ | ⟨e, hf⟩ <;> rw [hf] at hw <;> cases hw

/-- What the reading leaves without the delays: another time, and what is left to come. -/
def Reading.atOnce (r : Reading) (now : Nat) : Reading :=
  { r with rest := PacketBudget.atOnce r.rest, now := now }

/-- Without a deadline the delays only take their time. -/
theorem read_atOnce (h : delay? conn maxFrame as a s = some m) (now now' : Nat) :
    (∀ a', (read conn maxFrame none as a now s).stop ≠ .waiting a') ∧
      (read conn maxFrame none as a now s).now = now + m ∧
      read conn maxFrame none (atOnce as) a now' s =
        (read conn maxFrame none as a now s).atOnce now' := by
  fun_induction delay? conn maxFrame as a s generalizing now m with
  | case1 a s | case2 rest a s =>
    cases h
    exact ⟨finish_ne_waiting a s, rfl, rfl⟩
  | case3 b bs rest a s a' left s' hf ih =>
    rw [atOnce_data]
    simp only [read, hf]
    exact ih h now
  | case4 b bs rest a s p left s' hf | case5 b bs rest a s e left s' hf =>
    cases h
    rw [atOnce_data]
    simp only [read, hf, Reading.atOnce, atOnce_requeue]
    refine ⟨?_, rfl, trivial⟩
    intro a' hw
    cases hw
  | case6 e rest a s =>
    cases h
    refine ⟨?_, rfl, rfl⟩
    intro a' hw
    cases hw
  | case7 ms rest a s ih =>
    obtain ⟨m, hd, rfl⟩ := Option.map_eq_some_iff.mp h
    rw [read_delay, ← Nat.add_assoc]
    exact ih hd (now + ms)
  | case8 rest a s => cases h

end Frame

/-- The limits without the one of time. -/
def Limits.untimed (l : Limits) : Limits := { l with readTimeout := 0 }

namespace Conversation

variable {l : Limits} {h : Handler} {conn : ConnId} {c c₀ d : Conversation}

/-- The conversation with all that is to come, and no time in which nothing comes. -/
def undelayed (c : Conversation) : Conversation := { c with input := atOnce c.input }

/-- How long nothing comes while the next frame is read; none if it is for ever. -/
def delay? (l : Limits) (conn : ConnId) (c : Conversation) : Option Nat :=
  Frame.delay? conn l.maxFrame c.input .fresh c.service

/-- The next frame, or the end of the input, comes before the time for it is over. -/
def Prompt (l : Limits) (conn : ConnId) (c : Conversation) : Prop :=
  ∃ m, c.delay? l conn = some m ∧ m < l.readTimeout

/-- The delays of the next frame are longer than the time that there is for it. -/
def Late (l : Limits) (conn : ConnId) (c : Conversation) : Prop :=
  ∀ m ∈ c.delay? l conn, l.readTimeout < m

/-- The two conversations are at the same point, `c₀` without the delays. -/
structure Alike (c c₀ : Conversation) : Prop where
  input : c₀.input = atOnce c.input
  sink : c₀.sink = c.sink
  service : c₀.service = c.service
  exchanges : c₀.exchanges = c.exchanges

theorem alike_undelayed (c : Conversation) : Alike c c.undelayed := ⟨rfl, rfl, rfl, rfl⟩

theorem goOn_of_ending {stop : Frame.Stop} {rest : List Arrival} {now : Nat} {s : Service}
    {ending : Ending} {patience : Option Nat}
    (hr : Frame.read conn l.maxFrame (earlier (l.deadline c.now) patience) c.input .fresh c.now
      c.service = ⟨stop, rest, now, s⟩) (he : ending? stop = some ending) :
    c.goOn l h conn patience .fresh =
      (ending, { c with input := rest, now := now, service := s }) := by
  rw [goOn]
  split <;> rename_i hr' <;> rw [hr] at hr' <;> cases hr' <;> cases he <;> rfl

theorem deadline_of_timed (timed : 0 < l.readTimeout) (now : Nat) :
    l.deadline now = some (now + l.readTimeout) := if_neg (Nat.ne_of_gt timed)

/-- What comes in time is read as it is without a timeout. -/
theorem Prompt.read (hp : Prompt l conn c) :
    Frame.read conn l.maxFrame (earlier (l.deadline c.now) none) c.input .fresh c.now c.service =
      Frame.read conn l.maxFrame none c.input .fresh c.now c.service := by
  obtain ⟨m, hm, hlt⟩ := hp
  rw [deadline_of_timed (Nat.zero_lt_of_lt hlt)]
  exact Frame.read_of_delay_le hm (Nat.add_le_add_left (Nat.le_of_lt hlt) c.now)

theorem Late.read (timed : 0 < l.readTimeout) (late : Late l conn c) :
    ∃ a rest s, Frame.read conn l.maxFrame (earlier (l.deadline c.now) none) c.input .fresh c.now
      c.service = ⟨.waiting a, rest, c.now + l.readTimeout, s⟩ := by
  rw [deadline_of_timed timed]
  apply Frame.read_of_lt_delay
  · intro m hm
    exact Nat.add_lt_add_left (late m hm) c.now
  · exact Nat.le_add_right _ _

theorem prompt_or_late (apart : c.delay? l conn ≠ some l.readTimeout) :
    Prompt l conn c ∨ Late l conn c := by
  cases hm : c.delay? l conn with
  | none => exact Or.inr (by simp [Late, hm])
  | some m =>
    rw [hm] at apart
    have hne : m ≠ l.readTimeout := fun he => apart (congrArg some he)
    rcases Nat.lt_or_gt_of_ne hne with hlt | hgt
    · exact Or.inl ⟨m, hm, hlt⟩
    · exact Or.inr (by simpa [Late, hm] using hgt)

/-- A packet that has been read has come in time. -/
theorem Visit.prompt (timed : 0 < l.readTimeout) (v : Visit l conn none)
    (apart : v.start.delay? l conn ≠ some l.readTimeout) : Prompt l conn v.start := by
  rcases prompt_or_late apart with hp | late
  · exact hp
  · obtain ⟨a, rest, s, hr⟩ := late.read timed
    have hread := v.read
    rw [hr] at hread
    cases hread

theorem Visits.prompt {vs : List (Visit l conn none)} (timed : 0 < l.readTimeout)
    (hv : Visits h c vs d)
    (apart : ∀ (vs : List (Visit l conn none)) d, Visits h c vs d →
      d.delay? l conn ≠ some l.readTimeout) : ∀ v ∈ vs, Prompt l conn v.start := by
  induction hv with
  | nothing => nofun
  | @visit v vs d replied more ih =>
    refine List.forall_mem_cons.mpr ⟨v.prompt timed (apart [] v.start .nothing), ?_⟩
    exact ih fun us e hu => apart (v :: us) e (.visit replied hu)

/-- The same packet is read without the delays. -/
theorem Visit.exists_alike (v : Visit l conn none) (hp : Prompt l conn v.start)
    (ha : Alike v.start c₀) (h : Handler) :
    ∃ v₀ : Visit l.untimed conn none, v₀.start = c₀ ∧
      (v₀.served h).1 = (v.served h).1 ∧ Alike (v.served h).2 (v₀.served h).2 := by
  obtain ⟨m, hm, -⟩ := id hp
  obtain ⟨-, -, hr⟩ := Frame.read_atOnce hm v.start.now c₀.now
  rw [hp.read.symm.trans v.read] at hr
  obtain ⟨input, sink, service, now, exchanges⟩ := c₀
  obtain ⟨rfl, rfl, rfl, rfl⟩ := ha
  let v₀ : Visit l.untimed conn none :=
    ⟨{ v.start with input := atOnce v.start.input, now := now }, v.packet, atOnce v.rest, now,
      v.held, hr⟩
  exact ⟨v₀, rfl, rfl, rfl, rfl, rfl, rfl⟩

theorem Visits.exists_alike {vs : List (Visit l conn none)} (hv : Visits h c vs d)
    (ha : Alike c c₀) (prompt : ∀ v ∈ vs, Prompt l conn v.start) :
    ∃ (vs₀ : List (Visit l.untimed conn none)) (d₀ : Conversation),
      Visits h c₀ vs₀ d₀ ∧ Alike d d₀ := by
  induction hv generalizing c₀ with
  | nothing => exact ⟨[], c₀, .nothing, ha⟩
  | @visit v vs d replied more ih =>
    obtain ⟨hp, hps⟩ := List.forall_mem_cons.mp prompt
    obtain ⟨v₀, rfl, hf, hs⟩ := v.exists_alike hp ha h
    obtain ⟨vs₀, d₀, hv₀, hd⟩ := ih hs hps
    exact ⟨v₀ :: vs₀, d₀, .visit (hf.trans replied) hv₀, hd⟩

/-- With a timeout `c` comes to the same end as `c₀` does without one. -/
def EndsAlike (l : Limits) (h : Handler) (conn : ConnId) (c c₀ : Conversation) : Prop :=
  ∃ ending c' c₀', c.goOn l h conn none .fresh = (ending, c') ∧
    c₀.goOn l.untimed h conn none .fresh = (ending, c₀') ∧ Alike c' c₀' ∧ ending.result? ≠ none

theorem Prompt.endsAlike_stop {stop : Frame.Stop} {rest : List Arrival} {now : Nat} {s : Service}
    {ending : Ending} (hp : Prompt l conn c) (ha : Alike c c₀)
    (hr : Frame.read conn l.maxFrame none c.input .fresh c.now c.service = ⟨stop, rest, now, s⟩)
    (he : ending? stop = some ending) : EndsAlike l h conn c c₀ := by
  obtain ⟨m, hm, -⟩ := id hp
  obtain ⟨-, -, hr₀⟩ := Frame.read_atOnce hm c.now c₀.now
  rw [hr, ← ha.input, ← ha.service] at hr₀
  refine ⟨ending, _, _, goOn_of_ending (hp.read.trans hr) he, goOn_of_ending hr₀ he,
    ⟨rfl, ha.sink, rfl, ha.exchanges⟩, ?_⟩
  cases stop with
  | closed | failed e =>
    cases he
    nofun
  | packet p | waiting a => cases he

theorem endsAlike_visit {v : Visit l conn none} {v₀ : Visit l.untimed conn none}
    (hf : (v₀.served h).1 = (v.served h).1) (ha : Alike (v.served h).2 (v₀.served h).2)
    (more : (v.served h).1 = none → EndsAlike l h conn (v.served h).2 (v₀.served h).2) :
    EndsAlike l h conn v.start v₀.start := by
  have hgo := goOn_visit h v
  have hgo₀ := goOn_visit h v₀
  rw [hf] at hgo₀
  cases he : (v.served h).1 with
  | some e =>
    rw [he] at hgo hgo₀
    exact ⟨_, _, _, hgo, hgo₀, ha, nofun⟩
  | none =>
    rw [he] at hgo hgo₀
    obtain ⟨ending, c', c₀', hmore, hmore₀, hend⟩ := more he
    exact ⟨ending, c', c₀', hgo.trans hmore, hgo₀.trans hmore₀, hend⟩

/-- If all frames come in time, nothing is different without the delays and the timeout. -/
theorem endsAlike_of_prompt (ha : Alike c c₀)
    (prompt : ∀ (vs : List (Visit l conn none)) d, Visits h c vs d → Prompt l conn d) :
    EndsAlike l h conn c c₀ := by
  -- The conversation goes on with less to read, so the induction is on how much there is.
  induction hn : inputWeight c.input using Nat.strongRecOn generalizing c c₀ with
  | ind n ih =>
    subst hn
    have hp := prompt [] c .nothing
    obtain ⟨m, hm, -⟩ := id hp
    obtain ⟨hwaiting, -, -⟩ := Frame.read_atOnce hm c.now c₀.now
    rcases hr : Frame.read conn l.maxFrame none c.input .fresh c.now c.service with
      ⟨_ | p | e | a, rest, now, s⟩
    · exact hp.endsAlike_stop ha hr rfl
    · let v : Visit l conn none := ⟨c, p, rest, now, s, hp.read.trans hr⟩
      obtain ⟨v₀, rfl, hf, hs⟩ := v.exists_alike hp ha h
      refine endsAlike_visit (v := v) hf hs fun replied => ?_
      have hlt : inputWeight (v.served h).2.input < inputWeight c.input := by
        have hw := Frame.inputWeight_read (p := p) (by rw [hr])
        rwa [hr] at hw
      exact ih _ hlt hs (fun vs d hv => prompt (v :: vs) d (.visit replied hv)) rfl
    · exact hp.endsAlike_stop ha hr rfl
    · rw [hr] at hwaiting
      exact absurd rfl (hwaiting a)

/-- A conversation that waits too long ends well, and has given up what it has taken. -/
theorem run_of_late (timed : 0 < l.readTimeout) (late : Late l conn c) (h : Handler) :
    ∃ c', c.run l h conn none = (.idle, c') ∧ c'.exchanges = c.exchanges ∧ c'.sink = c.sink ∧
      c.service.Restores c'.service := by
  obtain ⟨a, rest, s, hr⟩ := late.read timed
  have hrestores := Frame.read_restores conn l.maxFrame (earlier (l.deadline c.now) none) c.input
    c.now (a := .fresh) (Service.Restores.refl c.service)
  rw [hr] at hrestores
  have hgo : c.goOn l h conn none .fresh = (.idle, { c with
      input := rest
      now := c.now + l.readTimeout
      service := (a.abandon s).note (.idle conn) }) := by
    rw [goOn]
    split <;> rename_i hr' <;> rw [hr] at hr' <;> cases hr'
    rw [if_pos (deadline_of_timed timed c.now)]
  have hrun := run_eq l h conn none c
  rw [hgo] at hrun
  exact ⟨_, hrun, rfl, rfl, Service.Restores.note hrestores _⟩

/-- Each frame has a timeout of its own. If the delays of each are shorter than that, the
conversation is the one without delays and without a timeout. If not, it is the same up to the first
frame whose delays are longer; there it ends well, the handler is not called for that frame, nothing
more is written, and what was charged for the frame is given back. -/
theorem timeouts_start_with_each_frame (timed : 0 < l.readTimeout)
    (apart : ∀ (vs : List (Visit l conn none)) d, Visits h c vs d →
      d.delay? l conn ≠ some l.readTimeout) :
    ((∀ (vs : List (Visit l conn none)) d, Visits h c vs d → Prompt l conn d) →
      ∃ ending c' c₀', c.run l h conn none = (ending, c') ∧
        c.undelayed.run l.untimed h conn none = (ending, c₀') ∧ Alike c' c₀' ∧
        ending.result? ≠ none) ∧
    ((¬ ∀ (vs : List (Visit l conn none)) d, Visits h c vs d → Prompt l conn d) →
      ∃ (vs : List (Visit l conn none)) (vs₀ : List (Visit l.untimed conn none))
        (d d₀ c' : Conversation) (ending : Ending),
        Visits h c vs d ∧ (∀ v ∈ vs, Prompt l conn v.start) ∧ Late l conn d ∧
        Visits h c.undelayed vs₀ d₀ ∧ Alike d d₀ ∧
        c.run l h conn none = (ending, c') ∧ ending.result? = some (.ok ()) ∧
        c'.exchanges = d.exchanges ∧ c'.sink = d.sink ∧ d.service.Restores c'.service) := by
  constructor
  · intro prompt
    obtain ⟨ending, c', c₀', hgo, hgo₀, ha, hresult⟩ :=
      endsAlike_of_prompt (alike_undelayed c) prompt
    have hover : ∀ s, ending.letGo s = s := by
      intro s
      cases ending with
      | waiting a => exact absurd rfl hresult
      | closed | idle | failed e => rfl
    refine ⟨ending, c', c₀', ?_, ?_, ha, hresult⟩
    · rw [run_eq, hgo, hover]
    · rw [run_eq, hgo₀, hover]
  · intro hn
    simp only [not_forall] at hn
    obtain ⟨vs, d, hv, hd⟩ := hn
    have late := (prompt_or_late (apart vs d hv)).resolve_left hd
    have prompt := hv.prompt timed apart
    obtain ⟨vs₀, d₀, hv₀, ha⟩ := hv.exists_alike (alike_undelayed c) prompt
    obtain ⟨c', hrun, hx, hk, hs⟩ := run_of_late timed late h
    refine ⟨vs, vs₀, d, d₀, c', .idle, hv, prompt, late, hv₀, ha, ?_, rfl, hx, hk, hs⟩
    rw [← hrun, run_eq, run_eq, hv.goOn_eq]

/-- A visit is known by where it begins. -/
theorem Visit.eq_of_start {patience : Option Nat} {v w : Visit l conn patience}
    (hs : v.start = w.start) : v = w := by
  have hv := v.read
  rw [hs, w.read] at hv
  obtain ⟨start, packet, rest, now, held, read⟩ := v
  obtain rfl := hs
  cases hv
  rfl

theorem Visits.cases {patience : Option Nat} {vs : List (Visit l conn patience)}
    (hv : Visits h c vs d) :
    d = c ∨ ∃ (v : Visit l conn patience) (ws : List (Visit l conn patience)), v.start = c ∧
      Visits h (v.served h).2 ws d := by
  cases hv with
  | nothing => exact Or.inl rfl
  | visit replied more => exact Or.inr ⟨_, _, rfl, more⟩

/-- Two frames with six milliseconds of delays each; the second does not come to its end. -/
theorem timeouts_start_with_each_frame_of_hanging_payload :
    ∃ s al c' ending, Service.create 100 {} = .ok (s, al) ∧
      run ⟨8, 10⟩ .silent ⟨7⟩ none
          { input := [.data [0, 0], .delay 6, .data [0, 1, 104], .delay 6, .data [0, 0, 0, 2, 105],
              .hang]
            sink := .unlimited
            service := (s.run [.init ⟨"host", ⟨10, 2⟩⟩, .connect ⟨7⟩]).2 } = (ending, c') ∧
      ending.result? = some (.ok ()) ∧ c'.exchanges.map Exchange.payload = [[104]] ∧
      c'.service.used = 10 := by
  let s : Service := ⟨⟨1⟩, none, .ofCeiling 100, [.constructed ⟨1⟩ 100]⟩
  let rest : List Arrival := [.delay 6, .data [0, 0, 0, 2, 105], .hang]
  let c : Conversation :=
    { input := [.data [0, 0], .delay 6, .data [0, 1, 104]] ++ rest
      sink := .unlimited
      service := (s.run [.init ⟨"host", ⟨10, 2⟩⟩, .connect ⟨7⟩]).2 }
  let t : Service := (Frame.read ⟨7⟩ 8 (some 10) c.input .fresh 0 c.service).service
  let p : Packet := ⟨⟨⟨1⟩, ⟨⟨7⟩, 1, 1⟩⟩, [104]⟩
  let v : Visit ⟨8, 10⟩ ⟨7⟩ none := ⟨c, p, rest, 6, t,
    (rfl : Frame.read ⟨7⟩ 8 (some 10) c.input .fresh 0 c.service = ⟨.packet p, rest, 6, t⟩)⟩
  have hfirst : c.delay? ⟨8, 10⟩ ⟨7⟩ = some 6 := rfl
  have hsecond : (v.served .silent).2.delay? ⟨8, 10⟩ ⟨7⟩ = none := by decide +kernel
  -- The conversation is about to read the first frame or the second.
  have hvisits : ∀ (vs : List (Visit ⟨8, 10⟩ ⟨7⟩ none)) d,
      Visits .silent c vs d → d = c ∨ d = (v.served .silent).2 := by
    intro vs d hv
    rcases hv.cases with rfl | ⟨w, ws, hw, hmore⟩
    · exact Or.inl rfl
    obtain rfl : w = v := Visit.eq_of_start hw
    rcases hmore.cases with rfl | ⟨u, us, hu, -⟩
    · exact Or.inr rfl
    · obtain ⟨m, hm, -⟩ := u.prompt (by decide) (by rw [hu, hsecond]; decide)
      rw [hu, hsecond] at hm
      cases hm
  have apart : ∀ (vs : List (Visit ⟨8, 10⟩ ⟨7⟩ none)) d, Visits .silent c vs d →
      d.delay? ⟨8, 10⟩ ⟨7⟩ ≠ some 10 := by
    intro vs d hv
    rcases hvisits vs d hv with rfl | rfl
    · rw [hfirst]
      decide
    · rw [hsecond]
      decide
  obtain ⟨-, hlate⟩ := timeouts_start_with_each_frame (l := ⟨8, 10⟩) (by decide) apart
  have hnot : ¬ ∀ (vs : List (Visit ⟨8, 10⟩ ⟨7⟩ none)) d, Visits .silent c vs d →
      Prompt ⟨8, 10⟩ ⟨7⟩ d := by
    intro hp
    obtain ⟨m, hm, -⟩ := hp [v] _ (.visit (v := v) rfl .nothing)
    cases hsecond.symm.trans hm
  obtain ⟨vs, -, d, -, c', ending, hv, -, late, -, -, hrun, hresult, hx, -, hs⟩ := hlate hnot
  rcases hvisits vs d hv with rfl | rfl
  · exact absurd (late 6 hfirst) (by decide)
  · refine ⟨s, _, c', ending, rfl, hrun, hresult, ?_, ?_⟩
    · rw [hx]
      rfl
    · rw [hs.used]
      decide +kernel

end Conversation

end PacketBudget
