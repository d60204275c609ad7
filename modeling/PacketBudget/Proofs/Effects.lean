import PacketBudget.Budget.Race
import PacketBudget.Proofs.Replacement
import PacketBudget.Total

/-!
Calls on a shared budget take effect one after another. A call takes effect at the move that
answers it: there its decision is right for the bytes then in use, whatever it had read before. In
the order of those moves the calls are those of a budget that is used by one caller at a time.
-/

namespace PacketBudget.Budget

/-- The calls one after another, each by itself. -/
def serveAll (b : Budget) : List Request → List Reply × Budget
  | [] => ([], b)
  | q :: qs =>
    let (a, b) := b.serve q
    let (as, b) := b.serveAll qs
    (a :: as, b)

/-- The bytes that a call with this reply has added to those in use. -/
def Request.taken : Request → Reply → Nat
  | .reserve n, .reserved true => n
  | _, _ => 0

/-- The bytes that a reply reports as given back. -/
def Reply.freed : Reply → Nat
  | .released n => n
  | .reserved _ => 0

section Serving

variable {b : Budget} {n : Nat}

theorem serve_reserve (h : b.used + n ≤ b.ceiling) :
    b.serve (.reserve n) = (.reserved true, { b with used := b.used + n }) := by
  simp only [serve, reserve?_eq_some_iff.mpr ⟨h, rfl⟩]

theorem serve_reserve_of_lt (h : b.ceiling < b.used + n) :
    b.serve (.reserve n) = (.reserved false, b) := by
  simp only [serve, reserve?_eq_none_iff.mpr h]

theorem ceiling_serve (b : Budget) (q : Request) : (b.serve q).2.ceiling = b.ceiling := by
  cases q with
  | reserve n =>
    rcases Nat.lt_or_ge b.ceiling (b.used + n) with h | h
    · rw [serve_reserve_of_lt h]
    · rw [serve_reserve h]
  | release n => rfl

theorem used_serve_le (h : b.used ≤ b.ceiling) (q : Request) :
    (b.serve q).2.used ≤ b.ceiling := by
  cases q with
  | reserve n =>
    rcases Nat.lt_or_ge b.ceiling (b.used + n) with hn | hn
    · rw [serve_reserve_of_lt hn]
      exact h
    · rw [serve_reserve hn]
      exact hn
  | release n => exact Nat.le_trans (Nat.sub_le _ _) h

theorem used_serve (b : Budget) (q : Request) :
    (b.serve q).2.used + (b.serve q).1.freed = b.used + q.taken (b.serve q).1 := by
  cases q with
  | reserve n =>
    rcases Nat.lt_or_ge b.ceiling (b.used + n) with h | h
    · rw [serve_reserve_of_lt h]
      rfl
    · rw [serve_reserve h]
      rfl
  | release n => exact used_release b n

theorem used_serveAll_le (h : b.used ≤ b.ceiling) (qs : List Request) :
    (b.serveAll qs).2.used ≤ b.ceiling := by
  induction qs generalizing b with
  | nil => exact h
  | cons q qs ih =>
    have hc := ceiling_serve b q
    have hu := used_serve_le h q
    rw [← hc] at hu
    exact Nat.le_trans (ih hu) (Nat.le_of_eq hc)

theorem used_serveAll (b : Budget) (qs : List Request) :
    (b.serveAll qs).2.used + total ((b.serveAll qs).1.map Reply.freed) =
      b.used + total (List.zipWith Request.taken qs (b.serveAll qs).1) := by
  induction qs generalizing b with
  | nil => rfl
  | cons q qs ih =>
    have hq := used_serve b q
    have hrest := ih (b.serve q).2
    simp only [serveAll, List.map_cons, List.zipWith_cons_cons, total]
    omega

/-- So many reservations of one size are admitted as there is room for. -/
theorem count_serveAll_reserve (hn : 0 < n) (k : Nat) :
    (b.serveAll (List.replicate k (.reserve n))).1.count (.reserved true) =
      min k ((b.ceiling - b.used) / n) := by
  induction k generalizing b with
  | zero => simp [serveAll]
  | succ k ih =>
    rw [List.replicate_succ, serveAll]
    rcases Nat.lt_or_ge b.ceiling (b.used + n) with h | h
    · have hz : (b.ceiling - b.used) / n = 0 := Nat.div_eq_of_lt (by omega)
      simp only [serve_reserve_of_lt h]
      rw [List.count_cons_of_ne (by decide), ih, hz, Nat.min_zero, Nat.min_zero]
    · have hd : (b.ceiling - b.used) / n = (b.ceiling - (b.used + n)) / n + 1 := by
        rw [Nat.div_eq_sub_div hn (by omega), Nat.sub_add_eq]
      simp only [serve_reserve h]
      rw [List.count_cons_self, ih, hd, Nat.add_min_add_right]

end Serving

namespace Race

/-- The answer of a call, if it has one. -/
def Caller.reply? (c : Caller) : Option Reply :=
  match c.progress with
  | .answered a => some a
  | _ => none

/-- What a reservation has read, if it goes on, is a value at which it fits. -/
def Caller.Fits (ceiling : Nat) (c : Caller) : Prop :=
  ∀ seen n, c.progress = .holding seen → c.request = .reserve n → seen + n ≤ ceiling

/-- One move of a call, with the budget and the call after it. -/
inductive Turn (b : Budget) (c : Caller) : Budget → Caller → Prop
  | idle (done : c.reply? ≠ none) : Turn b c b c
  | looked (pending : c.reply? = none)
      (fits : Caller.Fits b.ceiling { c with progress := .holding b.used }) :
      Turn b c b { c with progress := .holding b.used }
  | effect (pending : c.reply? = none) :
      Turn b c (b.serve c.request).2 { c with progress := .answered (b.serve c.request).1 }

section Moves

variable {b b' : Budget} {c c' : Caller} {r : Race} {m : Move}

/-- A call that reads the bytes in use is refused by them, as it would be by itself, or goes on. -/
theorem look_turn (pending : c.reply? = none) :
    Turn b c b { c with progress := look b.ceiling b.used c.request } := by
  obtain ⟨q, p⟩ := c
  cases q with
  | reserve n =>
    by_cases h : b.used + n ≤ b.ceiling
    · simp only [look, h, ↓reduceIte]
      refine .looked pending ?_
      intro seen k hs hk
      cases hs
      cases hk
      exact h
    · have he := Turn.effect (b := b) pending
      simp only [serve_reserve_of_lt (Nat.lt_of_not_le h)] at he
      simpa only [look, h, ↓reduceIte] using he
  | release n =>
    refine .looked pending ?_
    intro seen k _ hk
    cases hk

/-- An exchange that succeeds does what the call would do by itself. -/
theorem exchange_eq (fits : c.Fits b.ceiling) (held : c.progress = .holding b.used) :
    exchange b.used c.request = ((b.serve c.request).2.used, (b.serve c.request).1) := by
  obtain ⟨q, p⟩ := c
  cases q with
  | reserve n =>
    rw [serve_reserve (fits b.used n held rfl)]
    rfl
  | release n => rfl

theorem advance_turn (fits : c.Fits b.ceiling) (spurious : Bool) :
    Turn b c (advance b spurious c).1 (advance b spurious c).2 := by
  unfold advance
  split
  · rename_i hp
    have pending : c.reply? = none := by simp only [Caller.reply?, hp]
    split
    · rename_i hq
      have he := Turn.effect (b := b) pending
      rw [hq] at he
      simpa only [serve, release, Nat.min_zero, Nat.sub_zero, hq] using he
    · exact look_turn pending
  · rename_i seen hp
    have pending : c.reply? = none := by simp only [Caller.reply?, hp]
    split
    · rename_i hs
      obtain ⟨rfl, _⟩ := hs
      have hb : { b with used := (b.serve c.request).2.used } = (b.serve c.request).2 := by
        rw [← ceiling_serve b c.request]
      simp only [exchange_eq fits hp, hb]
      exact .effect pending
    · exact look_turn pending
  · rename_i a hp
    refine .idle ?_
    simp only [Caller.reply?, hp, ne_eq, reduceCtorEq, not_false_eq_true]

theorem Turn.fits (h : Turn b c b' c') (fits : c.Fits b.ceiling) : c'.Fits b'.ceiling := by
  cases h with
  | idle => exact fits
  | looked _ hf => exact hf
  | effect => exact nofun

theorem Turn.ceiling (h : Turn b c b' c') : b'.ceiling = b.ceiling := by
  cases h with
  | idle | looked => rfl
  | effect => exact ceiling_serve b c.request

theorem Turn.request (h : Turn b c b' c') : c'.request = c.request := by
  cases h <;> rfl

end Moves

/-- A call that takes effect, and the place of the move at which it does. -/
structure Effect where
  place : Nat
  caller : Nat
  request : Request
  reply : Reply
  deriving DecidableEq, Repr

/-- The effect of a move: that of the call which it answers, if it answers one. -/
def effect? (r : Race) (place : Nat) (m : Move) : Option Effect :=
  match r.callers[m.caller]?, (r.move m).callers[m.caller]? with
  | some c, some c' =>
    if c.reply? = none then c'.reply?.map fun a => ⟨place, m.caller, c.request, a⟩ else none
  | _, _ => none

/-- The effects of moves in order, the first of them at `place`. -/
def effects (r : Race) (place : Nat) : List Move → List Effect
  | [] => []
  | m :: ms => (r.effect? place m).toList ++ (r.move m).effects (place + 1) ms

/-- The request and the answer of the call with number `i`, if it has been answered. -/
def answered? (r : Race) (i : Nat) : Option (Request × Reply) :=
  r.callers[i]?.bind fun c => c.reply?.map fun a => (c.request, a)

/-- No reservation goes on with a value at which it does not fit. -/
def Fits (r : Race) : Prop :=
  ∀ (i : Nat) (c : Caller), r.callers[i]? = some c → c.Fits r.budget.ceiling

variable {r : Race} {m : Move} {i : Nat} {c c' : Caller} {b : Budget}

theorem fits_start (b : Budget) (qs : List Request) : (start b qs).Fits := by
  intro i c hc
  simp only [start, List.getElem?_toArray, List.getElem?_map, Option.map_eq_some_iff] at hc
  obtain ⟨q, _, rfl⟩ := hc
  exact nofun

/-- A move is a turn of its call. -/
theorem move_turn (h : r.Fits) (m : Move) :
    (r.callers[m.caller]? = none ∧ r.move m = r) ∨
      ∃ c b c', r.callers[m.caller]? = some c ∧ Turn r.budget c b c' ∧
        r.move m = ⟨b, r.callers.setIfInBounds m.caller c'⟩ := by
  cases hc : r.callers[m.caller]? with
  | none => exact Or.inl ⟨rfl, by simp only [move, hc]⟩
  | some c =>
    refine Or.inr ⟨c, _, _, rfl, advance_turn (h m.caller c hc) m.spurious, ?_⟩
    simp only [move, hc]

theorem fits_move (h : r.Fits) (m : Move) : (r.move m).Fits := by
  rcases move_turn h m with ⟨_, hm⟩ | ⟨c, b, c', hc, turn, hm⟩
  · rw [hm]
    exact h
  · rw [hm]
    intro j d hd
    rw [getElem?_replaced hc] at hd
    split at hd
    · cases hd
      exact turn.fits (h m.caller c hc)
    · rw [turn.ceiling]
      exact h j d hd

theorem answered?_set (hc : r.callers[i]? = some c) (b : Budget) (c' : Caller) (j : Nat) :
    answered? ⟨b, r.callers.setIfInBounds i c'⟩ j =
      if j = i then c'.reply?.map fun a => (c'.request, a) else r.answered? j := by
  simp only [answered?, getElem?_replaced hc]
  split <;> rfl

/-- The answers are those of one call and those of the others. -/
theorem replies_set (hc : r.callers[i]? = some c) :
    ∃ rest, r.replies.Perm (c.reply?.toList ++ rest) ∧ ∀ b c',
      (replies ⟨b, r.callers.setIfInBounds i c'⟩).Perm (c'.reply?.toList ++ rest) := by
  obtain ⟨rest, hp, hs⟩ := exists_others hc
  have hrep : ∀ r : Race, r.replies = r.callers.toList.filterMap Caller.reply? := fun _ => rfl
  have hcons : ∀ (c : Caller) cs, (c :: cs).filterMap Caller.reply? =
      c.reply?.toList ++ cs.filterMap Caller.reply? := by
    intro c cs
    cases ha : c.reply? <;> simp [ha]
  refine ⟨rest.filterMap Caller.reply?, ?_, ?_⟩
  · rw [hrep, ← hcons]
    exact hp.filterMap _
  · intro b c'
    rw [hrep, ← hcons]
    exact (hs c').filterMap _

/-- A turn that changes neither the answer nor the request of its call does not show. -/
theorem silent_set (hc : r.callers[i]? = some c) (b : Budget) (hrep : c'.reply? = c.reply?)
    (hreq : c'.request = c.request) :
    (∀ j, answered? ⟨b, r.callers.setIfInBounds i c'⟩ j = r.answered? j) ∧
      (replies ⟨b, r.callers.setIfInBounds i c'⟩).Perm r.replies := by
  constructor
  · intro j
    rw [answered?_set hc]
    split
    · rename_i hj
      rw [hj, answered?, hc, Option.bind_some, hrep, hreq]
    · rfl
  · obtain ⟨rest, hr, hs⟩ := replies_set hc
    have hp := hs b c'
    rw [hrep] at hp
    exact hp.trans hr.symm

/-- A move answers no call, or it answers one that had no answer, and that call has the answer and
leaves the bytes in use that it would by itself. -/
theorem effect_cases (h : r.Fits) (place : Nat) (m : Move) :
    (r.effect? place m = none ∧ (r.move m).budget = r.budget ∧
        (∀ j, (r.move m).answered? j = r.answered? j) ∧ (r.move m).replies.Perm r.replies) ∨
      ∃ q, r.answered? m.caller = none ∧
        r.effect? place m = some ⟨place, m.caller, q, (r.budget.serve q).1⟩ ∧
        (r.move m).budget = (r.budget.serve q).2 ∧
        (∀ j, (r.move m).answered? j =
          if j = m.caller then some (q, (r.budget.serve q).1) else r.answered? j) ∧
        (r.move m).replies.Perm ((r.budget.serve q).1 :: r.replies) := by
  rcases move_turn h m with ⟨hc, hm⟩ | ⟨c, b, c', hc, turn, hm⟩
  · left
    rw [hm]
    refine ⟨?_, rfl, fun _ => rfl, .refl _⟩
    simp only [effect?, hc]
  · have hc' : (r.move m).callers[m.caller]? = some c' := by
      rw [hm, getElem?_replaced hc, if_pos rfl]
    cases turn with
    | idle done =>
      left
      refine ⟨?_, by rw [hm], hm ▸ silent_set hc _ rfl rfl⟩
      simp only [effect?, hc, hc', done, ↓reduceIte]
    | looked pending fits =>
      left
      refine ⟨?_, by rw [hm], hm ▸ silent_set hc _ pending.symm rfl⟩
      simp only [effect?, hc, hc', pending, ↓reduceIte]
      rfl
    | effect pending =>
      right
      obtain ⟨rest, hr, hs⟩ := replies_set hc
      rw [pending] at hr
      refine ⟨c.request, ?_, ?_, by rw [hm], ?_, ?_⟩
      · simp only [answered?, hc, Option.bind_some, pending, Option.map_none]
      · simp only [effect?, hc, hc', pending, ↓reduceIte]
        rfl
      · intro j
        rw [hm, answered?_set hc]
        rfl
      · rw [hm]
        exact (hs _ _).trans (hr.symm.cons _)

theorem run_cons (r : Race) (m : Move) (ms : List Move) : r.run (m :: ms) = (r.move m).run ms := rfl

theorem run_append (r : Race) (ms ns : List Move) : r.run (ms ++ ns) = (r.run ms).run ns :=
  List.foldl_append

theorem answered?_move (h : r.Fits) (m : Move) {p : Request × Reply} (ha : r.answered? i = some p) :
    (r.move m).answered? i = some p := by
  rcases effect_cases h 0 m with ⟨_, _, hs, _⟩ | ⟨q, hn, _, _, hs, _⟩
  · rw [hs, ha]
  · rw [hs, if_neg, ha]
    rintro rfl
    rw [hn] at ha
    cases ha

theorem request_move (h : r.Fits) (m : Move) (i : Nat) :
    (r.move m).callers[i]?.map Caller.request = r.callers[i]?.map Caller.request := by
  rcases move_turn h m with ⟨_, hm⟩ | ⟨c, b, c', hc, turn, hm⟩
  · rw [hm]
  · rw [hm, getElem?_replaced hc]
    split
    · rename_i hi
      rw [hi, hc, Option.map_some, Option.map_some, turn.request]
    · rfl

theorem fits_run (h : r.Fits) (ms : List Move) : (r.run ms).Fits := by
  induction ms generalizing r with
  | nil => exact h
  | cons m ms ih => exact ih (fits_move h m)

theorem request_run (h : r.Fits) (ms : List Move) (i : Nat) :
    (r.run ms).callers[i]?.map Caller.request = r.callers[i]?.map Caller.request := by
  induction ms generalizing r with
  | nil => rfl
  | cons m ms ih => exact (ih (fits_move h m)).trans (request_move h m i)

theorem answered?_of_run (h : r.Fits) (ms : List Move) {p : Request × Reply}
    (ha : r.answered? i = some p) : (r.run ms).answered? i = some p := by
  induction ms generalizing r with
  | nil => exact ha
  | cons m ms ih => exact ih (fits_move h m) (answered?_move h m ha)

theorem effects_silent {k : Nat} (he : r.effect? k m = none) (ms : List Move) :
    r.effects k (m :: ms) = (r.move m).effects (k + 1) ms := by
  rw [effects, he, Option.toList_none, List.nil_append]

theorem effects_answering {k : Nat} {e : Effect} (he : r.effect? k m = some e) (ms : List Move) :
    r.effects k (m :: ms) = e :: (r.move m).effects (k + 1) ms := by
  rw [effects, he, Option.toList_some, List.singleton_append]

/-- One caller at a time comes to the same answers and the same bytes in use. -/
theorem serveAll_effects (h : r.Fits) (k : Nat) (ms : List Move) :
    r.budget.serveAll ((r.effects k ms).map Effect.request) =
      ((r.effects k ms).map Effect.reply, (r.run ms).budget) := by
  induction ms generalizing r k with
  | nil => rfl
  | cons m ms ih =>
    have hrest := ih (fits_move h m) (k + 1)
    rcases effect_cases h k m with ⟨he, hb, _⟩ | ⟨q, _, he, hb, _⟩
    · rw [hb] at hrest
      rw [effects_silent he, run_cons, hrest]
    · rw [hb] at hrest
      simp only [effects_answering he, List.map_cons, serveAll, hrest, run_cons]

theorem replies_run (h : r.Fits) (k : Nat) (ms : List Move) :
    (r.run ms).replies.Perm ((r.effects k ms).map Effect.reply ++ r.replies) := by
  induction ms generalizing r k with
  | nil => exact .refl _
  | cons m ms ih =>
    have hrest := ih (fits_move h m) (k + 1)
    rcases effect_cases h k m with ⟨he, _, _, hp⟩ | ⟨q, _, he, _, _, hp⟩
    · rw [effects_silent he]
      exact hrest.trans (hp.append_left _)
    · rw [effects_answering he, List.map_cons, List.cons_append]
      exact hrest.trans ((hp.append_left _).trans List.perm_middle)

theorem answered?_run (h : r.Fits) (k : Nat) (ms : List Move) {p : Request × Reply} :
    (r.run ms).answered? i = some p ↔ r.answered? i = some p ∨
      ∃ e ∈ r.effects k ms, e.caller = i ∧ (e.request, e.reply) = p := by
  induction ms generalizing r k with
  | nil => simp [effects, run]
  | cons m ms ih =>
    rw [run_cons, ih (fits_move h m) (k + 1)]
    rcases effect_cases h k m with ⟨he, _, hs, _⟩ | ⟨q, hn, he, _, hs, _⟩
    · rw [effects_silent he, hs]
    · simp only [effects_answering he, hs, List.mem_cons, exists_eq_or_imp]
      by_cases hi : i = m.caller
      · subst hi
        simp only [hn, ↓reduceIte, Option.some.injEq, true_and, reduceCtorEq, false_or]
      · simp only [hi, Ne.symm hi, ↓reduceIte, false_and, false_or]

/-- Only a call that has no answer can take effect. -/
theorem answered?_of_mem_effects (h : r.Fits) {k : Nat} {ms : List Move} {e : Effect}
    (he : e ∈ r.effects k ms) : r.answered? e.caller = none := by
  induction ms generalizing r k with
  | nil => cases he
  | cons m ms ih =>
    rcases List.mem_append.mp he with hm | hm
    · rcases effect_cases h k m with ⟨hn, _⟩ | ⟨q, ha, hs, _⟩
      · rw [hn] at hm
        cases hm
      · rw [hs] at hm
        rw [List.mem_singleton.mp hm]
        exact ha
    · have hlater := ih (fits_move h m) hm
      cases ha : r.answered? e.caller with
      | none => rfl
      | some p =>
        rw [answered?_move h m ha] at hlater
        cases hlater

theorem nodup_callers_effects (h : r.Fits) (k : Nat) (ms : List Move) :
    ((r.effects k ms).map Effect.caller).Nodup := by
  induction ms generalizing r k with
  | nil => exact .nil
  | cons m ms ih =>
    have hrest := ih (fits_move h m) (k + 1)
    rcases effect_cases h k m with ⟨he, _⟩ | ⟨q, _, he, _, hs, _⟩
    · rwa [effects_silent he]
    · rw [effects_answering he, List.map_cons]
      refine List.nodup_cons.mpr ⟨?_, hrest⟩
      intro hm
      obtain ⟨e, hmem, hc⟩ := List.mem_map.mp hm
      have hn := answered?_of_mem_effects (fits_move h m) hmem
      rw [hs, if_pos hc] at hn
      cases hn

/-- A call takes effect at a move of its own. -/
theorem place_of_mem_effects (h : r.Fits) {k : Nat} {ms : List Move} {e : Effect}
    (he : e ∈ r.effects k ms) :
    k ≤ e.place ∧ ∃ m, ms[e.place - k]? = some m ∧ m.caller = e.caller := by
  induction ms generalizing r k with
  | nil => cases he
  | cons m ms ih =>
    rcases List.mem_append.mp he with hm | hm
    · rcases effect_cases h k m with ⟨hn, _⟩ | ⟨q, _, hs, _⟩
      · rw [hn] at hm
        cases hm
      · rw [hs] at hm
        rw [List.mem_singleton.mp hm]
        refine ⟨Nat.le_refl _, m, ?_, rfl⟩
        rw [Nat.sub_self, List.getElem?_cons_zero]
    · obtain ⟨hk, m', hm', hc⟩ := ih (fits_move h m) hm
      refine ⟨by omega, m', ?_, hc⟩
      have hp : e.place - k = e.place - (k + 1) + 1 := by omega
      rw [hp, List.getElem?_cons_succ, hm']

theorem ordered_effects (h : r.Fits) (k : Nat) (ms : List Move) :
    (r.effects k ms).Pairwise fun e f => e.place < f.place := by
  induction ms generalizing r k with
  | nil => exact .nil
  | cons m ms ih =>
    have hrest := ih (fits_move h m) (k + 1)
    rcases effect_cases h k m with ⟨he, _⟩ | ⟨q, _, he, _⟩
    · rwa [effects_silent he]
    · rw [effects_answering he]
      exact .cons (fun f hf => (place_of_mem_effects (fits_move h m) hf).1) hrest

/-- A call that has just moved has its answer, or has read the bytes that are now in use. -/
theorem settled_move (h : r.Fits) {m : Move} (hc : r.callers[m.caller]? = some c) :
    ∃ c', (r.move m).callers[m.caller]? = some c' ∧
      (c'.reply? ≠ none ∨ c'.progress = .holding (r.move m).budget.used) := by
  rcases move_turn h m with ⟨hn, _⟩ | ⟨d, b, c', hd, turn, hm⟩
  · rw [hn] at hc
    cases hc
  · refine ⟨c', by rw [hm, getElem?_replaced hd, if_pos rfl], ?_⟩
    rw [hm]
    cases turn with
    | idle done => exact Or.inl done
    | looked => exact Or.inr rfl
    | effect => exact Or.inl nofun

/-- A call that exchanges what is now in use has its answer. -/
theorem reply?_advance (hs : c.reply? ≠ none ∨ c.progress = .holding b.used) :
    (advance b false c).2.reply? ≠ none := by
  obtain ⟨q, p⟩ := c
  cases p with
  | waiting =>
    rcases hs with hd | hp
    · exact absurd rfl hd
    · cases hp
  | holding seen =>
    rcases hs with hd | hp
    · exact absurd rfl hd
    · cases hp
      simp [advance, Caller.reply?]
  | answered a => simp [advance, Caller.reply?]

/-- A call that moves twice with no other in between has its answer. -/
theorem answered?_alone (h : r.Fits) (hi : i < r.callers.size) :
    (r.run [{ caller := i }, { caller := i }]).answered? i ≠ none := by
  obtain ⟨c, hc, hs⟩ := settled_move (m := { caller := i }) h (Array.getElem?_eq_getElem hi)
  obtain ⟨a, ha⟩ := Option.ne_none_iff_exists'.mp (reply?_advance hs)
  have hmove : (r.run [{ caller := i }, { caller := i }]).callers[i]? =
      some (advance (r.move { caller := i }).budget false c).2 := by
    rw [run_cons, run_cons]
    generalize r.move { caller := i } = t at hc
    simp only [run, List.foldl_nil, move, hc]
    rw [getElem?_replaced hc, if_pos rfl]
  simp only [answered?, hmove, Option.bind_some, ha, Option.map_some, ne_eq, reduceCtorEq,
    not_false_eq_true]

/-- From wherever they are, all calls can come to their end. -/
theorem exists_run_answered (h : r.Fits) (n : Nat) (hn : n ≤ r.callers.size) :
    ∃ ms, ∀ i < n, (r.run ms).answered? i ≠ none := by
  induction n with
  | zero => exact ⟨[], nofun⟩
  | succ n ih =>
    obtain ⟨ms, hms⟩ := ih (Nat.le_of_succ_le hn)
    have hlt : n < (r.run ms).callers.size := by
      rw [size_callers_run]
      exact hn
    refine ⟨ms ++ [{ caller := n }, { caller := n }], ?_⟩
    intro i hi
    rw [run_append]
    rcases Nat.lt_succ_iff_lt_or_eq.mp hi with hi | rfl
    · obtain ⟨p, hp⟩ := Option.ne_none_iff_exists'.mp (hms i hi)
      rw [answered?_of_run (fits_run h ms) _ hp]
      exact nofun
    · exact answered?_alone (fits_run h ms) hlt

theorem length_replies (h : ∀ i < r.callers.size, r.answered? i ≠ none) :
    r.replies.length = r.callers.size := by
  have hall : ∀ c ∈ r.callers.toList, (Caller.reply? c).isSome = true := by
    intro c hc
    obtain ⟨i, hi, rfl⟩ := Array.mem_iff_getElem.mp (Array.mem_toList_iff.mp hc)
    have hi' := h i hi
    rw [Option.isSome_iff_ne_none]
    intro hn
    simp [answered?, hi, hn] at hi'
  have hrep : r.replies = r.callers.toList.filterMap Caller.reply? := rfl
  rw [hrep, List.length_filterMap_eq_countP, List.countP_eq_length.mpr hall, Array.length_toList]

/-- An order in which the calls of a race that have been answered are the calls of a budget that is
used by one caller at a time. -/
structure Explains (b : Budget) (qs : List Request) (ms : List Move) (es : List Effect) : Prop where
  /-- A call takes effect at one of its own moves. -/
  own : ∀ e ∈ es, ∃ m, ms[e.place]? = some m ∧ m.caller = e.caller
  ordered : es.Pairwise fun e f => e.place < f.place
  once : (es.map Effect.caller).Nodup
  asked : ∀ e ∈ es, qs[e.caller]? = some e.request
  answered : ∀ i p, ((start b qs).run ms).answered? i = some p ↔
    ∃ e ∈ es, e.caller = i ∧ (e.request, e.reply) = p
  sequential : b.serveAll (es.map Effect.request) =
    (es.map Effect.reply, ((start b qs).run ms).budget)

theorem answered?_start (b : Budget) (qs : List Request) (i : Nat) :
    (start b qs).answered? i = none := by
  simp only [answered?, start, List.getElem?_toArray, List.getElem?_map]
  cases qs[i]? <;> rfl

theorem request_start (b : Budget) (qs : List Request) (i : Nat) :
    (start b qs).callers[i]?.map Caller.request = qs[i]? := by
  simp only [start, List.getElem?_toArray, List.getElem?_map]
  cases qs[i]? <;> rfl

theorem explains (b : Budget) (qs : List Request) (ms : List Move) :
    Explains b qs ms ((start b qs).effects 0 ms) := by
  have h := fits_start b qs
  have hanswered : ∀ i p, ((start b qs).run ms).answered? i = some p ↔
      ∃ e ∈ (start b qs).effects 0 ms, e.caller = i ∧ (e.request, e.reply) = p := by
    intro i p
    rw [answered?_run h 0 ms, answered?_start]
    simp only [reduceCtorEq, false_or]
  refine ⟨?_, ordered_effects h 0 ms, nodup_callers_effects h 0 ms, ?_, hanswered,
    serveAll_effects h 0 ms⟩
  · intro e he
    exact (place_of_mem_effects h he).2
  · intro e he
    have ha := (hanswered e.caller _).mpr ⟨e, he, rfl, rfl⟩
    rw [← request_start b qs, ← request_run h ms]
    obtain ⟨c, hc, hp⟩ := Option.bind_eq_some_iff.mp ha
    obtain ⟨a, _, hq⟩ := Option.map_eq_some_iff.mp hp
    rw [hc, Option.map_some, (Prod.mk.inj hq).1]

namespace Explains

variable {ceiling n : Nat} {qs : List Request} {ms : List Move} {es : List Effect}

theorem used_le (h : Explains { ceiling } qs ms es) :
    ((start { ceiling } qs).run ms).budget.used ≤ ceiling := by
  have hle := used_serveAll_le (b := { ceiling }) (Nat.zero_le _) (es.map Effect.request)
  rwa [h.sequential] at hle

theorem used_eq (h : Explains { ceiling } qs ms es) :
    ((start { ceiling } qs).run ms).budget.used + total (es.map fun e => e.reply.freed) =
      total (es.map fun e => e.request.taken e.reply) := by
  have hsum := used_serveAll { ceiling } (es.map Effect.request)
  rw [h.sequential, List.zipWith_map, List.zipWith_self, List.map_map, Nat.zero_add] at hsum
  exact hsum

theorem count_reserved (h : Explains { ceiling } qs ms es) (hn : 0 < n)
    (hqs : qs = List.replicate qs.length (.reserve n)) :
    (es.map Effect.reply).count (.reserved true) = min es.length (ceiling / n) := by
  have hreq : es.map Effect.request = List.replicate es.length (.reserve n) := by
    rw [← List.length_map (f := Effect.request)]
    apply List.eq_replicate_of_mem
    intro q hq
    obtain ⟨e, hm, rfl⟩ := List.mem_map.mp hq
    have ha := List.mem_of_getElem? (h.asked e hm)
    rw [hqs] at ha
    exact List.eq_of_mem_replicate ha
  have hcount := count_serveAll_reserve (b := { ceiling }) hn es.length
  rwa [← hreq, h.sequential] at hcount

end Explains

theorem replies_start (b : Budget) (qs : List Request) : (start b qs).replies = [] := by
  rw [List.eq_nil_iff_forall_not_mem]
  intro a ha
  obtain ⟨c, hc, hr⟩ := List.mem_filterMap.mp ha
  obtain ⟨q, _, rfl⟩ := List.mem_map.mp hc
  cases hr

theorem exists_run_replies (h : r.Fits) : ∃ ms, (r.run ms).replies.length = r.callers.size := by
  obtain ⟨ms, hms⟩ := exists_run_answered h r.callers.size (Nat.le_refl _)
  refine ⟨ms, ?_⟩
  rw [← size_callers_run r ms]
  apply length_replies
  intro i hi
  rw [size_callers_run] at hi
  exact hms i hi

/-- In 64-bit words a sum that does not fit is one that wraps or that is past the ceiling. -/
theorem look_words (ceiling seen n : UInt64) :
    look ceiling.toNat seen.toNat (.reserve n.toNat) =
      if seen ≤ seen + n ∧ seen + n ≤ ceiling then .holding seen.toNat
      else .answered (.reserved false) := by
  have hfits : (seen ≤ seen + n ∧ seen + n ≤ ceiling) ↔
      seen.toNat + n.toNat ≤ ceiling.toNat := by
    have hs := seen.toNat_lt
    have hn := n.toNat_lt
    have hc := ceiling.toNat_lt
    rw [UInt64.le_iff_toNat_le, UInt64.le_iff_toNat_le, UInt64.toNat_add]
    omega
  simp only [look, hfits]

/-- The calls that have been answered are those of a budget with one caller at a time, each at one
of its own moves. So the bytes in use are those reserved less those reported as given back, they
never go past the ceiling, and of racing reservations of one size as many are admitted as there is
room for. From wherever they are, all calls can come to their end. In words that wrap, with the
wrapping noticed, the same reservations are given up. -/
theorem calls_take_effect_in_order (ceiling : Nat) (qs : List Request) (ms : List Move) :
    let r := (start { ceiling } qs).run ms
    ∃ es, Explains { ceiling } qs ms es ∧ r.budget.used ≤ ceiling ∧
      r.budget.used + total (es.map fun e => e.reply.freed) =
        total (es.map fun e => e.request.taken e.reply) ∧
      (∀ n, 0 < n → qs = List.replicate qs.length (.reserve n) →
        r.replies.count (.reserved true) = min r.replies.length (ceiling / n)) ∧
      (∃ ms', (r.run ms').replies.length = qs.length) ∧
      ∀ c seen n : UInt64, c.toNat = ceiling →
        look ceiling seen.toNat (.reserve n.toNat) =
          if seen ≤ seen + n ∧ seen + n ≤ c then .holding seen.toNat
          else .answered (.reserved false) := by
  intro r
  have h := fits_start { ceiling } qs
  have he := explains { ceiling } qs ms
  have hp := replies_run h 0 ms
  rw [replies_start, List.append_nil] at hp
  refine ⟨_, he, he.used_le, he.used_eq, ?_, ?_, ?_⟩
  · intro n hn hqs
    rw [hp.count_eq, hp.length_eq, List.length_map]
    exact he.count_reserved hn hqs
  · obtain ⟨ms', hms⟩ := exists_run_replies (fits_run h ms)
    refine ⟨ms', hms.trans ?_⟩
    rw [size_callers_run]
    simp [start]
  · rintro c seen n rfl
    exact look_words c seen n

/-- Three calls have all read that nothing is in use. The second loses its exchange to the first,
and then once more for no reason; the third is refused by what the first two have left. -/
theorem calls_take_effect_in_order_of_stale_reads :
    ∃ ms, ((start { ceiling := 10 } (List.replicate 3 (.reserve 4))).run ms).replies =
        [.reserved true, .reserved true, .reserved false] ∧
      ((start { ceiling := 10 } (List.replicate 3 (.reserve 4))).run ms).replies.count
        (.reserved true) = min 3 (10 / 4) := by
  obtain ⟨es, _, _, _, hcount, _⟩ := calls_take_effect_in_order 10 (List.replicate 3 (.reserve 4))
    [⟨0, false⟩, ⟨1, false⟩, ⟨2, false⟩, ⟨0, false⟩, ⟨1, false⟩, ⟨1, true⟩, ⟨1, false⟩, ⟨2, false⟩]
  exact ⟨_, by decide, hcount 4 (by decide) rfl⟩

end Race

end PacketBudget.Budget
