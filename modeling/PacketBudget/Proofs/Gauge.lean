import PacketBudget.Proofs.Decisions

/-!
The gauge of the registered connections while hooks run at once. A close that overtakes the hook
that has registered its id may lose its decrement. The gauge and the table differ by such losses and
by nothing else.
-/

namespace PacketBudget.Ledger.Race

/-- How often the calls have yet to raise the gauge. -/
def ups (r : Race) : Nat := total (r.callers.toList.map fun c => c.progress.ups)

/-- How often the calls have yet to lower the gauge. -/
def downs (r : Race) : Nat := total (r.callers.toList.map fun c => c.progress.downs)

/-- What the calls may yet take off the gauge. -/
def weight (r : Race) : Nat := total (r.callers.toList.map fun c => c.progress.weight)

/-- The ids that are registered and not counted yet. -/
def pending (r : Race) : List ConnId := r.callers.toList.filterMap Caller.pending?

/-- Whether the next move of call `i` is a decrement of a gauge that shows none. -/
def wasted (r : Race) (i : Nat) : Bool := (r.callers[i]?.map (wastes r.ledger)).getD false

/-- How many decrements of a run find a gauge that shows none. -/
def lost (r : Race) : List Nat → Nat
  | [] => 0
  | i :: is => (r.wasted i).toNat + (r.move i).lost is

/-- No close in the run takes an id off the table before the call that has registered it has
counted it. -/
def Patient (r : Race) : List Nat → Prop
  | [] => True
  | i :: is =>
    (∀ id ∈ r.pending, r.callers[i]? ≠ some ⟨.close id, .waiting⟩) ∧ (r.move i).Patient is

instance decidablePatient : (r : Race) → (is : List Nat) → Decidable (r.Patient is)
  | _, [] => isTrue trivial
  | r, i :: is =>
    have := decidablePatient (r.move i) is
    inferInstanceAs (Decidable (_ ∧ _))

/-- The gauge differs from the table by what the calls have yet to do to it and by the `lost`
decrements; `most` is a bound for all of it. -/
structure Gauged (r : Race) (lost most : Nat) : Prop where
  sound : r.ledger.accounts.table.Sound
  steady : ∀ c ∈ r.callers.toList, c.Steady
  gauge : Shows r.ledger.counters.activeConnections r.ups
    (r.ledger.accounts.table.size + r.downs + lost)
  bounded : r.ledger.accounts.table.size + r.weight + lost ≤ most

/-- Every id that is not counted yet is registered. -/
structure Awaited (r : Race) : Prop where
  once : r.pending.Nodup
  registered : ∀ id ∈ r.pending, r.ledger.accounts.table.get? id ≠ none

variable {r : Race} {c : Caller} {i n most : Nat}

theorem move_of_none (hc : r.callers[i]? = none) : r.move i = r ∧ r.wasted i = false := by
  rw [wasted, hc]
  exact ⟨by simp only [move, hc], rfl⟩

theorem move_of_some (hc : r.callers[i]? = some c) :
    r.move i = ⟨(advance r.ledger c).1, r.callers.setIfInBounds i (advance r.ledger c).2⟩ ∧
      r.wasted i = wastes r.ledger c := by
  rw [wasted, hc]
  exact ⟨by simp only [move, hc], rfl⟩

/-- What holds of every call holds after a move if it holds of the call that has moved. -/
theorem forall_moved {P : Caller → Prop} (h : ∀ c ∈ r.callers.toList, P c)
    (hc : r.callers[i]? = some c) {c' : Caller} (hp : P c') :
    ∀ d ∈ (r.callers.setIfInBounds i c').toList, P d := by
  obtain ⟨rest, hperm, hs⟩ := exists_others hc
  intro d hd
  rcases List.mem_cons.mp ((hs c').mem_iff.mp hd) with rfl | hd
  · exact hp
  · exact h d (hperm.mem_iff.mpr (List.mem_cons_of_mem c hd))

theorem gauged_move (h : r.Gauged n most) (i : Nat) :
    (r.move i).Gauged (n + (r.wasted i).toNat) most := by
  cases hc : r.callers[i]? with
  | none =>
    obtain ⟨hm, hw⟩ := move_of_none hc
    rw [hm, hw]
    exact h
  | some c =>
    obtain ⟨hm, hw⟩ := move_of_some hc
    have hsteady := h.steady c (Array.mem_toList_iff.mpr (Array.mem_of_getElem? hc))
    obtain ⟨u, hu, hus⟩ := sum_split hc fun c => c.progress.ups
    obtain ⟨d, hd, hds⟩ := sum_split hc fun c => c.progress.downs
    obtain ⟨m, hw', hws⟩ := sum_split hc fun c => c.progress.weight
    have hgauge := h.gauge
    have hbounded := h.bounded
    rw [ups, hu, downs, hd] at hgauge
    rw [weight, hw'] at hbounded
    obtain ⟨hsound, hshows⟩ := advance_shows h.sound hsteady hgauge
    have hweight := advance_weight h.sound hsteady
    rw [hm, hw]
    refine ⟨hsound, forall_moved h.steady hc (advance_steady hsteady), ?_, ?_⟩
    · rw [ups, hus, downs, hds]
      exact hshows
    · rw [weight, hws]
      simp only
      omega

theorem awaited_move (h : r.Awaited) (hs : ∀ c ∈ r.callers.toList, c.Steady)
    (patient : ∀ id ∈ r.pending, r.callers[i]? ≠ some ⟨.close id, .waiting⟩) :
    (r.move i).Awaited := by
  cases hc : r.callers[i]? with
  | none =>
    rw [(move_of_none hc).1]
    exact h
  | some c =>
    rw [(move_of_some hc).1]
    have hsteady := hs c (Array.mem_toList_iff.mpr (Array.mem_of_getElem? hc))
    obtain ⟨rest, hperm, hset⟩ := exists_others hc
    have hbefore : r.pending.Perm (c.pending?.toList ++ rest.filterMap Caller.pending?) := by
      refine (hperm.filterMap _).trans (.of_eq ?_)
      cases hp : c.pending? <;> simp [hp]
    have hafter : ∀ c' : Caller, ((r.callers.setIfInBounds i c').toList.filterMap
        Caller.pending?).Perm (c'.pending?.toList ++ rest.filterMap Caller.pending?) := by
      intro c'
      refine ((hset c').filterMap _).trans (.of_eq ?_)
      cases hp : c'.pending? <;> simp [hp]
    obtain ⟨hn, hr⟩ := advance_pending (l := r.ledger) hsteady (hbefore.nodup_iff.mp h.once)
      (fun id hid => h.registered id (hbefore.mem_iff.mpr hid)) fun id he hid => by
        subst he
        exact patient id (hbefore.mem_iff.mpr (List.mem_append_right _ hid)) hc
    exact ⟨(hafter _).nodup_iff.mpr hn, fun id hid => hr id ((hafter _).mem_iff.mp hid)⟩

theorem gauged_run (h : r.Gauged n most) (is : List Nat) :
    (r.run is).Gauged (n + r.lost is) most := by
  induction is generalizing r n with
  | nil => exact h
  | cons i is ih =>
    rw [run_cons, lost, ← Nat.add_assoc]
    exact ih (gauged_move h i)

theorem downs_le (r : Race) : r.downs ≤ r.weight :=
  total_le_total fun c _ => downs_le_weight c.progress

theorem ups_le_pending (hs : ∀ c ∈ r.callers.toList, c.Steady) : r.ups ≤ r.pending.length := by
  unfold ups pending
  generalize r.callers.toList = cs at hs
  induction cs with
  | nil => exact Nat.le_refl _
  | cons c cs ih =>
    obtain ⟨hc, hcs⟩ := List.forall_mem_cons.mp hs
    have hone := hc.ups_le
    have hrest := ih hcs
    cases hp : c.pending? with
    | none | some id =>
      simp only [hp, Option.toList_none, Option.toList_some, List.length_nil,
        List.length_singleton] at hone
      simp only [List.map_cons, total, List.filterMap_cons, hp, List.length_cons]
      omega

/-- Of the connections that are registered some are not counted yet. -/
theorem ups_le_size (h : r.Gauged n most) (ha : r.Awaited) :
    r.ups ≤ r.ledger.accounts.table.size := by
  have hkeys : r.pending ⊆ r.ledger.accounts.table.toList.map Prod.fst := by
    intro id hid
    obtain ⟨e, he⟩ := Option.ne_none_iff_exists'.mp (ha.registered id hid)
    exact List.mem_map.mpr ⟨(id, e), h.sound.mem_toList_iff.mpr he, rfl⟩
  calc r.ups ≤ r.pending.length := ups_le_pending h.steady
    _ ≤ (r.ledger.accounts.table.toList.map Prod.fst).length := ha.once.length_le_of_subset hkeys
    _ = r.ledger.accounts.table.size := by rw [List.length_map, ← Table.size_eq_length]

/-- A gauge that shows no connection is not lowered: the connection to be taken off it would be
counted already, and no other is to be counted that is not registered. -/
theorem wasted_eq_false (h : r.Gauged 0 most) (few : most < UInt64.size) (ha : r.Awaited)
    (i : Nat) : r.wasted i = false := by
  cases hc : r.callers[i]? with
  | none => exact (move_of_none hc).2
  | some c =>
    rw [(move_of_some hc).2]
    refine Bool.eq_false_iff.mpr fun hw => ?_
    obtain ⟨hdecr, hzero⟩ : c.progress.ticks.head? = some (.decr .activeConnections) ∧
        r.ledger.counters.activeConnections = 0 := by
      simpa [wastes] using hw
    have hdown : 1 ≤ c.progress.downs := by
      obtain ⟨call, p⟩ := c
      cases p with
      | counting ts x => exact List.count_pos_iff.mpr (List.mem_of_head? hdecr)
      | waiting | freeing | answered => cases hdecr
    obtain ⟨d, hd, -⟩ := sum_split hc fun c => c.progress.downs
    have hdowns : 1 ≤ r.downs := by
      rw [downs, hd]
      omega
    have hups := ups_le_size h ha
    have hweight := r.downs_le
    have hbounded := h.bounded
    have hgauge := h.gauge
    rw [hzero, Shows, UInt64.zero_add] at hgauge
    have heq := congrArg UInt64.toNat hgauge
    rw [UInt64.toNat_ofNat_of_lt' (by omega), UInt64.toNat_ofNat_of_lt' (by omega)] at heq
    omega

theorem lost_eq_zero (h : r.Gauged 0 most) (few : most < UInt64.size) (ha : r.Awaited)
    {is : List Nat} (hp : r.Patient is) : r.lost is = 0 := by
  induction is generalizing r with
  | nil => rfl
  | cons i is ih =>
    have hw := wasted_eq_false h few ha i
    have hm := gauged_move h i
    rw [hw] at hm
    rw [lost, hw, ih hm (awaited_move ha h.steady hp.1) hp.2]
    rfl

section Results

variable {s : Service} {es : List Event} {ended : List Entry} {x : Counts} {l : Ledger}
variable {cs : List Call}

theorem waiting_start (hc : c ∈ (start l cs).callers.toList) :
    c.progress = .waiting ∧ c.call ∈ cs := by
  obtain ⟨q, hq, rfl⟩ := List.mem_map.mp hc
  exact ⟨rfl, hq⟩

theorem gauged_start (h : s.Counted es ended x) (keeps : ∀ id, .remove id ∉ cs) :
    (start s.ledger cs).Gauged 0 (s.active + cs.length) := by
  have hups : (start s.ledger cs).ups = 0 :=
    total_eq_zero fun c hc => by rw [(waiting_start hc).1]; rfl
  have hdowns : (start s.ledger cs).downs = 0 :=
    total_eq_zero fun c hc => by rw [(waiting_start hc).1]; rfl
  have hweight : (start s.ledger cs).weight ≤ cs.length := by
    calc (start s.ledger cs).weight
        ≤ total ((start s.ledger cs).callers.toList.map fun _ => 1) :=
          total_le_total fun c hc => by rw [(waiting_start hc).1]; exact Nat.le_refl 1
      _ = cs.length := by rw [total_map_one]; exact List.length_map _
  refine ⟨h.balanced.sound, ?_, ?_, ?_⟩
  · intro c hc
    obtain ⟨hp, hq⟩ := waiting_start hc
    have hu : c.progress.ups = 0 := by rw [hp]; rfl
    refine ⟨fun id he => keeps id (he ▸ hq), fun n => ?_, by omega, fun hne => absurd hu hne⟩
    rw [hp]
    nofun
  · rw [hups, hdowns]
    have hshown := h.shown .activeConnections
    rw [h.tallied.active] at hshown
    exact (UInt64.add_zero _).trans hshown
  · exact Nat.add_le_add_left hweight _

theorem awaited_start (l : Ledger) (cs : List Call) : (start l cs).Awaited := by
  have hp : (start l cs).pending = [] := by
    refine List.filterMap_eq_nil_iff.mpr fun c hc => pending?_eq_none ?_
    rw [(waiting_start hc).1]
    rfl
  constructor
  · rw [hp]
    exact List.nodup_nil
  · rw [hp]
    nofun

theorem gauge_of_quiet (h : r.Gauged n most) (few : most < UInt64.size) (hq : r.quiet = true) :
    r.ledger.counters.activeConnections.toNat = r.ledger.table.size + n := by
  have hover : ∀ c ∈ r.callers.toList, c.progress.ups = 0 ∧ c.progress.downs = 0 := by
    intro c hc
    have hc := quiet_iff.mp hq c hc
    obtain ⟨call, p⟩ := c
    cases p with
    | freeing | counting => cases hc
    | waiting | answered => exact ⟨rfl, rfl⟩
  have hups : r.ups = 0 := total_eq_zero fun c hc => (hover c hc).1
  have hdowns : r.downs = 0 := total_eq_zero fun c hc => (hover c hc).2
  have hgauge := h.gauge
  have hbounded := h.bounded
  rw [hups, hdowns, Shows] at hgauge
  have hg : r.ledger.counters.activeConnections = _ := (UInt64.add_zero _).symm.trans hgauge
  rw [hg, UInt64.toNat_ofNat_of_lt' (by omega)]
  rfl

theorem not_remove_ledgerCall? (p : Policy) (hooks : List PacketBudget.Call) (id : ConnId) :
    .remove id ∉ hooks.filterMap (Call.ledgerCall? p) := by
  intro hm
  obtain ⟨k, -, hk⟩ := List.mem_filterMap.mp hm
  cases k <;> cases hk

/-- However the steps of any number of hooks come to lie between each other, when none is in
progress the gauge shows the registered connections and the decrements that it has lost; it has
lost none if no close takes an id off the table before the hook that has registered it has
counted it. -/
theorem gauge_counts_registered {limit : Int64} {al al' : Allocator} {s₀ : Service}
    (h : Service.create limit al = .ok (s₀, al')) (ks : List PacketBudget.Call) (host : HostContext)
    (hooks : List PacketBudget.Call) (is : List Nat)
    (few : ks.length + hooks.length < UInt64.size) :
    let r := start (s₀.run ks).2.ledger (hooks.filterMap (Call.ledgerCall? host.policy))
    (r.run is).quiet = true →
      (r.run is).ledger.counters.activeConnections.toNat =
          (r.run is).ledger.table.size + r.lost is ∧
        (r.Patient is → r.lost is = 0) := by
  intro r hq
  have hkinds := Event.countP_kinds_le (s₀.history ks)
  rw [Service.length_history] at hkinds
  obtain ⟨x, hx⟩ := Service.counted_run (Service.counted_create h) ks
    (by rw [List.countP_nil]; omega)
  have hactive := hx.active_le
  have hhooks := List.length_filterMap_le (Call.ledgerCall? host.policy) hooks
  have hstart : r.Gauged 0 _ := gauged_start hx (not_remove_ledgerCall? host.policy hooks)
  have hmost : (s₀.run ks).2.active +
      (hooks.filterMap (Call.ledgerCall? host.policy)).length < UInt64.size := by
    rw [List.nil_append] at hactive
    omega
  refine ⟨?_, lost_eq_zero hstart hmost (awaited_start _ _)⟩
  have hend := gauge_of_quiet (gauged_run hstart is) hmost hq
  rwa [Nat.zero_add] at hend

/-- A close comes as soon as the hook that has registered its id has counted it, and overtakes the
rest of that hook and another registration. -/
theorem gauge_counts_registered_of_early_close :
    ∃ s₀ al', ∃ r : Race, Service.create 100 {} = .ok (s₀, al') ∧
      r.ledger.table.size = 1 ∧
      r.ledger.counters.activeConnections.toNat = r.ledger.table.size := by
  have h : Service.create 100 {} = .ok (_, _) := rfl
  obtain ⟨hgauge, hlost⟩ := gauge_counts_registered h [.init ⟨"host", ⟨10, 0⟩⟩]
    ⟨"host", ⟨10, 0⟩⟩ [.connect ⟨7⟩, .close ⟨7⟩, .connect ⟨8⟩] [2, 0, 0, 0, 1, 1, 1, 2, 2, 2, 0, 1]
    (by decide) (quiet_iff.mpr (by decide))
  rw [hlost (by decide)] at hgauge
  exact ⟨_, _, _, h, by decide, hgauge⟩

/-- A close overtakes the hook that has registered its id. Its decrement is lost, and the gauge
shows a connection when none is registered. -/
theorem gauge_drifts_of_overtaking_close :
    ∃ s₀ al', ∃ r : Race, Service.create 100 {} = .ok (s₀, al') ∧
      r = (start (s₀.run [.init ⟨"host", ⟨10, 0⟩⟩]).2.ledger
        ([.connect ⟨7⟩, .close ⟨7⟩].filterMap (Call.ledgerCall? ⟨10, 0⟩))).run
          [0, 1, 1, 1, 1, 0, 0, 0] ∧
      r.quiet = true ∧ r.ledger.table.size = 0 ∧ r.ledger.counters.activeConnections = 1 :=
  ⟨_, _, _, rfl, rfl, quiet_iff.mpr (by decide), by decide, by decide⟩

end Results

end PacketBudget.Ledger.Race
