import Mathlib.Data.Finmap
import PacketBudget.Proofs.Counting
import PacketBudget.Proofs.Refusals

/-!
The shards of the table taken together are one map. Whatever is inserted, changed, looked up and
removed, each time in the shard that the id selects, the answers are those of a single finite map
from ids to entries, and the sizes of the shards add up to the number of its ids.
-/

namespace PacketBudget

/-- A finite map from ids to entries, in one piece. -/
abbrev Registry := Finmap fun _ : ConnId => Entry

/-- What may be done to a table: with the shard of an id, or with all shards in turn. -/
inductive Access
  | insert (id : ConnId) (e : Entry)
  /-- Changes the entry of the id, if it has one. -/
  | update (id : ConnId) (change : Entry → Entry)
  | lookup (id : ConnId)
  | contains (id : ConnId)
  | remove (id : ConnId)
  | size
  | isEmpty

/-- What an access finds. -/
inductive Found
  /-- The entry that the id had before. -/
  | entry (e : Option Entry)
  | whether (b : Bool)
  | number (n : Nat)
  deriving DecidableEq, Repr

/-- The accesses in order, with what they find, where `step` makes a single one. -/
def Access.run {σ : Type} (step : σ → Access → Found × σ) (s : σ) : List Access → List Found × σ
  | [] => ([], s)
  | a :: as =>
    let (x, s) := step s a
    let (xs, s) := Access.run step s as
    (x :: xs, s)

def Table.access (t : Table) : Access → Found × Table
  | .insert id e => (.entry (t.get? id), t.put id e)
  | .update id change => (.entry (t.get? id), ((t.get? id).map fun e => t.put id (change e)).getD t)
  | .lookup id => (.entry (t.get? id), t)
  | .contains id => (.whether (t.contains id), t)
  | .remove id => (.entry (t.get? id), t.erase id)
  | .size => (.number t.size, t)
  | .isEmpty => (.whether t.isEmpty, t)

def Registry.access (m : Registry) : Access → Found × Registry
  | .insert id e => (.entry (m.lookup id), m.insert id e)
  | .update id change =>
    (.entry (m.lookup id), ((m.lookup id).map fun e => m.insert id (change e)).getD m)
  | .lookup id => (.entry (m.lookup id), m)
  | .contains id => (.whether (id ∈ m), m)
  | .remove id => (.entry (m.lookup id), m.erase id)
  | .size => (.number m.keys.card, m)
  | .isEmpty => (.whether (m.keys.card = 0), m)

/-- Where single accesses find the same and lead to related states, so do many. -/
theorem Access.run_related {σ τ : Type} {step : σ → Access → Found × σ}
    {step' : τ → Access → Found × τ} {R : σ → τ → Prop}
    (hstep : ∀ s t a, R s t → (step s a).1 = (step' t a).1 ∧ R (step s a).2 (step' t a).2)
    {s : σ} {t : τ} (h : R s t) (as : List Access) :
    (run step s as).1 = (run step' t as).1 ∧ R (run step s as).2 (run step' t as).2 := by
  induction as generalizing s t with
  | nil => exact ⟨rfl, h⟩
  | cons a as ih =>
    obtain ⟨hx, hr⟩ := hstep s t a h
    obtain ⟨hxs, hrs⟩ := ih hr
    exact ⟨congrArg₂ List.cons hx hxs, hrs⟩

theorem Access.run_append {σ : Type} (step : σ → Access → Found × σ) (s : σ)
    (as bs : List Access) :
    (run step s (as ++ bs)).2 = (run step (run step s as).2 bs).2 := by
  induction as generalizing s with
  | nil => rfl
  | cons a as ih => exact ih (step s a).2

namespace Table

variable {t : Table} {m : Registry} {id : ConnId} {e : Entry}

/-- The table has the entries of the map, each in the shard of its id. -/
structure Holds (t : Table) (m : Registry) : Prop where
  sound : t.Sound
  get? : ∀ id, t.get? id = m.lookup id

theorem holds_empty : Holds {} ∅ := ⟨sound_empty, fun id => by rw [get?_empty, Finmap.lookup_empty]⟩

namespace Holds

theorem put (h : t.Holds m) (id : ConnId) (e : Entry) : (t.put id e).Holds (m.insert id e) := by
  refine ⟨h.sound.put id e, fun j => ?_⟩
  rw [get?_put]
  split
  · rename_i hj
    rw [hj, Finmap.lookup_insert]
  · rename_i hj
    rw [Finmap.lookup_insert_of_ne _ hj, h.get?]

theorem erase (h : t.Holds m) (id : ConnId) : (t.erase id).Holds (m.erase id) := by
  refine ⟨h.sound.erase id, fun j => ?_⟩
  rw [get?_erase]
  split
  · rename_i hj
    rw [hj, Finmap.lookup_erase]
  · rename_i hj
    rw [Finmap.lookup_erase_ne hj, h.get?]

theorem contains_iff (h : t.Holds m) (id : ConnId) : t.contains id = true ↔ id ∈ m := by
  rw [contains, h.get?, Finmap.lookup_isSome]

/-- The ids of the items are the keys of the map, each once. -/
theorem size (h : t.Holds m) : t.size = m.keys.card := by
  have hkeys : (t.toList.map Prod.fst).toFinset = m.keys := by
    ext id
    rw [List.mem_toFinset, Finmap.mem_keys, Finmap.mem_iff]
    constructor
    · intro hm
      obtain ⟨⟨_, e⟩, hp, rfl⟩ := List.mem_map.mp hm
      exact ⟨e, (h.get? _).symm.trans (h.sound.mem_toList_iff.mp hp)⟩
    · rintro ⟨e, he⟩
      exact List.mem_map.mpr ⟨(id, e), h.sound.mem_toList_iff.mpr ((h.get? id).trans he), rfl⟩
  rw [size_eq_length, ← hkeys, List.toFinset_card_of_nodup h.sound.nodup_toList, List.length_map]

end Holds

theorem isEmpty_iff (t : Table) : t.isEmpty = true ↔ t.size = 0 := by
  rw [size_eq_length, List.length_eq_zero_iff, toList, List.flatten_eq_nil_iff, isEmpty,
    List.all_eq_true]
  simp only [List.isEmpty_iff]

/-- An access finds the same in the table as in the map. -/
theorem Holds.access (h : t.Holds m) (a : Access) :
    (t.access a).1 = (Registry.access m a).1 ∧ (t.access a).2.Holds (Registry.access m a).2 := by
  cases a with
  | insert id e => exact ⟨congrArg Found.entry (h.get? id), h.put id e⟩
  | update id change =>
    refine ⟨congrArg Found.entry (h.get? id), ?_⟩
    simp only [Table.access, Registry.access, h.get? id]
    cases m.lookup id with
    | none => exact h
    | some e => exact h.put id (change e)
  | lookup id => exact ⟨congrArg Found.entry (h.get? id), h⟩
  | contains id =>
    refine ⟨congrArg Found.whether ?_, h⟩
    rw [Bool.eq_iff_iff, h.contains_iff, decide_eq_true_iff]
  | remove id => exact ⟨congrArg Found.entry (h.get? id), h.erase id⟩
  | size => exact ⟨congrArg Found.number h.size, h⟩
  | isEmpty =>
    refine ⟨congrArg Found.whether ?_, h⟩
    rw [Bool.eq_iff_iff, isEmpty_iff, h.size, decide_eq_true_iff]

/-- What holds of a table that has been put together by accesses, and of the map that the same
accesses make. -/
structure Reflects (t : Table) (m : Registry) : Prop where
  /-- An id is in no shard but the one that it selects, and there only once. -/
  sound : t.Sound
  get? : ∀ id, t.get? id = m.lookup id
  contains : ∀ id, t.contains id = true ↔ id ∈ m
  size : t.size = m.keys.card
  isEmpty : t.isEmpty = true ↔ t.size = 0

theorem Holds.reflects (h : t.Holds m) : t.Reflects m where
  sound := h.sound
  get? := h.get?
  contains := h.contains_iff
  size := h.size
  isEmpty := t.isEmpty_iff

/-- The number of a shard in unbounded arithmetic. -/
theorem shardOf_eq (id : ConnId) :
    (shardOf id).val = id.val.toNat * 0x9E3779B97F4A7C15 % 2 ^ 64 / 2 ^ 32 % shardCount := by
  simp only [shardOf, UInt64.toNat_shiftRight, UInt64.toNat_mul, Nat.shiftRight_eq_div_pow]
  rfl

end Table

namespace Ledger

variable {l l' : Ledger} {a : Accounts} {id : ConnId}

/-- The table of `l'` is that of `l` after some accesses. -/
def Accesses (l l' : Ledger) : Prop := ∃ as, l'.table = (Access.run Table.access l.table as).2

theorem Accesses.refl (l : Ledger) : l.Accesses l := ⟨[], rfl⟩

theorem Accesses.of_eq (h : l'.table = l.table) : l.Accesses l' := ⟨[], h⟩

theorem Accesses.trans {l'' : Ledger} (h : l.Accesses l') (h' : l'.Accesses l'') :
    l.Accesses l'' := by
  obtain ⟨as, ha⟩ := h
  obtain ⟨bs, hb⟩ := h'
  refine ⟨as ++ bs, ?_⟩
  rw [Access.run_append, ← ha, hb]

/-- The entry of an id becomes another. -/
theorem accesses_update {e : Entry} (change : Entry → Entry) (he : l.table.get? id = some e)
    (h : l'.table = l.table.put id (change e)) : l.Accesses l' := by
  refine ⟨[.update id change], ?_⟩
  simp only [Access.run, Table.access, he, Option.map_some, Option.getD_some, h]

theorem accesses_refund (l : Ledger) (c : Charge) : l.Accesses (l.refund c).2 := by
  cases he : l.accounts.table.get? c.conn with
  | none =>
    simp only [refund, Accounts.refund?, he, book]
    exact .refl l
  | some e =>
    by_cases hc : e.epoch = c.epoch
    · simp only [refund, Accounts.refund?, he, hc, ↓reduceIte, book]
      exact accesses_update (·.credit (min c.bytes e.packetBytes)) he rfl
    · simp only [refund, Accounts.refund?, he, hc, ↓reduceIte, book]
      exact .refl l

theorem accesses_release (l : Ledger) (id : ConnId) (n : Nat) : l.Accesses (l.release id n).2 := by
  cases he : l.accounts.table.get? id with
  | none =>
    simp only [release, Accounts.release?, he, book]
    exact .refl l
  | some e =>
    by_cases hn : min n e.packetBytes = 0
    · simp only [release, Accounts.release?, he, hn, ↓reduceIte, book]
      exact .refl l
    · simp only [release, Accounts.release?, he, hn, ↓reduceIte, book]
      exact accesses_update (·.credit (min n e.packetBytes)) he rfl

/-- Every call does to the table what accesses do. -/
theorem step_accesses (l : Ledger) (k : Call) : l.Accesses (l.step k).2 := by
  have hs := step_stepped l k
  generalize l.step k = r at hs ⊢
  cases hs with
  | @registered id n _ ok =>
    obtain ⟨-, -, rfl⟩ := Accounts.register_eq_ok_iff.mp ok
    exact ⟨[.insert id { epoch := l.accounts.nextEpoch, overhead := n }], rfl⟩
  | @charged _ n _ _ _ ok =>
    obtain ⟨e, he, -, -, -, rfl⟩ := Accounts.charge_eq_ok_iff.mp ok
    exact accesses_update (·.charge n) he rfl
  | refunded c => exact accesses_refund l c
  | released id n => exact accesses_release l id n
  | @closed id | @removed id => exact ⟨[.remove id], rfl⟩
  | unregistered | uncharged | reserved | freed => exact .of_eq rfl
  | absent | missing | full => exact .refl l

theorem run_accesses (l : Ledger) (ks : List Call) : l.Accesses (l.run ks) := by
  induction ks generalizing l with
  | nil => exact .refl l
  | cons k ks ih => exact (step_accesses l k).trans (ih (l.step k).2)

end Ledger

namespace Table

/-- Whatever accesses are made, and whatever calls make them, the table answers as one map would
that the same accesses have made: an id is in the shard that it selects or in none, and there are as
many items as ids in the map. -/
theorem shards_are_one_map :
    (∀ as : List Access,
      (Access.run access {} as).1 = (Access.run Registry.access ∅ as).1 ∧
        (Access.run access {} as).2.Reflects (Access.run Registry.access ∅ as).2) ∧
    (∀ id, (shardOf id).val =
      id.val.toNat * 0x9E3779B97F4A7C15 % 2 ^ 64 / 2 ^ 32 % shardCount ∧
        (shardOf id).val < shardCount) ∧
    ∀ (ceiling : Nat) (ks : List Ledger.Call), ∃ as : List Access,
      ((Ledger.ofCeiling ceiling).run ks).table = (Access.run access {} as).2 := by
  refine ⟨fun as => ?_, fun id => ⟨shardOf_eq id, shardOf_lt id⟩, fun ceiling ks => ?_⟩
  · obtain ⟨hfound, hholds⟩ :=
      Access.run_related (R := Holds) (fun t m a h => h.access a) holds_empty as
    exact ⟨hfound, hholds.reflects⟩
  · exact Ledger.run_accesses (.ofCeiling ceiling) ks

/-- Two ids that select the same shard. -/
example :
    shardOf ⟨7⟩ = shardOf ⟨2⟩ ∧
      (Access.run access {} [.insert ⟨7⟩ { epoch := 1, overhead := 10 },
        .insert ⟨2⟩ { epoch := 2, overhead := 20 }, .remove ⟨7⟩, .contains ⟨7⟩, .lookup ⟨2⟩,
        .size]).1 = [.entry none, .entry none, .entry (some { epoch := 1, overhead := 10 }),
        .whether false, .entry (some { epoch := 2, overhead := 20 }), .number 1] := by decide

end Table

end PacketBudget
