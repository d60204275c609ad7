import PacketBudget.Connection
import PacketBudget.Total

/-!
The table of registered connections: entries by id, kept in shards that an id selects by a
multiplicative hash. Main statements: looking up an id after an update of the table gives what a
single map from ids to entries would give.
-/

namespace PacketBudget

/-- The entries of one shard. -/
abbrev Shard := List (ConnId × Entry)

namespace Shard

def get? : Shard → ConnId → Option Entry
  | [], _ => none
  | (k, e) :: s, id => if k = id then some e else get? s id

/-- The shard with `e` at `id`; an id that is there already keeps its place. -/
def put : Shard → ConnId → Entry → Shard
  | [], id, e => [(id, e)]
  | (k, x) :: s, id, e => if k = id then (k, e) :: s else (k, x) :: put s id e

def erase (s : Shard) (id : ConnId) : Shard := s.filter (fun p => p.1 ≠ id)

theorem get?_put (s : Shard) (id k : ConnId) (e : Entry) :
    (s.put id e).get? k = if k = id then some e else s.get? k := by
  induction s with
  | nil =>
    by_cases h : k = id
    · simp [put, get?, h]
    · simp [put, get?, h, Ne.symm h]
  | cons p s ih =>
    obtain ⟨j, x⟩ := p
    by_cases hj : j = id
    · subst hj
      by_cases h : k = j
      · simp [put, get?, h]
      · simp [put, get?, h, Ne.symm h]
    · by_cases h : k = j
      · subst h
        simp [put, get?, hj]
      · simp [put, get?, hj, Ne.symm h, ih]

theorem get?_erase (s : Shard) (id k : ConnId) :
    (s.erase id).get? k = if k = id then none else s.get? k := by
  induction s with
  | nil => simp [erase, get?]
  | cons p s ih =>
    obtain ⟨j, x⟩ := p
    by_cases hj : j = id
    · subst hj
      have he : Shard.erase ((j, x) :: s) j = Shard.erase s j := by simp [erase]
      rw [he, ih]
      by_cases h : k = j
      · simp [h]
      · simp [get?, h, Ne.symm h]
    · have he : Shard.erase ((j, x) :: s) id = (j, x) :: Shard.erase s id := by simp [erase, hj]
      rw [he]
      by_cases h : k = j
      · subst h
        simp [get?, hj]
      · simp [get?, Ne.symm h, ih]

end Shard

/-- How many shards there are. -/
def shardCount : Nat := 32

/-- The entries of all registered connections. -/
structure Table where
  shards : Vector Shard shardCount := Vector.replicate shardCount []
  deriving Repr

namespace Table

/-- The shard of an id: the id times the golden ratio's 64-bit fraction, upper half, modulo the
number of shards. Ids in sequence land on different shards. -/
def shardOf (id : ConnId) : Fin shardCount :=
  ⟨((id.val * 0x9E3779B97F4A7C15) >>> 32).toNat % shardCount, Nat.mod_lt _ (by decide)⟩

def shard (t : Table) (id : ConnId) : Shard := t.shards[shardOf id]

def get? (t : Table) (id : ConnId) : Option Entry := (t.shard id).get? id

def contains (t : Table) (id : ConnId) : Bool := (t.get? id).isSome

/-- The table with `e` at `id`. -/
def put (t : Table) (id : ConnId) (e : Entry) : Table :=
  ⟨t.shards.set (shardOf id) ((t.shard id).put id e) (shardOf id).isLt⟩

def erase (t : Table) (id : ConnId) : Table :=
  ⟨t.shards.set (shardOf id) ((t.shard id).erase id) (shardOf id).isLt⟩

/-- All entries, shard after shard. -/
def toList (t : Table) : List (ConnId × Entry) := t.shards.toList.flatten

def size (t : Table) : Nat := total (t.shards.toList.map List.length)

def isEmpty (t : Table) : Bool := t.shards.toList.all List.isEmpty

/-- The bytes that all entries together hold of the budget. -/
def charged (t : Table) : Nat := total (t.toList.map fun p => p.2.charged)

theorem get?_empty (id : ConnId) : ({} : Table).get? id = none := by
  simp [get?, shard, Shard.get?]

theorem get?_put (t : Table) (id k : ConnId) (e : Entry) :
    (t.put id e).get? k = if k = id then some e else t.get? k := by
  by_cases hs : shardOf k = shardOf id
  · have : (t.put id e).shard k = (t.shard k).put id e := by simp [put, shard, hs]
    rw [get?, this, Shard.get?_put, get?]
  · have : (t.put id e).shard k = t.shard k := by
      have : (shardOf id).val ≠ (shardOf k).val := fun h => hs (Fin.ext h.symm)
      simp [put, shard, Vector.getElem_set_ne _ _ this]
    have hk : k ≠ id := fun h => hs (by rw [h])
    rw [get?, this, if_neg hk, get?]

theorem get?_erase (t : Table) (id k : ConnId) :
    (t.erase id).get? k = if k = id then none else t.get? k := by
  by_cases hs : shardOf k = shardOf id
  · have : (t.erase id).shard k = (t.shard k).erase id := by simp [erase, shard, hs]
    rw [get?, this, Shard.get?_erase, get?]
  · have : (t.erase id).shard k = t.shard k := by
      have : (shardOf id).val ≠ (shardOf k).val := fun h => hs (Fin.ext h.symm)
      simp [erase, shard, Vector.getElem_set_ne _ _ this]
    have hk : k ≠ id := fun h => hs (by rw [h])
    rw [get?, this, if_neg hk, get?]

end Table

end PacketBudget
