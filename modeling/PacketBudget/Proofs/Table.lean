import Mathlib.Data.List.Perm.Subperm
import PacketBudget.Connection.Table

/-!
The table as a list without repeated ids. A table whose shards keep only their own ids lists each
registered connection once, and an update or a removal changes one item of that list. Sums over
the entries follow from the list alone.
-/

namespace PacketBudget

theorem total_perm {ns ms : List Nat} (h : ns.Perm ms) : total ns = total ms := by
  induction h with
  | nil => rfl
  | cons n _ ih => simp only [total, ih]
  | swap n m ns => simp only [total]; omega
  | trans _ _ ih ih' => exact ih.trans ih'

theorem total_le_of_sublist {ns ms : List Nat} (h : ns.Sublist ms) : total ns ≤ total ms := by
  induction h with
  | slnil => exact Nat.le_refl _
  | cons m _ ih => exact Nat.le_trans ih (Nat.le_add_left _ _)
  | cons_cons m _ ih => exact Nat.add_le_add_left ih m

/-- What stands at a place of a list with one more item. -/
theorem getElem?_snoc {α : Type} {xs : List α} {x y : α} {i : Nat}
    (h : (xs ++ [x])[i]? = some y) : xs[i]? = some y ∨ i = xs.length ∧ y = x := by
  rcases Nat.lt_or_ge i xs.length with hi | hi
  · rw [List.getElem?_append_left hi] at h
    exact Or.inl h
  · right
    rw [List.getElem?_append_right hi, List.getElem?_singleton] at h
    split at h
    · cases h
      exact ⟨by omega, rfl⟩
    · cases h

namespace Shard

/-- The ids that have an entry. -/
def keys (s : Shard) : List ConnId := s.map Prod.fst

theorem get?_eq_none_iff {s : Shard} {id : ConnId} : s.get? id = none ↔ id ∉ s.keys := by
  induction s with
  | nil => simp [get?, keys]
  | cons p s ih =>
    simp only [keys, List.map_cons, List.mem_cons, not_or] at ih ⊢
    rw [get?]
    split
    · simp [*]
    · rename_i hk
      rw [ih]
      exact ⟨fun h => ⟨Ne.symm hk, h⟩, fun h => h.2⟩

theorem mem_of_get? {s : Shard} {id : ConnId} {e : Entry} (h : s.get? id = some e) :
    (id, e) ∈ s := by
  induction s with
  | nil => cases h
  | cons p s ih =>
    rw [get?] at h
    split at h
    · rename_i hk
      cases h
      rw [← hk]
      exact List.mem_cons_self
    · exact List.mem_cons_of_mem _ (ih h)

theorem get?_of_mem {s : Shard} {id : ConnId} {e : Entry} (hn : s.keys.Nodup) (h : (id, e) ∈ s) :
    s.get? id = some e := by
  induction s with
  | nil => cases h
  | cons p s ih =>
    obtain ⟨hp, hn⟩ := List.nodup_cons.mp hn
    rcases List.mem_cons.mp h with rfl | h
    · simp [get?]
    · have hne : p.1 ≠ id := by
        rintro rfl
        exact hp (List.mem_map.mpr ⟨_, h, rfl⟩)
      rw [get?, if_neg hne]
      exact ih hn h

theorem put_of_get? {s : Shard} {id : ConnId} {e : Entry} (h : s.get? id = some e) :
    s.put id e = s := by
  induction s with
  | nil => cases h
  | cons p s ih =>
    obtain ⟨k, x⟩ := p
    rw [get?] at h
    split at h
    · rename_i hk
      cases h
      rw [put, if_pos hk]
    · rename_i hk
      rw [put, if_neg hk, ih h]

theorem mem_put {s : Shard} {id : ConnId} {e : Entry} {p : ConnId × Entry}
    (h : p ∈ s.put id e) : p.1 = id ∨ p ∈ s := by
  induction s with
  | nil => exact Or.inl (by simp_all [put])
  | cons q s ih =>
    rw [put] at h
    split at h
    · rcases List.mem_cons.mp h with rfl | h
      · exact Or.inl (by assumption)
      · exact Or.inr (List.mem_cons_of_mem _ h)
    · rcases List.mem_cons.mp h with rfl | h
      · exact Or.inr List.mem_cons_self
      · exact (ih h).imp_right (List.mem_cons_of_mem _)

theorem erase_of_not_mem {s : Shard} {id : ConnId} (h : id ∉ s.keys) : s.erase id = s := by
  apply List.filter_eq_self.mpr
  intro p hp
  have hne : p.1 ≠ id := by
    rintro rfl
    exact h (List.mem_map.mpr ⟨p, hp, rfl⟩)
  simpa using hne

theorem not_mem_keys_erase (s : Shard) (id : ConnId) : id ∉ (s.erase id).keys := by
  intro h
  obtain ⟨p, hp, he⟩ := List.mem_map.mp h
  have hne : p.1 ≠ id := by simpa using (List.mem_filter.mp hp).2
  exact hne he

theorem erase_put (s : Shard) (id : ConnId) (e : Entry) : (s.put id e).erase id = s.erase id := by
  induction s with
  | nil => simp [put, erase]
  | cons p s ih =>
    rw [put]
    split
    · rename_i hk
      simp [erase, hk]
    · rename_i hk
      simp only [erase, ne_eq, hk, not_false_eq_true, decide_true, List.filter_cons_of_pos] at ih ⊢
      rw [ih]

theorem put_put (s : Shard) (id : ConnId) (e e' : Entry) : (s.put id e).put id e' = s.put id e' := by
  induction s with
  | nil => simp [put]
  | cons p s ih =>
    obtain ⟨k, x⟩ := p
    by_cases hk : k = id
    · simp [put, hk]
    · simp [put, hk, ih]

/-- Entries that are there already are replaced in any order. -/
theorem put_comm {s : Shard} {i j : ConnId} (hij : i ≠ j) (hi : i ∈ s.keys) (hj : j ∈ s.keys)
    (e e' : Entry) : (s.put i e).put j e' = (s.put j e').put i e := by
  induction s with
  | nil => cases hi
  | cons p s ih =>
    obtain ⟨k, x⟩ := p
    by_cases hki : k = i
    · subst hki
      simp only [put, hij, ↓reduceIte]
    · by_cases hkj : k = j
      · subst hkj
        simp only [put, hki, ↓reduceIte]
      · have hi' : i ∈ keys s := List.mem_of_ne_of_mem (Ne.symm hki) hi
        have hj' : j ∈ keys s := List.mem_of_ne_of_mem (Ne.symm hkj) hj
        simp only [put, hki, hkj, ↓reduceIte, ih hi' hj']

theorem erase_put_of_ne {i j : ConnId} (hij : i ≠ j) (s : Shard) (e : Entry) :
    (s.put i e).erase j = (s.erase j).put i e := by
  induction s with
  | nil => simp [put, erase, hij]
  | cons p s ih =>
    obtain ⟨k, x⟩ := p
    by_cases hki : k = i
    · subst hki
      simp [put, erase, hij]
    · by_cases hkj : k = j
      · simpa [put, erase, hki, hkj, hij.symm] using ih
      · simpa [put, erase, hki, hkj] using ih

theorem erase_comm (s : Shard) (i j : ConnId) : (s.erase i).erase j = (s.erase j).erase i := by
  simp only [erase, List.filter_filter, Bool.and_comm]

/-- An id has its entry once, and the rest of the shard is as without it. -/
theorem put_perm {s : Shard} (h : s.keys.Nodup) (id : ConnId) (e : Entry) :
    (s.put id e).Perm ((id, e) :: s.erase id) := by
  induction s with
  | nil => exact .refl _
  | cons p s ih =>
    obtain ⟨hp, hn⟩ := List.nodup_cons.mp h
    by_cases hk : p.1 = id
    · subst hk
      have he : Shard.erase (p :: s) p.1 = s := by
        rw [← erase_of_not_mem hp]
        simp [erase]
      rw [put, if_pos rfl, he]
    · have he : Shard.erase (p :: s) id = p :: Shard.erase s id := by simp [erase, hk]
      rw [put, if_neg hk, he]
      exact ((ih hn).cons p).trans (.swap _ _ _)

theorem nodup_keys_erase {s : Shard} (h : s.keys.Nodup) (id : ConnId) : (s.erase id).keys.Nodup :=
  h.sublist (List.filter_sublist.map Prod.fst)

theorem nodup_keys_put {s : Shard} (h : s.keys.Nodup) (id : ConnId) (e : Entry) :
    (s.put id e).keys.Nodup := by
  have hp : (s.put id e).keys.Perm (id :: (s.erase id).keys) := (put_perm h id e).map Prod.fst
  exact hp.nodup_iff.mpr
    (List.nodup_cons.mpr ⟨not_mem_keys_erase s id, nodup_keys_erase h id⟩)

end Shard

/-- One piece of a list of pieces can be taken to the front. -/
theorem flatten_perm {α : Type} (ls : List (List α)) (i : Nat) (h : i < ls.length) :
    ls.flatten.Perm (ls[i] ++ (ls.eraseIdx i).flatten) := by
  induction ls generalizing i with
  | nil => simp at h
  | cons l ls ih =>
    cases i with
    | zero => exact .refl _
    | succ i =>
      have hi : i < ls.length := by simpa using h
      simp only [List.flatten_cons, List.getElem_cons_succ, List.eraseIdx_cons_succ]
      refine ((ih i hi).append_left l).trans ?_
      rw [← List.append_assoc, ← List.append_assoc]
      exact List.perm_append_comm.append_right _

namespace Table

/-- No shard has an id twice or an id of another shard. -/
structure Sound (t : Table) : Prop where
  nodup : ∀ i : Fin shardCount, t.shards[i].keys.Nodup
  home : ∀ i : Fin shardCount, ∀ p ∈ t.shards[i], shardOf p.1 = i

/-- The items of all shards but that of `id`. -/
def others (t : Table) (id : ConnId) : List (ConnId × Entry) :=
  (t.shards.toList.eraseIdx (shardOf id)).flatten

theorem toList_perm (t : Table) (id : ConnId) : t.toList.Perm (t.shard id ++ t.others id) := by
  have h := flatten_perm t.shards.toList (shardOf id) (by simp [(shardOf id).isLt])
  simpa only [toList, shard, others, Vector.getElem_toList, Fin.getElem_fin] using h

theorem toList_set_perm (t : Table) (id : ConnId) (s : Shard) :
    Table.toList ⟨t.shards.set (shardOf id) s (shardOf id).isLt⟩ |>.Perm (s ++ t.others id) := by
  have h := toList_perm ⟨t.shards.set (shardOf id) s (shardOf id).isLt⟩ id
  simpa [shard, others, Vector.toList_set, List.eraseIdx_set_eq] using h

theorem put_perm {t : Table} (h : t.Sound) (id : ConnId) (e : Entry) :
    (t.put id e).toList.Perm ((id, e) :: (t.erase id).toList) := by
  refine (toList_set_perm t id _).trans ?_
  refine ((Shard.put_perm (h.nodup (shardOf id)) id e).append_right _).trans ?_
  exact ((toList_set_perm t id _).symm).cons _

theorem put_of_get? {t : Table} {id : ConnId} {e : Entry} (h : t.get? id = some e) :
    t.put id e = t := by
  have hs : (t.shard id).put id e = t.shard id := Shard.put_of_get? h
  rw [put, hs]
  simp [shard]

theorem erase_of_get?_eq_none {t : Table} {id : ConnId} (h : t.get? id = none) :
    t.erase id = t := by
  have hn : id ∉ (t.shard id).keys := fun hm => by
    rw [get?, Shard.get?_eq_none_iff] at h
    exact h hm
  rw [erase, Shard.erase_of_not_mem hn]
  simp [shard]

theorem erase_of_put (t : Table) (id : ConnId) (e : Entry) : (t.put id e).erase id = t.erase id := by
  have hs : ((t.put id e).shard id).erase id = (t.shard id).erase id := by
    rw [← Shard.erase_put (t.shard id) id e]
    simp [put, shard]
  rw [erase, hs]
  simp [put, erase]

theorem erase_put {t : Table} {id : ConnId} (h : t.get? id = none) (e : Entry) :
    (t.put id e).erase id = t := by
  rw [erase_of_put, erase_of_get?_eq_none h]

theorem put_put (t : Table) (id : ConnId) (e e' : Entry) : (t.put id e).put id e' = t.put id e' := by
  have hs : ((t.put id e).shard id).put id e' = (t.shard id).put id e' := by
    rw [← Shard.put_put (t.shard id) id e]
    simp [put, shard]
  rw [put, hs]
  simp [put]

theorem shardOf_lt (id : ConnId) : (shardOf id).val < shardCount := (shardOf id).isLt

/-- The table with the shard of `id` changed. -/
def onShard (t : Table) (id : ConnId) (f : Shard → Shard) : Table :=
  ⟨t.shards.set (shardOf id) (f (t.shard id)) (shardOf_lt id)⟩

/-- What is done to different shards is done in any order. -/
theorem onShard_comm {t : Table} {i j : ConnId} {f g : Shard → Shard}
    (h : shardOf i = shardOf j → g (f (t.shard i)) = f (g (t.shard i))) :
    (t.onShard i f).onShard j g = (t.onShard j g).onShard i f := by
  by_cases hs : shardOf i = shardOf j
  · have hc := h hs
    simp only [shard, hs, Fin.getElem_fin] at hc
    simp only [onShard, shard, hs, Fin.getElem_fin, Vector.getElem_set_self, Vector.set_set, hc]
  · have hij : (shardOf i).val ≠ (shardOf j).val := fun hv => hs (Fin.ext hv)
    simp only [onShard, shard, Fin.getElem_fin, Vector.getElem_set_ne _ _ hij,
      Vector.getElem_set_ne _ _ hij.symm]
    rw [Vector.set_comm _ _ hij]

theorem shard_eq {t : Table} {i j : ConnId} (h : shardOf i = shardOf j) : t.shard i = t.shard j := by
  simp only [shard, h]

theorem mem_keys_shard {t : Table} {id : ConnId} (h : t.get? id ≠ none) : id ∈ (t.shard id).keys :=
  Classical.not_not.mp fun hn => h (Shard.get?_eq_none_iff.mpr hn)

/-- The table where the entry of `id` has become `x`. -/
def write (t : Table) (id : ConnId) : Option Entry → Table
  | some e => t.put id e
  | none => t.erase id

theorem get?_write (t : Table) (id j : ConnId) (x : Option Entry) :
    (t.write id x).get? j = if j = id then x else t.get? j := by
  cases x with
  | some e => exact get?_put ..
  | none => exact get?_erase ..

theorem write_get? (t : Table) (id : ConnId) : t.write id (t.get? id) = t := by
  cases h : t.get? id with
  | some e => exact put_of_get? h
  | none => exact erase_of_get?_eq_none h

/-- Only the last entry that is written stays; one that has gone does not come back. -/
theorem write_write (t : Table) (id : ConnId) {x y : Option Entry} (h : x = none → y = none) :
    (t.write id x).write id y = t.write id y := by
  cases x with
  | none =>
    rw [h rfl]
    exact erase_of_get?_eq_none (by rw [write, get?_erase, if_pos rfl])
  | some e =>
    cases y with
    | none => exact erase_of_put ..
    | some e' => exact put_put ..

/-- Entries of different connections are written in any order. -/
theorem write_comm {t : Table} {i j : ConnId} (hij : i ≠ j) (hi : t.get? i ≠ none)
    (hj : t.get? j ≠ none) (x y : Option Entry) :
    (t.write i x).write j y = (t.write j y).write i x := by
  cases x with
  | some e =>
    cases y with
    | some e' =>
      refine onShard_comm (f := (·.put i e)) (g := (·.put j e')) fun hs => ?_
      have hj' := mem_keys_shard hj
      rw [← shard_eq hs] at hj'
      exact Shard.put_comm hij (mem_keys_shard hi) hj' e e'
    | none =>
      exact onShard_comm (f := (·.put i e)) (g := (·.erase j)) fun _ =>
        Shard.erase_put_of_ne hij _ e
  | none =>
    cases y with
    | some e' =>
      exact onShard_comm (f := (·.erase i)) (g := (·.put j e')) fun _ =>
        (Shard.erase_put_of_ne hij.symm _ e').symm
    | none => exact onShard_comm (f := (·.erase i)) (g := (·.erase j)) fun _ => Shard.erase_comm _ i j

/-- An entry of the table is one of its items, besides those that stay when it goes. -/
theorem Sound.perm {t : Table} (h : t.Sound) {id : ConnId} {e : Entry} (he : t.get? id = some e) :
    t.toList.Perm ((id, e) :: (t.erase id).toList) := by
  have hp := put_perm h id e
  rwa [put_of_get? he] at hp

theorem sound_empty : ({} : Table).Sound :=
  ⟨fun i => by simp [Shard.keys], fun i p hp => by simp at hp⟩

/-- A shard may take the place of the shard of `id` if it is as tidy as that. -/
theorem Sound.set {t : Table} (h : t.Sound) {id : ConnId} {s : Shard} (hn : s.keys.Nodup)
    (hs : ∀ p ∈ s, p.1 = id ∨ p ∈ t.shard id) :
    Table.Sound ⟨t.shards.set (shardOf id) s (shardOf id).isLt⟩ := by
  refine ⟨?_, ?_⟩
  · intro i
    by_cases hi : (shardOf id).val = i.val
    · simpa [Vector.getElem_set, hi] using hn
    · simpa [Vector.getElem_set, hi] using h.nodup i
  · intro i p hp
    by_cases hi : (shardOf id).val = i.val
    · have hi' : shardOf id = i := Fin.ext hi
      rcases hs p (by simpa [Vector.getElem_set, hi] using hp) with he | hm
      · rw [he, hi']
      · exact hi' ▸ h.home (shardOf id) p hm
    · exact h.home i p (by simpa [Vector.getElem_set, hi] using hp)

theorem Sound.put {t : Table} (h : t.Sound) (id : ConnId) (e : Entry) : (t.put id e).Sound :=
  h.set (Shard.nodup_keys_put (h.nodup (shardOf id)) id e) fun _ hp => Shard.mem_put hp

theorem Sound.erase {t : Table} (h : t.Sound) (id : ConnId) : (t.erase id).Sound :=
  h.set (Shard.nodup_keys_erase (h.nodup (shardOf id)) id) fun _ hp =>
    Or.inr (List.mem_filter.mp hp).1

theorem mem_toList {t : Table} {p : ConnId × Entry} :
    p ∈ t.toList ↔ ∃ i : Fin shardCount, p ∈ t.shards[i] := by
  simp only [toList, List.mem_flatten, Vector.mem_toList_iff, Vector.mem_iff_getElem]
  constructor
  · rintro ⟨_, ⟨i, hi, rfl⟩, hp⟩
    exact ⟨⟨i, hi⟩, hp⟩
  · rintro ⟨i, hp⟩
    exact ⟨_, ⟨i, i.isLt, rfl⟩, hp⟩

/-- The items of the table are the entries that can be looked up. -/
theorem Sound.mem_toList_iff {t : Table} (h : t.Sound) {id : ConnId} {e : Entry} :
    (id, e) ∈ t.toList ↔ t.get? id = some e := by
  rw [mem_toList]
  constructor
  · rintro ⟨i, hp⟩
    have hi : shardOf id = i := h.home i (id, e) hp
    subst hi
    exact Shard.get?_of_mem (h.nodup (shardOf id)) hp
  · intro he
    exact ⟨shardOf id, Shard.mem_of_get? he⟩

theorem Sound.nodup_toList {t : Table} (h : t.Sound) : (t.toList.map Prod.fst).Nodup := by
  rw [toList, List.map_flatten]
  refine List.pairwise_flatten.mpr ⟨?_, ?_⟩
  · intro ks hk
    obtain ⟨s, hs, rfl⟩ := List.mem_map.mp hk
    obtain ⟨i, hi, rfl⟩ := Vector.mem_iff_getElem.mp (Vector.mem_toList_iff.mp hs)
    exact h.nodup ⟨i, hi⟩
  · apply List.pairwise_iff_getElem.mpr
    intro i j hi hj hij id hmi id' hmj he
    simp only [List.length_map, Vector.length_toList] at hi hj
    simp only [List.getElem_map, Vector.getElem_toList] at hmi hmj
    obtain ⟨p, hp, rfl⟩ := List.mem_map.mp hmi
    obtain ⟨q, hq, rfl⟩ := List.mem_map.mp hmj
    have hpi := h.home ⟨i, hi⟩ p hp
    have hqj := h.home ⟨j, hj⟩ q hq
    rw [← he, hpi] at hqj
    exact absurd (congrArg Fin.val hqj) (Nat.ne_of_lt hij)

/-- What the entries come to, each counted by `f`. -/
def sum (t : Table) (f : Entry → Nat) : Nat := total (t.toList.map fun p => f p.2)

theorem charged_eq_sum (t : Table) : t.charged = t.sum Entry.charged := rfl

theorem sum_empty (f : Entry → Nat) : ({} : Table).sum f = 0 := by
  simp [sum, toList, total]

theorem sum_put {t : Table} (h : t.Sound) (id : ConnId) (e : Entry) (f : Entry → Nat) :
    (t.put id e).sum f = f e + (t.erase id).sum f :=
  total_perm ((put_perm h id e).map fun p : ConnId × Entry => f p.2)

theorem sum_erase {t : Table} (h : t.Sound) {id : ConnId} {e : Entry} (he : t.get? id = some e)
    (f : Entry → Nat) : t.sum f = f e + (t.erase id).sum f :=
  total_perm ((h.perm he).map fun p : ConnId × Entry => f p.2)

theorem sum_put_new {t : Table} (h : t.Sound) {id : ConnId} (hn : t.get? id = none) (e : Entry)
    (f : Entry → Nat) : (t.put id e).sum f = f e + t.sum f := by
  rw [sum_put h, erase_of_get?_eq_none hn]

theorem sum_put_old {t : Table} (h : t.Sound) {id : ConnId} {e : Entry} (he : t.get? id = some e)
    (e' : Entry) (f : Entry → Nat) : (t.put id e').sum f + f e = t.sum f + f e' := by
  rw [sum_put h, sum_erase h he]
  omega

theorem le_sum {t : Table} (h : t.Sound) {id : ConnId} {e : Entry} (he : t.get? id = some e)
    (f : Entry → Nat) : f e ≤ t.sum f := by
  rw [sum_erase h he]
  exact Nat.le_add_right _ _

/-- A table that has entries of the same size for some of the ids of another, and no others. -/
theorem sum_le_sum {t t' : Table} (ht : t.Sound) (ht' : t'.Sound) {f : Entry → Nat}
    (h : ∀ id e, t.get? id = some e → ∃ e', t'.get? id = some e' ∧ f e' = f e) :
    t.sum f ≤ t'.sum f := by
  let item : ConnId × Entry → ConnId × Nat := fun p => (p.1, f p.2)
  have hn : (t.toList.map item).Nodup := by
    refine List.Pairwise.of_map (S := (· ≠ ·)) Prod.fst ?_ ?_
    · intro p q hne he
      exact hne (congrArg Prod.fst he)
    · rw [List.map_map]
      exact ht.nodup_toList
  have hsub : t.toList.map item ⊆ t'.toList.map item := by
    intro p hp
    obtain ⟨⟨id, e⟩, hm, rfl⟩ := List.mem_map.mp hp
    obtain ⟨e', he', hf⟩ := h id e (ht.mem_toList_iff.mp hm)
    exact List.mem_map.mpr ⟨(id, e'), ht'.mem_toList_iff.mpr he', by simp only [item, hf]⟩
  obtain ⟨l, hp, hs⟩ := List.subperm_of_subset hn hsub
  have htotal := total_le_of_sublist (hs.map Prod.snd)
  rw [total_perm (hp.map Prod.snd), List.map_map, List.map_map] at htotal
  exact htotal

end Table

end PacketBudget
