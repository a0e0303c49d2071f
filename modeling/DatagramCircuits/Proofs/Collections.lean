import DatagramCircuits.Collection.Sharded
import Mathlib.Algebra.BigOperators.Group.List.Basic
import Mathlib.Data.List.Nodup
/-!
# Keys and values

What is in a dictionary after an operation, also where the dictionary is divided into shards: an
update of one key is seen under this key, and under no other (`Sharded.get?_insert`,
`Sharded.get?_remove`).

No key occurs twice in a dictionary that the operations built (`Dict.Distinct`), so that its list of
values can be counted, and what the values have can be summed up (`Sharded.total`).
-/

namespace DatagramCircuits

namespace Dict

variable {κ ν : Type} [DecidableEq κ] {d : Dict κ ν}

/-- No key occurs twice. -/
def Distinct (d : Dict κ ν) : Prop :=
  (d.entries.map Prod.fst).Nodup

omit [DecidableEq κ] in
theorem distinct_empty : (empty : Dict κ ν).Distinct :=
  List.nodup_nil

/-- Inserting a key adds this key only. -/
theorem mem_keys_insertInto {k k' : κ} {v : ν} {l : List (κ × ν)} :
    k' ∈ (insertInto k v l).map Prod.fst ↔ k' = k ∨ k' ∈ l.map Prod.fst := by
  induction l with
  | nil => simp [insertInto]
  | cons e l ih =>
    by_cases h : e.1 = k
    · simp [insertInto, h]
    · rw [insertInto, if_neg h, List.map_cons, List.mem_cons, ih, List.map_cons, List.mem_cons]
      exact or_left_comm

/-- Inserting keeps the keys distinct. -/
theorem Distinct.insert (h : d.Distinct) (k : κ) (v : ν) : (d.insert k v).Distinct := by
  obtain ⟨l⟩ := d
  rw [Distinct, Dict.insert]
  dsimp only [Distinct] at h ⊢
  induction l with
  | nil => simp [insertInto]
  | cons e l ih =>
    rw [List.map_cons, List.nodup_cons] at h
    by_cases hk : e.1 = k
    · rw [insertInto, if_pos hk, List.map_cons, List.nodup_cons]
      exact ⟨hk ▸ h.1, h.2⟩
    · rw [insertInto, if_neg hk, List.map_cons, List.nodup_cons, mem_keys_insertInto]
      exact ⟨not_or.2 ⟨hk, h.1⟩, ih h.2⟩

/-- Erasing keeps the keys distinct. -/
theorem Distinct.erase (h : d.Distinct) (k : κ) : (d.erase k).Distinct :=
  h.sublist (List.filter_sublist.map Prod.fst)

/-- A pair of a key and a value is in the dictionary when the key has the value. -/
theorem Distinct.mem_entries_iff (h : d.Distinct) {k : κ} {v : ν} :
    (k, v) ∈ d.entries ↔ d.get? k = some v := by
  obtain ⟨l⟩ := d
  rw [Distinct] at h
  rw [get?]
  dsimp only at h ⊢
  induction l with
  | nil => simp
  | cons e l ih =>
    rw [List.map_cons, List.nodup_cons] at h
    by_cases hk : e.1 = k
    · subst hk
      have hout : (e.1, v) ∉ l := fun hmem ↦ h.1 (List.mem_map.2 ⟨_, hmem, rfl⟩)
      rw [List.find?_cons_of_pos (by simp), List.mem_cons, or_iff_left hout]
      simp [Prod.ext_iff, eq_comm]
    · rw [List.find?_cons_of_neg (by simpa using hk), List.mem_cons, ← ih h.2,
        or_iff_right fun heq ↦ hk (congrArg Prod.fst heq).symm]

/-- The values are what is found under some key. -/
theorem Distinct.mem_values_iff (h : d.Distinct) {v : ν} :
    v ∈ d.values ↔ ∃ k, d.get? k = some v := by
  rw [values, List.mem_map]
  constructor
  · rintro ⟨⟨k, v⟩, hmem, rfl⟩
    exact ⟨k, h.mem_entries_iff.1 hmem⟩
  · rintro ⟨k, hk⟩
    exact ⟨(k, v), h.mem_entries_iff.2 hk, rfl⟩

/-- If no two keys have the same value, no value occurs twice. -/
theorem Distinct.nodup_values (h : d.Distinct)
    (hinj : ∀ k k' v, d.get? k = some v → d.get? k' = some v → k = k') : d.values.Nodup := by
  have hentries : d.entries.Nodup := h.of_map Prod.fst
  refine hentries.map_on fun e he e' he' heq ↦ ?_
  have hget := h.mem_entries_iff.1 (show (e.1, e.2) ∈ d.entries from he)
  have hget' := h.mem_entries_iff.1 (show (e'.1, e'.2) ∈ d.entries from he')
  exact Prod.ext (hinj _ _ _ hget (heq ▸ hget')) heq

/-- What is erased leaves no trace of what it was. -/
theorem erase_insert (d : Dict κ ν) (k : κ) (v : ν) : (d.insert k v).erase k = d.erase k := by
  obtain ⟨l⟩ := d
  rw [erase, erase, insert, Dict.mk.injEq]
  dsimp only
  induction l with
  | nil => simp [insertInto]
  | cons e l ih =>
    by_cases h : e.1 = k
    · simp [insertInto, h]
    · rw [insertInto, if_neg h, List.filter_cons, List.filter_cons, ih]

/-! ### Sums -/

section Total

variable {M : Type} [AddCancelCommMonoid M] (g : ν → M)

/-- The sum over all values. -/
def total (d : Dict κ ν) : M :=
  (d.values.map g).sum

/-- What the value of a key adds to the sum. -/
def share (d : Dict κ ν) (k : κ) : M :=
  ((d.get? k).map g).getD 0

omit [DecidableEq κ] in
@[simp] theorem total_empty : (empty : Dict κ ν).total g = 0 :=
  rfl

/-- A value that is put in takes the place of the one that was there. -/
theorem total_insert (d : Dict κ ν) (k : κ) (v : ν) :
    (d.insert k v).total g + d.share g k = d.total g + g v := by
  obtain ⟨l⟩ := d
  simp only [total, values, share, get?, insert]
  induction l with
  | nil => simp [insertInto]
  | cons e l ih =>
    by_cases h : e.1 = k
    · simp [insertInto, h, add_comm, add_left_comm]
    · rw [insertInto, if_neg h, List.find?_cons_of_neg (by simpa using h)]
      simp only [List.map_cons, List.sum_cons, add_assoc, ih]

/-- Erasing a key takes its share from the total. -/
theorem Distinct.total_erase (h : d.Distinct) (k : κ) :
    (d.erase k).total g + d.share g k = d.total g := by
  obtain ⟨l⟩ := d
  rw [Distinct] at h
  simp only [total, values, share, get?, Dict.erase]
  dsimp only at h
  induction l with
  | nil => simp
  | cons e l ih =>
    rw [List.map_cons, List.nodup_cons] at h
    by_cases hk : e.1 = k
    · have hothers : l.filter (·.1 ≠ k) = l := List.filter_eq_self.2 fun e' he' ↦ by
        simpa using fun heq ↦ h.1 (List.mem_map.2 ⟨e', he', heq.trans hk.symm⟩)
      rw [List.filter_cons_of_neg (by simpa using hk), hothers,
        List.find?_cons_of_pos (by simpa using hk)]
      simp [add_comm]
    · rw [List.filter_cons_of_pos (by simpa using hk), List.find?_cons_of_neg (by simpa using hk)]
      simp only [List.map_cons, List.sum_cons, add_assoc, ih h.2]

end Total

end Dict

namespace Sharded

variable {κ ν ρ : Type} [DecidableEq κ] [Hashable κ] {s : Sharded κ ν}

omit [DecidableEq κ] in
/-- Every key has its shard. -/
theorem shardOf_lt (h : 0 < s.shards.length) (k : κ) : s.shardOf k < s.shards.length :=
  Nat.mod_lt _ h

omit [DecidableEq κ] in
@[simp] theorem length_shards_withShard (s : Sharded κ ν) (k : κ) (f : Dict κ ν → ρ × Dict κ ν) :
    (s.withShard k f).2.shards.length = s.shards.length :=
  List.length_set

@[simp] theorem length_shards_insert (s : Sharded κ ν) (k : κ) (v : ν) :
    (s.insert k v).shards.length = s.shards.length :=
  length_shards_withShard ..

@[simp] theorem length_shards_remove (s : Sharded κ ν) (k : κ) :
    (s.remove k).2.shards.length = s.shards.length :=
  length_shards_withShard ..

/-- An update of one shard is seen in this shard only. -/
theorem get?_withShard (h : 0 < s.shards.length) (k k' : κ) (f : Dict κ ν → ρ × Dict κ ν) :
    (s.withShard k f).2.get? k' =
      if s.shardOf k = s.shardOf k' then (f (s.shard k)).2.get? k' else s.get? k' := by
  have hplace : (s.withShard k f).2.shardOf k' = s.shardOf k' := by
    rw [shardOf, shardOf, length_shards_withShard]
  rw [get?, shard, hplace, withShard]
  dsimp only
  split
  · rename_i heq
    rw [← heq, List.getD_eq_getElem?_getD, List.getElem?_set_self (shardOf_lt h k), Option.getD_some]
  · rename_i hne
    rw [List.getD_eq_getElem?_getD, List.getElem?_set_ne hne, ← List.getD_eq_getElem?_getD]
    rfl

/-- **A value that is inserted is found under its key,** and nothing else has changed. -/
theorem get?_insert (h : 0 < s.shards.length) (k k' : κ) (v : ν) :
    (s.insert k v).get? k' = if k = k' then some v else s.get? k' := by
  rw [insert, get?_withShard h]
  split
  · rename_i heq
    rw [Dict.get?_insert, get?, shard, shard, heq]
  · rename_i hne
    rw [if_neg fun heq : k = k' ↦ hne (congrArg s.shardOf heq)]

/-- **A key that is removed is found no more,** and nothing else has changed. -/
theorem get?_remove (h : 0 < s.shards.length) (k k' : κ) :
    (s.remove k).2.get? k' = if k = k' then none else s.get? k' := by
  rw [remove, get?_withShard h]
  split
  · rename_i heq
    rw [Dict.get?_erase, get?, shard, shard, heq]
  · rename_i hne
    rw [if_neg fun heq : k = k' ↦ hne (congrArg s.shardOf heq)]

/-- What is taken out leaves no trace of what it was. -/
theorem remove_insert (h : 0 < s.shards.length) (k : κ) (v : ν) :
    ((s.insert k v).remove k).2 = (s.remove k).2 := by
  have hplace : (s.insert k v).shardOf k = s.shardOf k := by
    rw [shardOf, shardOf, length_shards_insert]
  have hshard : (s.insert k v).shard k = (s.shard k).insert k v := by
    rw [shard, hplace, insert, withShard, List.getD_eq_getElem?_getD,
      List.getElem?_set_self (shardOf_lt h k), Option.getD_some]
  rw [remove, withShard, hshard, hplace, remove, withShard, Sharded.mk.injEq, insert, withShard]
  dsimp only
  rw [List.set_set, Dict.erase_insert]

omit [DecidableEq κ] [Hashable κ] in
/-- There is at least one shard. -/
theorem length_shards_of_create {count : Nat} (h : create count = .ok s) :
    0 < s.shards.length := by
  rw [create] at h
  split at h
  · cases h
  · obtain rfl := Except.ok.inj h
    simpa using Nat.pos_of_ne_zero ‹_›

/-- Nothing is found in a new dictionary. -/
theorem get?_of_create {count : Nat} (h : create count = .ok s) (k : κ) : s.get? k = none := by
  rw [create] at h
  split at h
  · cases h
  · obtain rfl := Except.ok.inj h
    rw [get?, shard, List.getD_eq_getElem?_getD, List.getElem?_replicate]
    split <;> rfl

/-! ### Sums -/

/-- No key occurs twice in a shard. -/
def Distinct (s : Sharded κ ν) : Prop :=
  ∀ d ∈ s.shards, d.Distinct

omit [DecidableEq κ] in
theorem Distinct.shard (h : s.Distinct) (k : κ) : (s.shard k).Distinct := by
  rw [Sharded.shard, List.getD_eq_getElem?_getD]
  cases hd : s.shards[s.shardOf k]? with
  | none => exact Dict.distinct_empty
  | some d => exact h d (List.mem_of_getElem? hd)

omit [DecidableEq κ] in
/-- An update of one shard that keeps its keys distinct keeps all of them distinct. -/
theorem Distinct.withShard {k : κ} {f : Dict κ ν → ρ × Dict κ ν} (h : s.Distinct)
    (hf : (f (s.shard k)).2.Distinct) : (s.withShard k f).2.Distinct := by
  intro d hd
  rcases List.mem_or_eq_of_mem_set hd with hd | rfl
  · exact h d hd
  · exact hf

theorem Distinct.insert (h : s.Distinct) (k : κ) (v : ν) : (s.insert k v).Distinct :=
  h.withShard ((h.shard k).insert k v)

theorem Distinct.remove (h : s.Distinct) (k : κ) : (s.remove k).2.Distinct :=
  h.withShard ((h.shard k).erase k)

omit [DecidableEq κ] [Hashable κ] in
/-- A new dictionary has no keys. -/
theorem distinct_of_create {count : Nat} (h : create count = .ok s) : s.Distinct := by
  rw [create] at h
  split at h
  · cases h
  · obtain rfl := Except.ok.inj h
    intro d hd
    rw [List.eq_of_mem_replicate hd]
    exact Dict.distinct_empty

section Total

variable {M : Type} [AddCancelCommMonoid M] (g : ν → M)

/-- The sum over all values. -/
def total (s : Sharded κ ν) : M :=
  (s.shards.map (Dict.total g)).sum

/-- What the value of a key adds to the sum. -/
def share (s : Sharded κ ν) (k : κ) : M :=
  ((s.get? k).map g).getD 0

/-- Replacing an entry of a list changes the sum by the difference. -/
theorem sum_map_set {α : Type} (g : α → M) {l : List α} {i : Nat} (hi : i < l.length) (a : α) :
    ((l.set i a).map g).sum + g l[i] = (l.map g).sum + g a := by
  induction l generalizing i with
  | nil => exact absurd hi (Nat.not_lt_zero i)
  | cons b l ih =>
    cases i with
    | zero => simp [add_comm, add_left_comm]
    | succ i =>
      simp only [List.set_cons_succ, List.map_cons, List.sum_cons, List.getElem_cons_succ, add_assoc,
        ih (Nat.lt_of_succ_lt_succ hi)]

omit [DecidableEq κ] in
/-- An update of one shard changes the sum by what it does to that of the shard. -/
theorem total_withShard (h : 0 < s.shards.length) (k : κ) (f : Dict κ ν → ρ × Dict κ ν) :
    (s.withShard k f).2.total g + (s.shard k).total g =
      s.total g + (f (s.shard k)).2.total g := by
  have hlt := shardOf_lt h k
  have hshard : s.shard k = s.shards[s.shardOf k] := by
    rw [Sharded.shard, List.getD_eq_getElem?_getD, List.getElem?_eq_getElem hlt, Option.getD_some]
  rw [withShard]
  dsimp only [total]
  rw [hshard]
  exact sum_map_set (Dict.total g) hlt _

theorem total_insert (h : 0 < s.shards.length) (k : κ) (v : ν) :
    (s.insert k v).total g + s.share g k = s.total g + g v := by
  have hall := total_withShard g h k fun d ↦ ((), d.insert k v)
  have hone : ((s.shard k).insert k v).total g + s.share g k = (s.shard k).total g + g v :=
    (s.shard k).total_insert g k v
  refine add_right_cancel (b := (s.shard k).total g) ?_
  rw [add_right_comm, insert, hall, add_assoc, hone, add_right_comm, add_assoc]

/-- Removing a key takes its share from the total. -/
theorem Distinct.total_remove (hs : s.Distinct) (h : 0 < s.shards.length) (k : κ) :
    (s.remove k).2.total g + s.share g k = s.total g := by
  have hall := total_withShard g h k fun d ↦ (d.get? k, d.erase k)
  have hone : ((s.shard k).erase k).total g + s.share g k = (s.shard k).total g :=
    (hs.shard k).total_erase g k
  refine add_right_cancel (b := (s.shard k).total g) ?_
  rw [add_right_comm, Sharded.remove, hall, add_assoc, hone]

omit [DecidableEq κ] [Hashable κ] in
/-- The total of a new dictionary is zero. -/
theorem total_of_create {count : Nat} (h : create count = .ok s) : s.total g = 0 := by
  rw [create] at h
  split at h
  · cases h
  · obtain rfl := Except.ok.inj h
    simp [total]

end Total

end Sharded

end DatagramCircuits
