import DatagramCircuits.Collection.Operation
import DatagramCircuits.Proofs.Collections
import Mathlib.Data.Finset.Card
/-!
# Shards that nobody sees

A dictionary in shards answers as one in one piece does (`Sharded.answers_as_one`), whatever the hash of a
key is, as long as each update deals with its key only (`Dict.DealsWith`).

**The shards and the dictionary hold the same** (`Sharded.Holds`): each key has the same value in both, and
is in no shard but the one that its hash selects. An update is given the shard of its key, which holds less
than the dictionary does, but the same for the key. So it tells the same, and leaves the same for the key,
and other keys are left alone in both places.

**The number of keys is not kept anywhere.** It is read off the keys, which are as many in all shards
together as in the dictionary, since none of them is in two shards.
-/

namespace DatagramCircuits

namespace Dict

variable {κ ν ρ σ τ : Type}

section

variable [DecidableEq κ] {d : Dict κ ν} {k : κ}

/-! ### Keys -/

/-- The keys. -/
def keys (d : Dict κ ν) : Finset κ :=
  (d.entries.map Prod.fst).toFinset

theorem contains_iff : d.contains k = true ↔ k ∈ d.entries.map Prod.fst := by
  rw [contains, get?, Option.isSome_map, List.find?_isSome, List.mem_map]
  simp only [decide_eq_true_eq]

theorem mem_keys : k ∈ d.keys ↔ d.contains k = true := by
  rw [keys, List.mem_toFinset, contains_iff]

theorem Distinct.card_keys (h : d.Distinct) : d.keys.card = d.size := by
  rw [keys, List.toFinset_card_of_nodup h, List.length_map]
  rfl

omit [DecidableEq κ] in
theorem isEmpty_eq (d : Dict κ ν) : d.isEmpty = (d.size == 0) := by
  obtain ⟨l⟩ := d
  cases l <;> rfl

/-! ### Updates of one key -/

/-- A function of dictionaries deals with one key only. It looks at nothing but the value of this key, and
leaves all other keys as they are. -/
structure DealsWith (k : κ) (f : Dict κ ν → ρ × Dict κ ν) : Prop where
  /-- What is told depends on the value of the key. -/
  told : ∀ d d' : Dict κ ν, d.Distinct → d'.Distinct → d.get? k = d'.get? k → (f d).1 = (f d').1
  /-- So does the value after it. -/
  value : ∀ d d' : Dict κ ν, d.Distinct → d'.Distinct → d.get? k = d'.get? k →
    (f d).2.get? k = (f d').2.get? k
  /-- Other keys keep their values. -/
  others : ∀ (d : Dict κ ν) (k' : κ), d.Distinct → k ≠ k' → (f d).2.get? k' = d.get? k'
  /-- No key occurs twice after it. -/
  distinct : ∀ d : Dict κ ν, d.Distinct → (f d).2.Distinct

theorem get?_put (d : Dict κ ν) (k k' : κ) (v : Option ν) :
    (d.put k v).get? k' = if k = k' then v else d.get? k' := by
  cases v with
  | some v => exact get?_insert d k k' v
  | none => exact get?_erase d k k'

theorem Distinct.put (h : d.Distinct) (k : κ) (v : Option ν) : (d.put k v).Distinct := by
  cases v with
  | some v => exact h.insert k v
  | none => exact h.erase k

/-- To alter the value of a key is to deal with this key only. -/
theorem dealsWith_alter (k : κ) (change : Option ν → ρ × Option ν) :
    DealsWith k (alter k change) where
  told d d' _ _ h := congrArg (fun v ↦ (change v).1) h
  value d d' _ _ h := by
    rw [alter, alter, get?_put, get?_put, if_pos rfl, if_pos rfl, h]
  others d k' _ hne := by
    rw [alter, get?_put, if_neg hne]
  distinct d h := h.put ..

/-- An update of the operations deals with its key only. -/
def Operation.IsLocal : Operation κ ν ρ → Prop
  | .update k f => DealsWith k f
  | _ => True

end

/-- What gives the same answers step by step gives the same answers in a whole run. -/
theorem Operation.run_congr {applyS : σ → Operation κ ν ρ → Answer ν ρ × σ}
    {applyT : τ → Operation κ ν ρ → Answer ν ρ × τ} {R : σ → τ → Prop}
    {P : Operation κ ν ρ → Prop}
    (hstep : ∀ s t o, R s t → P o →
      (applyS s o).1 = (applyT t o).1 ∧ R (applyS s o).2 (applyT t o).2)
    {s : σ} {t : τ} (h : R s t) {l : List (Operation κ ν ρ)} (hl : ∀ o ∈ l, P o) :
    (run applyS s l).1 = (run applyT t l).1 ∧ R (run applyS s l).2 (run applyT t l).2 := by
  induction l generalizing s t with
  | nil => exact ⟨rfl, h⟩
  | cons o l ih =>
    obtain ⟨hanswer, hafter⟩ := hstep s t o h (hl o List.mem_cons_self)
    obtain ⟨hanswers, hend⟩ := ih hafter fun o' ho' ↦ hl o' (List.mem_cons_of_mem o ho')
    exact ⟨congrArg₂ List.cons hanswer hanswers, hend⟩

end Dict

namespace Sharded

variable {κ ν ρ : Type} [DecidableEq κ] [Hashable κ] {s : Sharded κ ν} {d : Dict κ ν} {k : κ}
  {f : Dict κ ν → ρ × Dict κ ν}

/-! ### Keys in their shards -/

/-- Each key is in the shard that its hash selects, and in no other. -/
def AtHome (s : Sharded κ ν) : Prop :=
  ∀ (i : Nat) (h : i < s.shards.length) (k : κ), s.shards[i].contains k = true → s.shardOf k = i

/-- The keys of all shards. -/
def keys (s : Sharded κ ν) : Finset κ :=
  (s.shards.flatMap fun d ↦ d.entries.map Prod.fst).toFinset

omit [DecidableEq κ] in
theorem shard_eq (h : s.shardOf k < s.shards.length) : s.shard k = s.shards[s.shardOf k] := by
  rw [shard, List.getD_eq_getElem?_getD, List.getElem?_eq_getElem h, Option.getD_some]

/-- A key that is in any shard is found. -/
theorem AtHome.mem_keys (hs : s.AtHome) (hpos : 0 < s.shards.length) :
    k ∈ s.keys ↔ s.contains k = true := by
  rw [keys, List.mem_toFinset, List.mem_flatMap, contains, shard_eq (shardOf_lt hpos k)]
  constructor
  · rintro ⟨d, hd, hk⟩
    obtain ⟨i, hi, rfl⟩ := List.mem_iff_getElem.1 hd
    have hk := Dict.contains_iff.2 hk
    obtain rfl := hs i hi k hk
    exact hk
  · intro hk
    exact ⟨_, List.getElem_mem _, Dict.contains_iff.1 hk⟩

/-- The number of keys is that of the keys in all shards, since none of them is in two shards. -/
theorem AtHome.card_keys (hs : s.AtHome) (hd : s.Distinct) : s.keys.card = s.size := by
  have hnodup : (s.shards.flatMap fun d ↦ d.entries.map Prod.fst).Nodup := by
    rw [List.nodup_flatMap]
    refine ⟨hd, List.pairwise_iff_getElem.2 fun i j hi hj hlt ↦ ?_⟩
    intro k hki hkj
    have hki := hs i hi k (Dict.contains_iff.2 hki)
    have hkj := hs j hj k (Dict.contains_iff.2 hkj)
    omega
  rw [keys, List.toFinset_card_of_nodup hnodup, List.length_flatMap, size, ← List.sum_eq_foldl]
  congr 1
  exact List.map_congr_left fun d _ ↦ List.length_map ..

/-! ### The shards and the dictionary -/

/-- The shards hold what the dictionary holds, each key in its own shard. -/
structure Holds (s : Sharded κ ν) (d : Dict κ ν) : Prop where
  shards : 0 < s.shards.length
  distinct : s.Distinct
  whole : d.Distinct
  atHome : s.AtHome
  get? : ∀ k, s.get? k = d.get? k

theorem holds_of_create {count : Nat} (h : create count = .ok s) : Holds s Dict.empty where
  shards := length_shards_of_create h
  distinct := distinct_of_create h
  whole := Dict.distinct_empty
  atHome i hi k hk := by
    rw [create] at h
    split at h
    · cases h
    · obtain rfl := Except.ok.inj h
      simp [Dict.contains] at hk
  get? k := get?_of_create h k

theorem Holds.contains_eq (h : Holds s d) (k : κ) : s.contains k = d.contains k :=
  congrArg Option.isSome (h.get? k)

theorem Holds.size_eq (h : Holds s d) : s.size = d.size := by
  have hkeys : s.keys = d.keys := by
    ext k
    rw [h.atHome.mem_keys h.shards, Dict.mem_keys, h.contains_eq]
  rw [← h.atHome.card_keys h.distinct, ← h.whole.card_keys, hkeys]

/-- **An update of one shard leaves each key in its own shard,** if it deals with one key of this shard. -/
theorem AtHome.withShard (hs : s.AtHome) (hd : s.Distinct) (hpos : 0 < s.shards.length)
    (hf : Dict.DealsWith k f) : (s.withShard k f).2.AtHome := by
  intro i hi k' hk'
  have hplace : (s.withShard k f).2.shardOf k' = s.shardOf k' := by
    rw [shardOf, shardOf, length_shards_withShard]
  have hi' : i < s.shards.length := by rwa [length_shards_withShard] at hi
  have hat : (s.withShard k f).2.shards[i] =
      if s.shardOf k = i then (f (s.shard k)).2 else s.shards[i] := List.getElem_set ..
  rw [hat] at hk'
  rw [hplace]
  split at hk'
  · rename_i hsame
    by_cases hk : k = k'
    · rw [← hk]
      exact hsame
    · -- any other key was in this shard before
      have hbefore : (s.shard k).contains k' = true := by
        rwa [Dict.contains, hf.others _ k' (hd.shard k) hk] at hk'
      rw [shard_eq (shardOf_lt hpos k)] at hbefore
      exact (hs _ _ k' hbefore).trans hsame
  · exact hs i hi' k' hk'

/-- **An update of one key does the same to the shards and to the dictionary.** -/
theorem Holds.update (h : Holds s d) (hf : Dict.DealsWith k f) :
    (s.withShard k f).1 = (f d).1 ∧ Holds (s.withShard k f).2 (f d).2 := by
  have hshard := h.distinct.shard k
  have hvalue : (s.shard k).get? k = d.get? k := h.get? k
  refine ⟨hf.told _ _ hshard h.whole hvalue, ?_, ?_, hf.distinct d h.whole, ?_, fun k' ↦ ?_⟩
  · rw [length_shards_withShard]
    exact h.shards
  · exact h.distinct.withShard (hf.distinct _ hshard)
  · exact h.atHome.withShard h.distinct h.shards hf
  · rw [get?_withShard h.shards]
    by_cases hk : k = k'
    · subst hk
      rw [if_pos rfl]
      exact hf.value _ _ hshard h.whole hvalue
    · rw [hf.others d k' h.whole hk, ← h.get? k']
      split
      · rename_i hsame
        rw [hf.others _ k' hshard hk]
        exact congrArg (fun i ↦ (s.shards.getD i Dict.empty).get? k') hsame
      · rfl

/-- **A step.** The shards answer an operation as the dictionary does, and hold the same after it. -/
theorem Holds.apply {o : Dict.Operation κ ν ρ} (h : Holds s d) (ho : o.IsLocal) :
    (s.apply o).1 = (d.apply o).1 ∧ Holds (s.apply o).2 (d.apply o).2 := by
  cases o with
  | update k f =>
    obtain ⟨htold, hafter⟩ := h.update ho
    exact ⟨congrArg Dict.Answer.updated htold, hafter⟩
  | contains k => exact ⟨congrArg Dict.Answer.found (h.contains_eq k), h⟩
  | remove k =>
    -- to take a key out is to alter its value
    obtain ⟨htold, hafter⟩ := h.update (Dict.dealsWith_alter k fun v ↦ (v, none))
    exact ⟨congrArg Dict.Answer.removed htold, hafter⟩
  | size => exact ⟨congrArg Dict.Answer.counted h.size_eq, h⟩
  | isEmpty =>
    refine ⟨congrArg Dict.Answer.nothing ?_, h⟩
    rw [isEmpty, h.size_eq, Dict.isEmpty_eq]

/-- **A run.** The same holds of one operation after another. -/
theorem Holds.run {l : List (Dict.Operation κ ν ρ)} (h : Holds s d) (hl : ∀ o ∈ l, o.IsLocal) :
    (s.run l).1 = (d.run l).1 ∧ Holds (s.run l).2 (d.run l).2 :=
  Dict.Operation.run_congr (fun _ _ _ h ho ↦ Holds.apply h ho) h hl

/-- **Shards are not seen from outside.** However many shards there are, and whatever the hash of a key is,
a new dictionary in shards answers one operation after another as a new dictionary in one piece does, if
each update deals with its key only. After that each key has the same value in both, the number of keys is
that of the keys that are found, no key is in two shards, and an update of one key does nothing to the
value of another. -/
theorem answers_as_one {count : Nat} (hcount : 0 < count) {l : List (Dict.Operation κ ν ρ)}
    (hl : ∀ o ∈ l, o.IsLocal) :
    ∃ s : Sharded κ ν, create count = .ok s ∧
      (s.run l).1 = (Dict.empty.run l).1 ∧
      (∀ k, (s.run l).2.get? k = (Dict.empty.run l).2.get? k) ∧
      (∃ keys : Finset κ, (∀ k, k ∈ keys ↔ (s.run l).2.contains k = true) ∧
        (s.run l).2.size = keys.card) ∧
      (∀ (i j : Nat) (hi : i < (s.run l).2.shards.length) (hj : j < (s.run l).2.shards.length) (k : κ),
        (s.run l).2.shards[i].contains k = true → (s.run l).2.shards[j].contains k = true → i = j) ∧
      ∀ (k k' : κ) (f : Dict κ ν → ρ × Dict κ ν), Dict.DealsWith k f → k ≠ k' →
        ((s.run l).2.withShard k f).2.get? k' = (s.run l).2.get? k' := by
  have hnew : create count = .ok (⟨List.replicate count Dict.empty⟩ : Sharded κ ν) :=
    if_neg (Nat.ne_of_gt hcount)
  obtain ⟨hanswers, h⟩ := (holds_of_create hnew).run hl
  refine ⟨_, hnew, hanswers, h.get?, ⟨keys _, fun k ↦ h.atHome.mem_keys h.shards,
    (h.atHome.card_keys h.distinct).symm⟩, fun i j hi hj k hki hkj ↦ ?_, fun k k' f hf hk ↦ ?_⟩
  · rw [← h.atHome i hi k hki, ← h.atHome j hj k hkj]
  · obtain ⟨-, hafter⟩ := h.update hf
    rw [hafter.get?, hf.others _ k' h.whole hk, h.get?]

/-- Adds a number to the list that is the value of a key, and tells how long the list was. -/
def pushing (k v : Nat) : Dict.Operation Nat (List Nat) Nat :=
  .update k (Dict.alter k fun l ↦ ((l.getD []).length, some (l.getD [] ++ [v])))

/-- Two keys get their lists, and one of them is taken out again. -/
def pushingTwice : List (Dict.Operation Nat (List Nat) Nat) :=
  [pushing 1 7, pushing 4 8, pushing 1 9, .size, .remove 1, .contains 4, .isEmpty]

/-- Two keys in the same of three shards do not disturb each other. -/
theorem answers_as_one_of_pushingTwice :
    (0 < 3 ∧ ∀ o ∈ pushingTwice, o.IsLocal) ∧
      ∃ s : Sharded Nat (List Nat), create 3 = .ok s ∧ s.shardOf 1 = s.shardOf 4 ∧
        (s.run pushingTwice).1 =
          [.updated 0, .updated 0, .updated 1, .counted 2, .removed (some [7, 9]), .found true,
            .nothing false] ∧
        (s.run pushingTwice).2.get? 4 = some [8] := by
  have hlocal : ∀ o ∈ pushingTwice, o.IsLocal := by
    simp only [pushingTwice, List.forall_mem_cons]
    exact ⟨Dict.dealsWith_alter .., Dict.dealsWith_alter .., Dict.dealsWith_alter .., trivial, trivial,
      trivial, trivial, fun _ h ↦ nomatch h⟩
  obtain ⟨s, hs, hanswers, hvalues, -⟩ := answers_as_one (show 0 < 3 by decide) hlocal
  refine ⟨⟨by decide, hlocal⟩, s, hs, ?_, hanswers.trans (by decide), (hvalues 4).trans (by decide)⟩
  obtain rfl := Except.ok.inj hs
  decide

end Sharded

end DatagramCircuits
