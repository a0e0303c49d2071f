import DatagramCircuits.Proofs.Limits
import Mathlib.Algebra.BigOperators.Ring.List
/-!
# How a limit is shared out

Rates that do not fit together get shares of the limit. **Rounding the shares down loses less than one
octet per second on each lane** (`Rates.sum_div_bounds`), so it takes one more on some of the lanes to
reach the limit exactly, and never a second round.

**What is granted is granted again.** The granted rates are between the floors and the limit, and
sum to no more than that, so another negotiation has nothing to clamp and nothing to scale.
-/

namespace DatagramCircuits

namespace Rates

variable {n : Nat} {c s : PerLane Nat} {limit : UInt64} {requested granted : Rates}

/-! ### Shares that are rounded down -/

/-- Quotients that would sum to `n` if they were exact fall short of it by less than one each. -/
theorem sum_div_bounds {α : Type} {l : List α} {g : α → Nat} {total : Nat} (hl : 0 < l.length)
    (htotal : 0 < total) (hsum : (l.map g).sum = n * total) :
    (l.map (g · / total)).sum ≤ n ∧ n < (l.map (g · / total)).sum + l.length := by
  have hlow : (l.map (g · / total)).sum * total ≤ n * total := by
    rw [← hsum, ← List.sum_map_mul_right]
    exact List.sum_le_sum fun a _ ↦ Nat.div_mul_le_self (g a) total
  have hhigh : n * total + l.length ≤ ((l.map (g · / total)).sum + l.length) * total := by
    have hlt : (l.map (g · + 1)).sum ≤ (l.map fun a ↦ (g a / total + 1) * total).sum :=
      List.sum_le_sum fun a _ ↦ (Nat.lt_div_mul_add htotal).trans_eq (Nat.succ_mul ..).symm
    simpa [List.sum_map_mul_right, List.sum_map_add, hsum] using hlt
  refine ⟨Nat.le_of_mul_le_mul_right hlow htotal, Nat.lt_of_mul_lt_mul_right (a := total) ?_⟩
  omega

theorem sum_ofFn (g : Lane → Nat) : sum (PerLane.ofFn g) = (Lane.all.map g).sum := by
  rw [sum_eq, funext (PerLane.get_ofFn g)]

theorem sum_floors : (Lane.all.map Lane.floor).sum = Lane.floorTotal :=
  rfl

theorem uniformShare_bounds (hpos : 0 < sum c) :
    sum (PerLane.ofFn (uniformShare n c)) ≤ n ∧
      n < sum (PerLane.ofFn (uniformShare n c)) + Lane.all.length := by
  have hbounds := sum_div_bounds (n := n) (l := Lane.all) (g := fun lane ↦ c.get lane * n)
    (by decide) hpos (by rw [List.sum_map_mul_right, ← sum_eq, Nat.mul_comm])
  rwa [sum_ofFn]

/-- What the floors leave of the clamped rates. -/
theorem sum_above_floors (hfloor : ∀ lane, lane.floor ≤ c.get lane) :
    (Lane.all.map fun lane ↦ c.get lane - lane.floor).sum + Lane.floorTotal = sum c := by
  rw [← sum_floors, ← List.sum_map_add, sum_eq]
  exact congrArg List.sum (List.map_congr_left fun lane _ ↦ Nat.sub_add_cancel (hfloor lane))

theorem max_one_above (hn : Lane.floorTotal ≤ n) (hexcess : n < sum c) :
    max 1 (sum c - Lane.floorTotal) = sum c - Lane.floorTotal :=
  Nat.max_eq_right (Nat.sub_pos_of_lt (Nat.lt_of_le_of_lt hn hexcess))

theorem shareAboveFloor_bounds (hfloor : ∀ lane, lane.floor ≤ c.get lane)
    (hn : Lane.floorTotal ≤ n) (hexcess : n < sum c) :
    sum (PerLane.ofFn (shareAboveFloor n c)) ≤ n ∧
      n < sum (PerLane.ofFn (shareAboveFloor n c)) + Lane.all.length := by
  have habove := sum_above_floors hfloor
  have hpos : 0 < sum c - Lane.floorTotal := by omega
  have hbounds := sum_div_bounds (n := n - Lane.floorTotal) (l := Lane.all)
    (g := fun lane ↦ (c.get lane - lane.floor) * (n - Lane.floorTotal)) (by decide) hpos
    (by rw [List.sum_map_mul_right, ← habove, Nat.add_sub_cancel, Nat.mul_comm])
  have hsum : sum (PerLane.ofFn (shareAboveFloor n c)) = Lane.floorTotal +
      (Lane.all.map fun lane ↦ (c.get lane - lane.floor) * (n - Lane.floorTotal) /
        (sum c - Lane.floorTotal)).sum := by
    rw [sum_ofFn, ← sum_floors, ← List.sum_map_add, sum_floors]
    exact congrArg List.sum (List.map_congr_left fun lane _ ↦ by
      rw [shareAboveFloor, max_one_above hn hexcess])
  omega

/-- **The shares** fall short of the limit by less than one on each lane. -/
theorem shares_bounds (hfloor : ∀ lane, lane.floor ≤ c.get lane) (hn : Lane.floorTotal ≤ n)
    (hexcess : n < sum c) :
    sum (shares n c) ≤ n ∧ n < sum (shares n c) + Lane.all.length := by
  rw [shares]
  split
  · exact uniformShare_bounds (Nat.zero_lt_of_lt hexcess)
  · exact shareAboveFloor_bounds hfloor hn hexcess

/-! ### What is left over -/

/-- One for each element of a first part counts the elements of that part. -/
theorem sum_ite_mem {α : Type} [DecidableEq α] {l first rest : List α} (hnodup : l.Nodup)
    (hl : (first ++ rest).Perm l) :
    (l.map fun a ↦ if a ∈ first then 1 else 0).sum = first.length := by
  have hdisjoint := (List.nodup_append.1 (hl.nodup_iff.2 hnodup)).2.2
  have hfirst : first.map (fun a ↦ if a ∈ first then 1 else 0) = first.map fun _ ↦ 1 :=
    List.map_congr_left fun a ha ↦ if_pos ha
  have hrest : rest.map (fun a ↦ if a ∈ first then 1 else 0) = rest.map fun _ ↦ 0 :=
    List.map_congr_left fun a ha ↦ if_neg fun h ↦ hdisjoint a h a ha rfl
  rw [← (hl.map _).sum_eq, List.map_append, List.sum_append, hfirst, hrest]
  simp

/-- **Filling up** reaches the limit, if it takes one more on each lane at most. -/
theorem sum_fillUp (hle : sum s ≤ n) (hlt : n ≤ sum s + Lane.all.length) :
    sum (fillUp n s) = n := by
  have hperm : ((largestFirst s).take (n - sum s) ++ (largestFirst s).drop (n - sum s)).Perm
      Lane.all := (List.take_append_drop _ _).symm ▸ largestFirst_perm s
  have hlength : ((largestFirst s).take (n - sum s)).length = n - sum s := by
    rw [List.length_take, (largestFirst_perm s).length_eq]
    omega
  have hlucky := sum_ite_mem (by decide) hperm
  rw [hlength] at hlucky
  rw [fillUp, sum_ofFn, List.sum_map_add, ← sum_eq, hlucky]
  omega

theorem get_fillUp (n : Nat) (s : PerLane Nat) (lane : Lane) :
    (fillUp n s).get lane = s.get lane ∨ (fillUp n s).get lane = s.get lane + 1 := by
  rw [fillUp, PerLane.get_ofFn]
  split
  · exact .inr rfl
  · exact .inl rfl

/-! ### Shares and floors -/

/-- The shares are the uniform ones if those reach the floors. -/
theorem shares_of_uniform (h : ∀ lane : Lane, lane.floor ≤ uniformShare n c lane) :
    shares n c = PerLane.ofFn (uniformShare n c) :=
  if_pos (List.all_eq_true.2 fun lane _ ↦ decide_eq_true (h lane))

theorem shares_of_undercut {lane : Lane} (h : uniformShare n c lane < lane.floor) :
    shares n c = PerLane.ofFn (shareAboveFloor n c) := by
  refine if_neg fun hall ↦ Nat.not_le.2 h ?_
  exact of_decide_eq_true (List.all_eq_true.1 hall lane (Lane.mem_all lane))

/-- No floor is undercut. -/
theorem floor_le_shares (n : Nat) (c : PerLane Nat) (lane : Lane) :
    lane.floor ≤ (shares n c).get lane := by
  rw [shares]
  split
  · rename_i hall
    rw [PerLane.get_ofFn]
    exact of_decide_eq_true (List.all_eq_true.1 hall lane (Lane.mem_all lane))
  · rw [PerLane.get_ofFn]
    exact Nat.le_add_right ..

/-- How a limit is shared out among rates that do not fit into it together. -/
structure Apportioned (limit : Nat) (c g : Lane → Nat) : Prop where
  /-- All of the limit is granted. -/
  sum : (Lane.all.map g).sum = limit
  /-- No floor is undercut. -/
  floor : ∀ lane, lane.floor ≤ g lane
  /-- A lane gets the share of the limit that is proportional to its rate, rounded down or one more,
  if none of these shares rounds down below the floor. -/
  uniform : (∀ lane, lane.floor ≤ c lane * limit / (Lane.all.map c).sum) →
    ∀ lane, g lane = c lane * limit / (Lane.all.map c).sum ∨
      g lane = c lane * limit / (Lane.all.map c).sum + 1
  /-- Otherwise it is what the floors leave of the rates and of the limit that is shared out. -/
  aboveFloor : (∃ lane, c lane * limit / (Lane.all.map c).sum < lane.floor) →
    ∀ lane, g lane = lane.floor + (c lane - lane.floor) * (limit - Lane.floorTotal) /
        ((Lane.all.map c).sum - Lane.floorTotal) ∨
      g lane = lane.floor + (c lane - lane.floor) * (limit - Lane.floorTotal) /
        ((Lane.all.map c).sum - Lane.floorTotal) + 1

/-- **The limit is shared out.** -/
theorem apportioned_fillUp (hfloor : ∀ lane, lane.floor ≤ c.get lane) (hn : Lane.floorTotal ≤ n)
    (hexcess : n < sum c) : Apportioned n c.get (fillUp n (shares n c)).get := by
  obtain ⟨hle, hlt⟩ := shares_bounds hfloor hn hexcess
  refine ⟨?_, fun lane ↦ ?_, fun h lane ↦ ?_, fun ⟨undercut, h⟩ lane ↦ ?_⟩
  · rw [← sum_eq, sum_fillUp hle hlt.le]
  · have hshare := floor_le_shares n c lane
    rcases get_fillUp n (shares n c) lane with hget | hget <;> omega
  · rw [← sum_eq] at h ⊢
    have hget := get_fillUp n (PerLane.ofFn (uniformShare n c)) lane
    rw [shares_of_uniform h]
    rwa [PerLane.get_ofFn] at hget
  · rw [← sum_eq] at h ⊢
    have hget := get_fillUp n (PerLane.ofFn (shareAboveFloor n c)) lane
    rw [shares_of_undercut h]
    rwa [PerLane.get_ofFn, shareAboveFloor, max_one_above hn hexcess] at hget

/-! ### Negotiation -/

theorem negotiate_of_sum_le (hsum : sum (clamped limit.toNat requested) ≤ limit.toNat) :
    negotiate limit requested = .ok {
      requested, applied := (clamped limit.toNat requested).map UInt64.ofNat, scaled := false } := by
  have htotal := within64_eq_ok_iff.2 ⟨Nat.lt_of_le_of_lt hsum limit.toNat_lt, rfl⟩
  rw [negotiate, htotal]
  exact if_pos hsum

theorem negotiate_of_lt_sum (hexcess : limit.toNat < sum (clamped limit.toNat requested))
    (hrange : sum (clamped limit.toNat requested) < UInt64.size) :
    negotiate limit requested = .ok {
      requested
      applied := (fillUp limit.toNat
        (shares limit.toNat (clamped limit.toNat requested))).map UInt64.ofNat
      scaled := true } := by
  have htotal := within64_eq_ok_iff.2 ⟨hrange, rfl⟩
  rw [negotiate, htotal]
  exact if_neg (Nat.not_le.2 hexcess)

/-- Rates between the floors and the limit that fit together are granted as they are. -/
theorem negotiate_self (hfloor : ∀ lane, lane.floor ≤ (granted.get lane).toNat)
    (hsum : (Lane.all.map fun lane ↦ (granted.get lane).toNat).sum ≤ limit.toNat) :
    negotiate limit granted = .ok { requested := granted, applied := granted, scaled := false } := by
  have hle : ∀ lane, (granted.get lane).toNat ≤ limit.toNat := fun lane ↦
    Nat.le_trans (List.single_le_sum (fun _ _ ↦ Nat.zero_le _) _
      (List.mem_map.2 ⟨lane, Lane.mem_all lane, rfl⟩)) hsum
  have hclamped : clamped limit.toNat granted = granted.map UInt64.toNat := by
    refine PerLane.ext fun lane ↦ ?_
    have hfloor := hfloor lane
    have hle := hle lane
    rw [clamped, PerLane.get_ofFn, PerLane.get_map]
    omega
  have happlied : (granted.map UInt64.toNat).map UInt64.ofNat = granted :=
    PerLane.ext fun lane ↦ by rw [PerLane.get_map, PerLane.get_map, UInt64.ofNat_toNat]
  have hclampedSum : sum (clamped limit.toNat granted) ≤ limit.toNat := by
    rw [hclamped, sum_eq, funext (PerLane.get_map UInt64.toNat granted)]
    exact hsum
  rw [negotiate_of_sum_le hclampedSum, hclamped, happlied]

/-- Rates that sum to no more than the limit stay what they are in 64 bits. -/
theorem toNat_map_ofNat (h : sum c ≤ limit.toNat) (lane : Lane) :
    ((c.map UInt64.ofNat).get lane).toNat = c.get lane := by
  rw [sum_eq] at h
  have hle : c.get lane ≤ (Lane.all.map c.get).sum :=
    List.single_le_sum (fun _ _ ↦ Nat.zero_le _) _
      (List.mem_map.2 ⟨lane, Lane.mem_all lane, rfl⟩)
  rw [PerLane.get_map]
  exact UInt64.toNat_ofNat_of_lt' (Nat.lt_of_le_of_lt (Nat.le_trans hle h) limit.toNat_lt)

/-- **Negotiation.** Rates that fit together once each is clamped between the floor of its lane and the
limit are granted so. Otherwise the limit is shared out among them, down to the last octet. What is
granted is granted again if it is asked for. -/
theorem negotiate_grants (limit : UInt64) (requested : Rates)
    (hfloors : Lane.floorTotal ≤ limit.toNat) (hrange : 7 * limit.toNat < 2 ^ 64) :
    ∃ a, negotiate limit requested = .ok a ∧ a.requested = requested ∧
      (let c (lane : Lane) : Nat := max lane.floor (min (requested.get lane).toNat limit.toNat)
      let granted (lane : Lane) : Nat := (a.applied.get lane).toNat
      ((Lane.all.map c).sum ≤ limit.toNat → a.scaled = false ∧ granted = c) ∧
        (limit.toNat < (Lane.all.map c).sum →
          a.scaled = true ∧ Apportioned limit.toNat c granted)) ∧
      negotiate limit a.applied =
        .ok { requested := a.applied, applied := a.applied, scaled := false } := by
  have hclamped : (clamped limit.toNat requested).get =
      fun lane ↦ max lane.floor (min (requested.get lane).toNat limit.toNat) := by
    funext lane
    have hfloor := Nat.le_trans (floor_le_floorTotal lane) hfloors
    rw [clamped, PerLane.get_ofFn, Nat.max_eq_left hfloor]
  have hfloor := floor_le_clamped limit.toNat requested
  have hlt : sum (clamped limit.toNat requested) < UInt64.size :=
    Nat.lt_of_le_of_lt (sum_le (clamped_le hfloors requested)) hrange
  rw [← hclamped]
  dsimp only
  rw [← sum_eq]
  rcases Nat.lt_or_ge limit.toNat (sum (clamped limit.toNat requested)) with hexcess | hsum
  · have hgranted := apportioned_fillUp hfloor hfloors hexcess
    have htoNat : (fun lane ↦ (((fillUp limit.toNat (shares limit.toNat
        (clamped limit.toNat requested))).map UInt64.ofNat).get lane).toNat) = PerLane.get _ :=
      funext (toNat_map_ofNat (sum_eq _ ▸ hgranted.sum.le))
    rw [← htoNat] at hgranted
    exact ⟨_, negotiate_of_lt_sum hexcess hlt, rfl,
      ⟨fun hsum ↦ absurd hexcess (Nat.not_lt.2 hsum), fun _ ↦ ⟨rfl, hgranted⟩⟩,
      negotiate_self hgranted.floor hgranted.sum.le⟩
  · have htoNat := toNat_map_ofNat hsum
    refine ⟨_, negotiate_of_sum_le hsum, rfl,
      ⟨fun _ ↦ ⟨rfl, funext htoNat⟩, fun hexcess ↦ absurd hexcess (Nat.not_lt.2 hsum)⟩,
      negotiate_self (fun lane ↦ htoNat lane ▸ hfloor lane) ?_⟩
    rw [funext htoNat, ← sum_eq]
    exact hsum

/-- What the floors leave of a limit of 5000 is shared out among rates of ten times as much, since
shares of all of it would leave some lanes below their floors. -/
theorem negotiate_grants_of_narrow :
    Lane.floorTotal ≤ (5000 : UInt64).toNat ∧ 7 * (5000 : UInt64).toNat < 2 ^ 64 ∧
    ∃ a, negotiate 5000 ⟨0, 400, 60, 3000, 1500, 1000, 90000⟩ = .ok a ∧ a.scaled = true ∧
      ((a.applied.get .asset).toNat = 1435 ∨ (a.applied.get .asset).toNat = 1436) ∧
      (Lane.all.map fun lane ↦ (a.applied.get lane).toNat).sum = 5000 ∧
      negotiate 5000 a.applied =
        .ok { requested := a.applied, applied := a.applied, scaled := false } := by
  have hfloors : Lane.floorTotal ≤ (5000 : UInt64).toNat := by decide
  have hrange : 7 * (5000 : UInt64).toNat < 2 ^ 64 := by decide
  obtain ⟨a, ha, -, ⟨-, hexcess⟩, hagain⟩ :=
    negotiate_grants 5000 ⟨0, 400, 60, 3000, 1500, 1000, 90000⟩ hfloors hrange
  obtain ⟨hscaled, hgranted⟩ := hexcess (by decide)
  exact ⟨hfloors, hrange, a, ha, hscaled, hgranted.aboveFloor ⟨.wind, by decide⟩ .asset, hgranted.sum,
    hagain⟩

end Rates

end DatagramCircuits
