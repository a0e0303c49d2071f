import DatagramCircuits.Proofs.Apportionment
/-!
# Grants beyond a request

A lane is granted the floor if it asks for less, and apart from that hardly ever more than it asks for.
Shares are rounded down, and what is left over then goes to the largest of them in units of one.
**A share that is smaller than the rate leaves room for one more** (`Rates.mul_div_lt`), so this goes
beyond a request only where a share is no smaller than the rate.

That happens when the parts above the floors are scaled. A lane that asks for no more than its floor has
no such part, and its share is the floor; **if it is among the largest, it gets one more than the
floor.** `Rates.Surplus` says for which lanes this is so, and `Rates.negotiate_surplus` that they are the
only ones that get more than they asked for.
-/

namespace DatagramCircuits

namespace Rates

variable {n : Nat} {c s : PerLane Nat} {limit : UInt64} {requested : Rates} {lane : Lane}

/-- The lanes that get one more than their share of the limit. -/
def favoured (limit : Nat) (shares : PerLane Nat) : List Lane :=
  (largestFirst shares).take (limit - sum shares)

/-- The lane asks for no more than its floor, and gets one more than that: the shares in the limit would
undercut a floor, so it is shared out above the floors, and the lane is among those with the largest of
these shares. -/
structure Surplus (limit : Nat) (requested : Rates) (lane : Lane) : Prop where
  /-- The rates do not fit together. -/
  scaled : limit < sum (clamped limit requested)
  /-- Some lane would get less than its floor. -/
  undercut : ∃ k : Lane, uniformShare limit (clamped limit requested) k < k.floor
  /-- The lane asks for no more than its floor. -/
  modest : (requested.get lane).toNat ≤ lane.floor
  /-- It is among those that get one more. -/
  favoured : lane ∈ favoured limit (PerLane.ofFn (shareAboveFloor limit (clamped limit requested)))

/-! ### Shares that are smaller than the rates -/

/-- The quotient of a product by something larger than one factor is smaller than the other. -/
theorem mul_div_lt {a k total : Nat} (ha : 0 < a) (hk : k < total) : a * k / total < a :=
  Nat.div_lt_of_lt_mul ((Nat.mul_lt_mul_of_pos_left hk ha).trans_eq (Nat.mul_comm ..))

theorem floor_pos (lane : Lane) : 0 < lane.floor := by
  cases lane <;> decide

/-- A uniform share is smaller than the rate. -/
theorem uniformShare_lt (hfloor : lane.floor ≤ c.get lane) (hexcess : n < sum c) :
    uniformShare n c lane < c.get lane :=
  mul_div_lt (Nat.lt_of_lt_of_le (floor_pos lane) hfloor) hexcess

/-- So is a share above the floor, if there is a part above the floor. -/
theorem shareAboveFloor_lt (habove : lane.floor < c.get lane) (hn : Lane.floorTotal ≤ n)
    (hexcess : n < sum c) : shareAboveFloor n c lane < c.get lane := by
  have hpart : (c.get lane - lane.floor) * (n - Lane.floorTotal) / (sum c - Lane.floorTotal) <
      c.get lane - lane.floor := mul_div_lt (by omega) (by omega)
  rw [shareAboveFloor, max_one_above hn hexcess]
  omega

/-- A lane without such a part gets the floor. -/
theorem shareAboveFloor_eq_floor (h : c.get lane = lane.floor) :
    shareAboveFloor n c lane = lane.floor := by
  rw [shareAboveFloor, h, Nat.sub_self, Nat.zero_mul, Nat.zero_div, Nat.add_zero]

/-! ### Rates that are cut down -/

theorem clamped_le_max (hn : Lane.floorTotal ≤ n) (requested : Rates) (lane : Lane) :
    (clamped n requested).get lane ≤ max (requested.get lane).toNat lane.floor := by
  have hfloor := Nat.le_trans (floor_le_floorTotal lane) hn
  rw [clamped, PerLane.get_ofFn]
  omega

/-- A lane is at its floor if it asks for no more, as the limit leaves room for more than one floor. -/
theorem clamped_eq_floor_iff (hn : Lane.floorTotal ≤ n) :
    (clamped n requested).get lane = lane.floor ↔ (requested.get lane).toNat ≤ lane.floor := by
  have hfloor : lane.floor < Lane.floorTotal := by
    cases lane <;> decide
  rw [clamped, PerLane.get_ofFn]
  omega

/-! ### Filling up -/

theorem get_fillUp_eq (n : Nat) (s : PerLane Nat) (lane : Lane) :
    (fillUp n s).get lane = s.get lane + if lane ∈ favoured n s then 1 else 0 := by
  rw [fillUp, PerLane.get_ofFn]
  rfl

theorem get_fillUp_le (n : Nat) (s : PerLane Nat) (lane : Lane) :
    (fillUp n s).get lane ≤ s.get lane + 1 := by
  rcases get_fillUp n s lane with h | h <;> omega

/-- **Filling up** gives a lane no more than its clamped rate, unless it is in surplus. -/
theorem fillUp_shares_le (hn : Lane.floorTotal ≤ n) (hexcess : n < sum (clamped n requested))
    (h : ¬ Surplus n requested lane) :
    (fillUp n (shares n (clamped n requested))).get lane ≤ (clamped n requested).get lane := by
  have hfloor := floor_le_clamped n requested lane
  by_cases hundercut : ∃ k : Lane, uniformShare n (clamped n requested) k < k.floor
  · obtain ⟨k, hk⟩ := hundercut
    rw [shares_of_undercut hk]
    rcases Nat.eq_or_lt_of_le hfloor with heq | habove
    · -- the share is the floor, and nothing is added to it
      have hnot : lane ∉ favoured n (PerLane.ofFn (shareAboveFloor n (clamped n requested))) :=
        fun hmem ↦ h ⟨hexcess, ⟨k, hk⟩, (clamped_eq_floor_iff hn).1 heq.symm, hmem⟩
      rw [get_fillUp_eq, if_neg hnot, PerLane.get_ofFn, shareAboveFloor_eq_floor heq.symm]
      exact hfloor
    · have hshare := shareAboveFloor_lt habove hn hexcess
      have hmore := get_fillUp_le n (PerLane.ofFn (shareAboveFloor n (clamped n requested))) lane
      rw [PerLane.get_ofFn] at hmore
      omega
  · rw [shares_of_uniform fun k ↦ Nat.not_lt.1 fun hk ↦ hundercut ⟨k, hk⟩]
    have hshare := uniformShare_lt hfloor hexcess
    have hmore := get_fillUp_le n (PerLane.ofFn (uniformShare n (clamped n requested))) lane
    rw [PerLane.get_ofFn] at hmore
    omega

/-- A lane in surplus gets one more than its floor. -/
theorem Surplus.fillUp_shares (h : Surplus n requested lane) (hn : Lane.floorTotal ≤ n) :
    (fillUp n (shares n (clamped n requested))).get lane = lane.floor + 1 := by
  obtain ⟨k, hk⟩ := h.undercut
  have hfloor := (clamped_eq_floor_iff hn).2 h.modest
  rw [shares_of_undercut hk, get_fillUp_eq, if_pos h.favoured, PerLane.get_ofFn,
    shareAboveFloor_eq_floor hfloor]

/-! ### Negotiation -/

/-- Rates that do not fit together are granted as their shares are filled up. -/
theorem exists_negotiate_of_excess (hfloors : Lane.floorTotal ≤ limit.toNat)
    (hrange : 7 * limit.toNat < 2 ^ 64) (hexcess : limit.toNat < sum (clamped limit.toNat requested)) :
    ∃ a, negotiate limit requested = .ok a ∧ a.scaled = true ∧ ∀ lane, (a.applied.get lane).toNat =
      (fillUp limit.toNat (shares limit.toNat (clamped limit.toNat requested))).get lane := by
  have hlt : sum (clamped limit.toNat requested) < UInt64.size :=
    Nat.lt_of_le_of_lt (sum_le (clamped_le hfloors requested)) hrange
  have hgranted := apportioned_fillUp (floor_le_clamped limit.toNat requested) hfloors hexcess
  exact ⟨_, negotiate_of_lt_sum hexcess hlt, rfl, toNat_map_ofNat (sum_eq _ ▸ hgranted.sum.le)⟩

/-- **Negotiation goes beyond a request** by one octet per second, and only on the lanes in surplus:
those ask for no more than their floor, and get one more than that. All other lanes get no more than
they asked for, or their floor. -/
theorem negotiate_surplus (limit : UInt64) (requested : Rates)
    (hfloors : Lane.floorTotal ≤ limit.toNat) (hrange : 7 * limit.toNat < 2 ^ 64) :
    ∃ a, negotiate limit requested = .ok a ∧ ∀ lane,
      (Surplus limit.toNat requested lane →
        a.scaled = true ∧ (a.applied.get lane).toNat = lane.floor + 1) ∧
      (¬ Surplus limit.toNat requested lane →
        (a.applied.get lane).toNat ≤ max (requested.get lane).toNat lane.floor) := by
  have hclamped := clamped_le_max hfloors requested
  rcases Nat.lt_or_ge limit.toNat (sum (clamped limit.toNat requested)) with hexcess | hsum
  · obtain ⟨a, ha, hscaled, happlied⟩ := exists_negotiate_of_excess hfloors hrange hexcess
    refine ⟨a, ha, fun lane ↦ ⟨fun h ↦ ⟨hscaled, ?_⟩, fun h ↦ ?_⟩⟩
    · rw [happlied, h.fillUp_shares hfloors]
    · rw [happlied]
      exact (fillUp_shares_le hfloors hexcess h).trans (hclamped lane)
  · refine ⟨_, negotiate_of_sum_le hsum, fun lane ↦
      ⟨fun h ↦ absurd h.scaled (Nat.not_lt.2 hsum), fun _ ↦ ?_⟩⟩
    rw [toNat_map_ofNat hsum]
    exact hclamped lane

/-- With one octet per second above the floors, and three lanes that ask for a part of it, it is the lane
of resent datagrams that gets it. -/
theorem surplus_resend : Surplus (4151 : UInt64).toNat ⟨0, 150, 150, 150, 0, 0, 0⟩ .resend := by
  refine ⟨by decide, ⟨.resend, by decide⟩, by decide, ?_⟩
  have hshares : PerLane.ofFn (shareAboveFloor (4151 : UInt64).toNat
      (clamped (4151 : UInt64).toNat ⟨0, 150, 150, 150, 0, 0, 0⟩)) =
      ⟨1000, 50, 50, 50, 1000, 1000, 1000⟩ := by decide
  have horder : largestFirst ⟨1000, 50, 50, 50, 1000, 1000, 1000⟩ =
      [.resend, .task, .texture, .asset, .land, .wind, .cloud] := by
    simp [largestFirst, Lane.all, List.mergeSort, PerLane.get]
  rw [hshares, favoured, horder]
  decide

theorem negotiate_surplus_of_narrow :
    Lane.floorTotal ≤ (4151 : UInt64).toNat ∧ 7 * (4151 : UInt64).toNat < 2 ^ 64 ∧
    ∃ a, negotiate 4151 ⟨0, 150, 150, 150, 0, 0, 0⟩ = .ok a ∧ a.scaled = true ∧
      (a.applied.get .resend).toNat = 1001 ∧ (a.applied.get .land).toNat ≤ 150 := by
  have hfloors : Lane.floorTotal ≤ (4151 : UInt64).toNat := by decide
  have hrange : 7 * (4151 : UInt64).toNat < 2 ^ 64 := by decide
  obtain ⟨a, ha, hlanes⟩ := negotiate_surplus 4151 ⟨0, 150, 150, 150, 0, 0, 0⟩ hfloors hrange
  obtain ⟨hscaled, hresend⟩ := (hlanes .resend).1 surplus_resend
  have hland : ¬ Surplus (4151 : UInt64).toNat ⟨0, 150, 150, 150, 0, 0, 0⟩ .land :=
    fun h ↦ absurd h.modest (by decide)
  exact ⟨hfloors, hrange, a, ha, hscaled, hresend, (hlanes .land).2 hland⟩

/-- **What is granted is not bounded by the requests and the floors.** -/
theorem not_applied_le_max :
    ¬ ∀ (limit : UInt64) (requested : Rates), Lane.floorTotal ≤ limit.toNat →
      7 * limit.toNat < 2 ^ 64 → ∃ a, negotiate limit requested = .ok a ∧
        ∀ lane, (a.applied.get lane).toNat ≤ max (requested.get lane).toNat lane.floor := by
  intro h
  have hfloors : Lane.floorTotal ≤ (4151 : UInt64).toNat := by decide
  have hrange : 7 * (4151 : UInt64).toNat < 2 ^ 64 := by decide
  obtain ⟨a, ha, hle⟩ := h 4151 ⟨0, 150, 150, 150, 0, 0, 0⟩ hfloors hrange
  obtain ⟨a', ha', -, happlied⟩ := exists_negotiate_of_excess hfloors hrange surplus_resend.scaled
  obtain rfl := Except.ok.inj (ha.symm.trans ha')
  have hresend := hle .resend
  rw [happlied, surplus_resend.fillUp_shares hfloors] at hresend
  exact absurd hresend (by decide)

end Rates

end DatagramCircuits
