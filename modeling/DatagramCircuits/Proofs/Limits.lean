import DatagramCircuits.Proofs.Acceptance
import DatagramCircuits.Proofs.Recall
import Mathlib.Algebra.Order.BigOperators.Group.List
/-!
# Numbers that grow with the settings

How far a zero-coded body may expand, at how many octets acknowledgements are due, and the sum of the
rates that a peer asks for once they are cut down to the limit of a circuit: these grow with the
settings. **They are in range** if the MTU and the limit are small enough (`Config.Fits`); where they are
not, there are rates that can not be negotiated (`Rates.negotiable_iff`) and datagrams of which a
circuit knows nothing to make (`Circuit.receive_of_excess`).

**A warning is never in range.** It names the sum of the rates that a peer asks for as they are, and no
limit makes that any smaller (`Rates.adjustable_iff`).

What a circuit is to remember, and when its timers run out, is settled by the settings and the clock alone.
A circuit can be opened exactly if there is room for the one, and the clock can show the other
(`Circuit.exists_opened_iff`).
-/

namespace DatagramCircuits

/-! ### Settings -/

namespace Config

variable {config : Config}

/-- A zero-coded body may expand as far as it should, the limit of a circuit can be summed up over all
lanes, and nobody reads what sum of rates a peer asked for. -/
structure Fits (config : Config) : Prop where
  mtu : Datagram.expansionFactor * config.mtu < 2 ^ 64
  circuitRate : Lane.all.length * config.circuitRate.toNat < 2 ^ 64
  warnings : config.warnings = false

/-- There is room for the numbers that a circuit is to remember, and the clock can show when the timers of a
circuit run out that are set now. -/
structure Opens (config : Config) (now : Instant) : Prop where
  seenCapacity : config.seenCapacity ≤ maxCapacity
  resendDue : now + config.resendInterval < Instant.horizon
  ackDue : now + config.ackInterval < Instant.horizon
  pingDue : now + config.pingInterval < Instant.horizon

/-- The octets after which acknowledgements are due are in range. -/
theorem Fits.threshold (h : config.Fits) : Circuit.ackThreshold * config.mtu < 2 ^ 64 := by
  have hmtu := h.mtu
  rw [Datagram.expansionFactor] at hmtu
  rw [Circuit.ackThreshold]
  omega

/-- The limit of a circuit has room for the least rate of every lane. -/
theorem Valid.floorTotal_le (h : config.Valid) : Lane.floorTotal ≤ config.circuitRate.toNat := by
  have hrule := config.valid_iff.1 h
    (.circuitRate config.circuitRate, decide (config.circuitRate.toNat < Lane.floorTotal)) (by simp [rules])
  exact Nat.not_lt.1 (of_decide_eq_false hrule)

theorem Valid.minTimeout_le (h : config.Valid) : config.minTimeout ≤ config.maxTimeout := by
  have hrule := config.valid_iff.1 h (.timeoutBounds config.minTimeout config.maxTimeout,
    decide (config.maxTimeout < config.minTimeout)) (by simp [rules])
  exact Nat.not_lt.1 (of_decide_eq_false hrule)

theorem Valid.inboxCapacity_pos (h : config.Valid) : 0 < config.inboxCapacity := by
  have hrule := config.valid_iff.1 h
    (.capacityZero, config.inboxCapacity == 0 || config.jobCapacity == 0) (by simp [rules])
  simp only [Bool.or_eq_false_iff, beq_eq_false_iff_ne] at hrule
  exact Nat.pos_of_ne_zero hrule.1

end Config

/-! ### Rates -/

namespace Rates

variable {limit : UInt64} {n : Nat}

theorem sum_eq (t : PerLane Nat) : sum t = (Lane.all.map t.get).sum :=
  (List.sum_eq_foldl ..).symm

/-- A sum over the lanes is at most as many times the greatest summand. -/
theorem sum_le {t : PerLane Nat} (h : ∀ lane, t.get lane ≤ n) : sum t ≤ Lane.all.length * n := by
  have hle := List.sum_le_card_nsmul (Lane.all.map t.get) n fun k hk ↦ by
    obtain ⟨lane, -, rfl⟩ := List.mem_map.1 hk
    exact h lane
  rw [List.length_map] at hle
  rw [sum_eq]
  exact hle

theorem sum_replicate (n : Nat) : sum (PerLane.replicate n) = Lane.all.length * n := by
  rw [sum_eq]
  simp [Lane.all]
  omega

/-- A negotiation comes to a result if the rates can be summed up once they are cut down. -/
theorem exists_negotiate {requested : Rates} (h : sum (clamped limit.toNat requested) < UInt64.size) :
    ∃ a, negotiate limit requested = .ok a := by
  have htotal := within64_eq_ok_iff.2 ⟨h, rfl⟩
  rw [negotiate, htotal]
  dsimp only [bind, Except.bind]
  split <;> exact ⟨_, rfl⟩

theorem floor_le_floorTotal (lane : Lane) : lane.floor ≤ Lane.floorTotal := by
  cases lane <;> decide

/-- No rate is cut down to more than the limit, provided that there is room for all floors. -/
theorem clamped_le (h : Lane.floorTotal ≤ n) (requested : Rates) (lane : Lane) :
    (clamped n requested).get lane ≤ n := by
  have hfloor := Nat.le_trans (floor_le_floorTotal lane) h
  rw [clamped, PerLane.get_ofFn]
  omega

/-- Where the limit fits, all rates can be negotiated. -/
theorem exists_negotiate_of_fits (h : Lane.floorTotal ≤ limit.toNat)
    (hlimit : Lane.all.length * limit.toNat < UInt64.size) (requested : Rates) :
    ∃ a, negotiate limit requested = .ok a :=
  exists_negotiate (Nat.lt_of_le_of_lt (sum_le (clamped_le h requested)) hlimit)

/-- The largest rate on every lane is cut down to the limit. -/
theorem clamped_largest (h : Lane.floorTotal ≤ limit.toNat) :
    clamped limit.toNat (PerLane.replicate (UInt64.ofNat (UInt64.size - 1))) =
      PerLane.replicate limit.toNat := by
  refine PerLane.ext fun lane ↦ ?_
  have hfloor := Nat.le_trans (floor_le_floorTotal lane) h
  have hlimit := limit.toNat_lt
  have hlargest : (UInt64.ofNat (UInt64.size - 1)).toNat = 2 ^ 64 - 1 := rfl
  rw [clamped, PerLane.get_ofFn, PerLane.get_replicate, PerLane.get_replicate, hlargest]
  omega

/-- The packed form in which every lane has the largest number of all. -/
def largestPacked : Octets :=
  (List.replicate 7 [0xFF, 0xFF, 0x7F, 0x7F]).flatten

/-- The largest numbers that a datagram can say are read as the largest rates. -/
theorem ofPacked_largestPacked :
    ofPacked largestPacked = PerLane.replicate (UInt64.ofNat (UInt64.size - 1)) := by
  decide +kernel

/-- Where it does not fit, the largest rates can not be negotiated. -/
theorem negotiate_largest (h : Lane.floorTotal ≤ limit.toNat)
    (hexcess : UInt64.size ≤ Lane.all.length * limit.toNat) :
    negotiate limit (ofPacked largestPacked) = .error .overflow := by
  have hfault : within64 (Lane.all.length * limit.toNat) = .error .overflow :=
    if_neg (Nat.not_lt.2 hexcess)
  rw [negotiate, ofPacked_largestPacked, clamped_largest h, sum_replicate, hfault]
  rfl

/-- **Every request can be negotiated** if the limit can be summed up over all lanes. Otherwise the
largest rates that a peer can ask for can not. -/
theorem negotiable_iff (h : Lane.floorTotal ≤ limit.toNat) :
    (∀ packed, ∃ a, negotiate limit (ofPacked packed) = .ok a) ↔
      Lane.all.length * limit.toNat < 2 ^ 64 := by
  constructor
  · intro hany
    obtain ⟨a, ha⟩ := hany largestPacked
    refine Nat.lt_of_not_le fun hexcess ↦ ?_
    rw [negotiate_largest h hexcess] at ha
    cases ha
  · exact fun hlimit packed ↦ exists_negotiate_of_fits h hlimit _

/-- The largest rates are scaled down in every negotiation, so that their sum is to be named. -/
theorem warn_largest (h : Lane.floorTotal ≤ limit.toNat) {a : Adjustment}
    (ha : negotiate limit (ofPacked largestPacked) = .ok a) : a.warn true = .error .overflow := by
  have hpositive : limit.toNat < Lane.all.length * limit.toNat := by
    have hfloor : 0 < Lane.floorTotal := by decide
    rw [show Lane.all.length = 7 from rfl]
    omega
  have hrequested : a.requested = ofPacked largestPacked ∧ a.scaled = true := by
    obtain ⟨total, htotal, ha⟩ := bind_eq_ok_iff.1 ha
    obtain ⟨-, rfl⟩ := within64_eq_ok_iff.1 htotal
    rw [ofPacked_largestPacked, clamped_largest h, sum_replicate, if_neg (Nat.not_le.2 hpositive)] at ha
    rw [← Except.ok.inj ha]
    exact ⟨ofPacked_largestPacked.symm, rfl⟩
  have htotal : within64 (ofPacked largestPacked).total = .error .overflow := by
    rw [ofPacked_largestPacked]
    decide +kernel
  rw [Adjustment.warn, hrequested.1, hrequested.2, htotal]
  rfl

/-- **Every request can be granted without a fault** if the limit can be summed up over all lanes, and
nobody reads warnings. -/
theorem adjustable_iff (h : Lane.floorTotal ≤ limit.toNat) (warnings : Bool) :
    (∀ packed, ∃ a, negotiate limit (ofPacked packed) = .ok a ∧ a.warn warnings = .ok ()) ↔
      Lane.all.length * limit.toNat < 2 ^ 64 ∧ warnings = false := by
  constructor
  · intro hany
    refine ⟨(negotiable_iff h).1 fun packed ↦ (hany packed).imp fun _ ↦ And.left, ?_⟩
    obtain ⟨a, ha, hwarn⟩ := hany largestPacked
    by_contra hread
    rw [Bool.eq_true_of_not_eq_false hread, warn_largest h ha] at hwarn
    cases hwarn
  · rintro ⟨hlimit, rfl⟩ packed
    obtain ⟨a, ha⟩ := (negotiable_iff h).2 hlimit packed
    exact ⟨a, ha, a.warn_false⟩

end Rates

/-- If the limit can be summed up over all lanes, and nobody reads warnings, rates are changed without a
fault. -/
theorem Allowance.exists_renegotiate {a : Allowance} (h : Lane.floorTotal ≤ a.limit.toNat)
    (hlimit : Lane.all.length * a.limit.toNat < UInt64.size) (requested : Rates) (now : Instant)
    (f : Forest) : ∃ r, a.renegotiate false requested now f = .ok r := by
  obtain ⟨adjustment, hgranted⟩ := Rates.exists_negotiate_of_fits h hlimit requested
  rw [renegotiate, hgranted]
  exact ⟨_, rfl⟩

/-- If the limit can not be summed up over all lanes, or somebody reads warnings, the largest rates are at
fault. -/
theorem Allowance.renegotiate_largest {a : Allowance} {warnings : Bool}
    (h : Lane.floorTotal ≤ a.limit.toNat)
    (hexcess : UInt64.size ≤ Lane.all.length * a.limit.toNat ∨ warnings = true) (now : Instant)
    (f : Forest) :
    a.renegotiate warnings (Rates.ofPacked Rates.largestPacked) now f = .error .overflow := by
  cases hgranted : Rates.negotiate a.limit (Rates.ofPacked Rates.largestPacked) with
  | error fault =>
    have hall : UInt64.size ≤ Lane.all.length * a.limit.toNat := by
      by_contra hlimit
      obtain ⟨adjustment, hok⟩ := Rates.exists_negotiate_of_fits h (Nat.lt_of_not_le hlimit) _
      rw [hgranted] at hok
      cases hok
    rw [renegotiate, Rates.negotiate_largest h hall]
    rfl
  | ok adjustment =>
    obtain hall | rfl := hexcess
    · rw [Rates.negotiate_largest h hall] at hgranted
      cases hgranted
    · have hwarn := Rates.warn_largest h hgranted
      rw [renegotiate, hgranted]
      change adjustment.warn true >>= _ = _
      rw [hwarn]
      rfl

/-! ### Circuits -/

namespace Circuit

variable {c : Circuit} {p : Packet} {length : Nat} {now : Instant} {config : Config}

/-- A circuit can begin if there is room for what it is to remember, and the clock can show its timers. -/
theorem exists_begun_iff (hbounds : config.minTimeout ≤ config.maxTimeout) {session : Session}
    {address : Address} {allowance : Allowance} :
    (∃ c, begun session address config allowance now = .ok c) ↔ config.Opens now := by
  have hround : ∃ r, RoundTrip.unsampled config.initialTimeout config.minTimeout config.maxTimeout
      config.smoothing = .ok r := ⟨_, if_pos hbounds⟩
  obtain ⟨r, hround⟩ := hround
  constructor
  · rintro ⟨c, h⟩
    obtain ⟨roundTrip, -, h⟩ := bind_eq_ok_iff.1 h
    obtain ⟨tracker, htracker, h⟩ := bind_eq_ok_iff.1 h
    obtain ⟨resendDue, hresend, h⟩ := bind_eq_ok_iff.1 h
    obtain ⟨ackDue, hack, h⟩ := bind_eq_ok_iff.1 h
    obtain ⟨pingDue, hping, -⟩ := bind_eq_ok_iff.1 h
    obtain ⟨seen, hseen, -⟩ := bind_eq_ok_iff.1 htracker
    obtain ⟨capacity, hcapacity, -⟩ := bind_eq_ok_iff.1 hseen
    refine ⟨?_, (Instant.after_eq_ok_iff.1 hresend).1, (Instant.after_eq_ok_iff.1 hack).1,
      (Instant.after_eq_ok_iff.1 hping).1⟩
    by_contra hroom
    rw [withinCapacity, if_neg hroom] at hcapacity
    cases hcapacity
  · intro h
    have hcapacity : withinCapacity config.seenCapacity = .ok config.seenCapacity :=
      if_pos h.seenCapacity
    have hresend := Instant.after_eq_ok_iff.2 ⟨h.resendDue, rfl⟩
    have hack := Instant.after_eq_ok_iff.2 ⟨h.ackDue, rfl⟩
    have hping := Instant.after_eq_ok_iff.2 ⟨h.pingDue, rfl⟩
    have htracker : ∃ t, Tracker.create r config.seenCapacity = .ok t :=
      ⟨_, bind_eq_ok_iff.2 ⟨_, bind_eq_ok_iff.2 ⟨_, hcapacity, rfl⟩, rfl⟩⟩
    obtain ⟨t, htracker⟩ := htracker
    rw [begun, hround]
    change ∃ c, (Tracker.create r config.seenCapacity >>= _) = .ok c
    rw [htracker, hresend, hack, hping]
    exact ⟨_, rfl⟩

/-- **A circuit can be opened** exactly if it can begin, where the initial rates can be negotiated. -/
theorem exists_opened_iff (hvalid : config.Valid)
    (hlimit : Lane.all.length * config.circuitRate.toNat < 2 ^ 64) (session : Session)
    (address : Address) (root : BucketId) (now : Instant) (f : Forest) :
    (∃ r, opened session address config root now f = .ok r) ↔ config.Opens now := by
  obtain ⟨adjustment, hgranted⟩ := Rates.exists_negotiate_of_fits hvalid.floorTotal_le hlimit
    (session.initialRates.getD config.defaultRates)
  have hallowance : ∃ r, Allowance.opened root config.circuitRate
      (session.initialRates.getD config.defaultRates) config.burstTime config.mtu now f = .ok r := by
    rw [Allowance.opened, hgranted]
    exact ⟨_, rfl⟩
  obtain ⟨⟨allowance, f'⟩, hallowance⟩ := hallowance
  have hbegun : (∃ c, begun session address config allowance now = .ok c) ↔ config.Opens now :=
    exists_begun_iff hvalid.minTimeout_le
  rw [← hbegun]
  constructor
  · rintro ⟨⟨c, g⟩, hopened⟩
    obtain ⟨allowance', hsame, hbegun⟩ := opened_eq_ok_iff.1 hopened
    obtain ⟨rfl, -⟩ := Prod.mk.inj (Except.ok.inj (hallowance.symm.trans hsame))
    exact ⟨c, hbegun⟩
  · rintro ⟨c, hbegun⟩
    exact ⟨(c, f'), opened_eq_ok_iff.2 ⟨allowance, hallowance, hbegun⟩⟩

/-- A circuit knows what to make of every datagram, if the octets to be acknowledged and the threshold
can be counted. -/
theorem exists_receive (hmtu : ackThreshold * c.config.mtu < UInt64.size)
    (hbytes : c.tracker.ackBytes + length < UInt64.size) (p : Packet) (now : Instant) :
    ∃ d, (c.receive p length now).1 = .ok d := by
  cases hclosed : c.isClosed with
  | true => exact ⟨.closed, by rw [receive, hclosed, if_pos rfl]⟩
  | false =>
    by_cases hp : p.isReliable = true
    · exact ⟨_, receive_fst hclosed hp hbytes hmtu⟩
    · exact ⟨.accept false, by rw [receive, hclosed, if_neg Bool.false_ne_true, if_neg hp]⟩

/-- Of a new reliable datagram a circuit knows nothing to make, if the threshold can not be counted. -/
theorem receive_of_excess (hopen : c.isClosed = false) (hp : p.isReliable = true)
    (hnew : c.tracker.seen.members.contains p.header.sequence = false)
    (hbytes : c.tracker.ackBytes + length < UInt64.size)
    (hmtu : UInt64.size ≤ ackThreshold * c.config.mtu) :
    (c.receive p length now).1 = .error .overflow := by
  obtain ⟨hsame, hseen⟩ := ackBytes_acknowledgeAll p.acks now c.tracker
  rw [receive, hopen, if_neg Bool.false_ne_true, if_pos hp, receiveReliable_fst]
  · have hfault : within64 (ackThreshold * c.config.mtu) = .error .overflow :=
      if_neg (Nat.not_lt.2 hmtu)
    simp only [acknowledge, hseen, hnew, hfault]
    rfl
  · exact hsame.symm ▸ hbytes

end Circuit

end DatagramCircuits
