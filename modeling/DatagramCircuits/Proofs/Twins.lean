import DatagramCircuits.Circuit.Neighbours
import DatagramCircuits.Proofs.Sight
/-!
# A circuit in two forests

What a circuit does depends on the forest only as far as the forest answers it: whether a withdrawal is
granted, and which rates the lanes have. In two forests in which its buckets are seen to be the same, a
circuit gives the same answer to everything and becomes the same circuit, and the forests go on to be seen
to be the same (`Circuit.alike_apply`).

**Computations with parallel results** are related by `Alike`: both fail or both have results, and those
are related. The proofs follow a computation step by step, from a withdrawal for a lane to the whole tick.
What a fault leaves behind is the same as well (`Circuit.twins_afterFault`).
-/

namespace DatagramCircuits

/-- Two computations fail in ways that are related, or have results that are related. -/
inductive Alike {ε δ α β : Type} (E : ε → δ → Prop) (R : α → β → Prop) :
    Except ε α → Except δ β → Prop
  /-- Both fail. -/
  | error {e : ε} {d : δ} (h : E e d) : Alike E R (.error e) (.error d)
  /-- Both have results. -/
  | ok {a : α} {b : β} (h : R a b) : Alike E R (.ok a) (.ok b)

namespace Alike

variable {ε δ ε' δ' α β α' β' : Type} {E : ε → δ → Prop} {E' : ε' → δ' → Prop} {R : α → β → Prop}
  {S : α' → β' → Prop}

/-- Computations in two parts are alike if both parts are. -/
theorem bind {x : Except ε α} {y : Except δ β} {f : α → Except ε α'} {g : β → Except δ β'}
    (h : Alike E R x y) (hrest : ∀ a b, R a b → Alike E S (f a) (g b)) :
    Alike E S (x >>= f) (y >>= g) := by
  cases h with
  | error h => exact .error h
  | ok h => exact hrest _ _ h

/-- If the first part is the same, only the second one matters. -/
theorem bind_same (x : Except ε α) {f : α → Except ε α'} {g : α → Except ε β'}
    (hrest : ∀ a, x = .ok a → Alike Eq S (f a) (g a)) : Alike Eq S (x >>= f) (x >>= g) := by
  cases x with
  | error e => exact .error rfl
  | ok a => exact hrest a rfl

/-- Failures may be told in other ways. -/
theorem mapError {x : Except ε α} {y : Except δ β} (h : Alike E R x y) {p : ε → ε'} {q : δ → δ'}
    (hrest : ∀ e d, E e d → E' (p e) (q d)) : Alike E' R (x.mapError p) (y.mapError q) := by
  cases h with
  | error h => exact .error (hrest _ _ h)
  | ok h => exact .ok h

/-- Either way, both say the same about whether there is a result. -/
theorem exists_eq {x : Except ε α} {y : Except δ β} (h : Alike E R x y) :
    (∃ e d, x = .error e ∧ y = .error d ∧ E e d) ∨ ∃ a b, x = .ok a ∧ y = .ok b ∧ R a b := by
  cases h with
  | error h => exact .inl ⟨_, _, rfl, rfl, h⟩
  | ok h => exact .inr ⟨_, _, rfl, rfl, h⟩

end Alike

namespace Turn

variable {a : Allowance} {root : BucketId} {t u : Turn} {now : Instant}

/-- Two turns differ in the forest only, and there the buckets of the circuit are seen to be the same. -/
def Twins (a : Allowance) (root : BucketId) (t u : Turn) : Prop :=
  t.circuit.allowance = a ∧ ∃ g, u = { t with forest := g } ∧ a.Twins root t.forest g

/-- The same, where something else comes with each turn. -/
def TwinsWith {β : Type} (a : Allowance) (root : BucketId) (x y : β × Turn) : Prop :=
  x.1 = y.1 ∧ Twins a root x.2 y.2

/-- What is done with a turn without its forest is done with both. -/
theorem Twins.map (h : Twins a root t u) (change : Turn → Turn)
    (hforest : ∀ t g, change { t with forest := g } = { change t with forest := g })
    (hkept : (change t).forest = t.forest)
    (hallowance : (change t).circuit.allowance = t.circuit.allowance) :
    Twins a root (change t) (change u) := by
  obtain ⟨rfl, g, rfl, htwins⟩ := h
  exact ⟨hallowance, g, hforest t g, by rwa [hkept]⟩

theorem Twins.checks (h : Twins a root t u) (now : Instant) :
    Twins a root (((t.checkResends now).checkAcks now).checkPing now)
      (((u.checkResends now).checkAcks now).checkPing now) := by
  refine Twins.map (Twins.map (h.map (checkResends now) (fun t g ↦ ?_) (forest_checkResends now t)
    (Circuit.allowance_of_standing (keeps_checkResends now t).standing)) (checkAcks now) (fun t g ↦ ?_)
    (forest_checkAcks now _) (Circuit.allowance_of_standing (keeps_checkAcks now _).standing))
    (checkPing now) (fun t g ↦ ?_) (forest_checkPing now _)
    (Circuit.allowance_of_standing (keeps_checkPing now _).standing)
  · rw [checkResends, checkResends]
    dsimp only
    split <;> rfl
  · unfold checkAcks
    dsimp only
    split <;> rfl
  · rw [checkPing, checkPing]
    dsimp only
    split <;> rfl

theorem Twins.serveLane (h : Twins a root t u) (lane : Lane) (now : Instant) :
    Alike (TwinsWith a root) (TwinsWith a root) (t.serveLane lane now) (u.serveLane lane now) := by
  obtain ⟨rfl, g, rfl, htwins⟩ := h
  rw [Turn.serveLane, Turn.serveLane]
  dsimp only
  generalize (t.circuit.queues.get lane).take? t.circuit.isUseful = taken
  obtain ⟨_ | p, q⟩ := taken
  · exact .ok ⟨rfl, rfl, g, rfl, htwins⟩
  · obtain ⟨hgranted, hforests⟩ := htwins.withdraw (.throttled lane) p.length now
    dsimp only
    generalize t.circuit.allowance.withdraw (.throttled lane) p.length now t.forest = x at *
    generalize t.circuit.allowance.withdraw (.throttled lane) p.length now g = y at *
    obtain ⟨granted, f'⟩ := x
    obtain ⟨granted', g'⟩ := y
    obtain rfl : granted = granted' := hgranted
    cases granted with
    | false => exact .ok ⟨rfl, rfl, g', rfl, hforests⟩
    | true =>
      dsimp only
      cases hsent : { t.circuit with queues := t.circuit.queues.set lane q }.transmit p now with
      | ok r =>
        refine .ok ⟨rfl, ?_, g', rfl, hforests⟩
        have hkept := Circuit.untouched_background.transmit hsent
        exact Circuit.allowance_of_standing (Circuit.standing_of_background hkept)
      | error fault =>
        refine .error ⟨rfl, ?_, g', rfl, hforests⟩
        have hkept := Circuit.untouched_background.spoiled p
          { t.circuit with queues := t.circuit.queues.set lane q }
        exact Circuit.allowance_of_standing (Circuit.standing_of_background hkept)

theorem Twins.serveResends (h : Twins a root t u) (now : Instant) :
    Alike (TwinsWith a root) (Twins a root) (t.serveResends now) (u.serveResends now) := by
  refine (h.serveLane .resend now).bind fun x y hxy ↦ ?_
  obtain ⟨d, t⟩ := x
  obtain ⟨d', u⟩ := y
  obtain ⟨rfl : d = d', rfl, g, rfl, htwins⟩ := hxy
  cases d <;> exact .ok ⟨rfl, g, rfl, htwins⟩

theorem Twins.serveOrdinary (h : Twins a root t u) (now : Instant) (lane : Lane) :
    Alike (TwinsWith a root) (Twins a root) (t.serveOrdinary now lane) (u.serveOrdinary now lane) := by
  refine (h.serveLane lane now).bind fun x y hxy ↦ ?_
  obtain ⟨d, t⟩ := x
  obtain ⟨d', u⟩ := y
  obtain ⟨rfl : d = d', rfl, g, rfl, htwins⟩ := hxy
  dsimp only [emit]
  split <;> exact .ok ⟨rfl, g, rfl, htwins⟩

theorem Twins.foldlM (h : Twins a root t u) (now : Instant) (lanes : List Lane) :
    Alike (TwinsWith a root) (Twins a root) (lanes.foldlM (Turn.serveOrdinary now) t)
      (lanes.foldlM (Turn.serveOrdinary now) u) := by
  induction lanes generalizing t u with
  | nil => exact .ok h
  | cons lane lanes ih =>
    rw [List.foldlM_cons, List.foldlM_cons]
    exact (h.serveOrdinary now lane).bind fun t u h ↦ ih h

theorem Twins.serveLanes (h : Twins a root t u) (now : Instant) :
    Alike (TwinsWith a root) (Twins a root) (t.serveLanes now) (u.serveLanes now) := by
  refine (h.serveResends now).bind fun t u h ↦ ?_
  obtain ⟨-, g, rfl, htwins⟩ := id h
  show Alike _ _ (if t.isStalled then _ else _) (if t.isStalled then _ else _)
  split
  · exact .ok (h.map (fun t ↦ { t with output := { t.output with stalled := true } })
      (fun _ _ ↦ rfl) rfl rfl)
  · exact h.foldlM now Lane.ordinary

end Turn

namespace Circuit

variable {root : BucketId} {c : Circuit} {f g : Forest}

/-- **A tick** does the same in both forests. -/
theorem alike_tick (h : c.allowance.Twins root f g) (now : Instant) :
    Alike (Turn.TwinsWith c.allowance root) (Turn.Twins c.allowance root) (c.tick now f)
      (c.tick now g) := by
  have hstart : Turn.Twins c.allowance root { circuit := c, forest := f } { circuit := c, forest := g } :=
    ⟨rfl, g, rfl, h⟩
  rw [tick, tick]
  dsimp only
  split
  · exact .ok hstart
  · refine ((hstart.checks now).serveLanes now).bind fun t u htwins ↦ .ok ?_
    exact htwins.map Turn.count (fun _ _ ↦ rfl) rfl rfl

/-- **A negotiation** grants the same rates. -/
theorem alike_renegotiate (h : c.allowance.Twins root f g) (requested : Rates) (now : Instant) :
    Alike Eq (fun x y ↦ x.1 = y.1 ∧ c.allowance.Twins root x.2 y.2) (c.renegotiate requested now f)
      (c.renegotiate requested now g) := by
  refine Alike.bind_same (Rates.negotiate c.allowance.limit requested) fun adjustment _ ↦ ?_
  have htwins : c.allowance.Twins root (f.run (c.allowance.renegotiating adjustment.applied now))
      (g.run (c.allowance.renegotiating adjustment.applied now)) :=
    h.run fun _ ho ↦ Allowance.handles_renegotiating ho
  exact Alike.bind_same (adjustment.warn c.config.warnings) fun _ _ ↦ .ok ⟨rfl, htwins⟩

/-- **What a circuit answers and becomes is the same in both forests,** whatever is done with it. -/
theorem alike_apply (h : c.allowance.Twins root f g) (o : Operation) :
    Alike Eq (fun x y ↦ x.1 = y.1 ∧ x.2.1 = y.2.1 ∧ c.allowance.Twins root x.2.2 y.2.2) (c.apply o f)
      (c.apply o g) := by
  cases o with
  | tick now =>
    refine ((alike_tick h now).mapError fun _ _ hfail ↦ hfail.1).bind fun t u htwins ↦ .ok ?_
    obtain ⟨-, g', rfl, htwins⟩ := htwins
    exact ⟨rfl, rfl, htwins⟩
  | receive p length now => exact Alike.bind_same _ fun _ _ ↦ .ok ⟨rfl, rfl, h⟩
  | renegotiate requested now =>
    refine (alike_renegotiate h requested now).bind fun x y hxy ↦ .ok ?_
    exact ⟨congrArg Answer.adjusted hxy.1, rfl, hxy.2⟩
  | answerPing id =>
    rw [apply, apply]
    cases c.answerPing id <;> exact .ok ⟨rfl, rfl, h⟩
  | close =>
    rw [apply_close, apply_close]
    cases hclosed : c.isClosed with
    | true =>
      rw [close_of_closed hclosed, close_of_closed hclosed]
      exact .ok ⟨rfl, rfl, h⟩
    | false =>
      rw [close_of_open hclosed, close_of_open hclosed]
      exact .ok ⟨rfl, rfl, h.detach⟩
  | _ => exact .ok ⟨rfl, rfl, h⟩

/-- **What a fault leaves behind is the same in both forests.** -/
theorem twins_afterFault (h : c.allowance.Twins root f g) (o : Operation) :
    (c.afterFault o f).1 = (c.afterFault o g).1 ∧
      c.allowance.Twins root (c.afterFault o f).2 (c.afterFault o g).2 := by
  cases o with
  | tick now =>
    obtain ⟨⟨fault, t⟩, ⟨fault', u⟩, hx, hy, -, htwins⟩ | ⟨t, u, hx, hy, htwins⟩ :=
      (alike_tick h now).exists_eq
    · simp only [afterFault, hx, hy]
      obtain ⟨-, g', rfl, htwins⟩ := htwins
      exact ⟨rfl, htwins⟩
    · simp only [afterFault, hx, hy]
      obtain ⟨-, g', rfl, htwins⟩ := htwins
      exact ⟨rfl, htwins⟩
  | _ => exact ⟨rfl, h⟩

/-- What an inquiry finds is the same as well. -/
theorem find_congr (h : c.allowance.Twins root f g) (q : Inquiry) : c.find q f = c.find q g := by
  have hrates : c.rates f = c.rates g := h.rates
  cases q with
  | summary => rw [find, find, summary, summary, hrates]
  | packedRates multiplier => rw [find, find, hrates]
  | _ => rfl

end Circuit

/-! ### Opening -/

namespace Allowance

variable {P : BucketId → Prop} {f g : Forest} {total root : BucketId}

theorem agree_addLanes (h : Forest.Agree P f g) (htotal : P total) (burst : UInt64 → UInt64)
    (rates : Rates) (now : Instant) :
    (addLanes total burst rates now f).1 = (addLanes total burst rates now g).1 ∧
      Forest.Agree P (addLanes total burst rates now f).2 (addLanes total burst rates now g).2 := by
  have hadd {f g : Forest} (h : Forest.Agree P f g) (lane : Lane) :=
    h.addChild htotal (rates.get lane) (burst (rates.get lane)) now
  obtain ⟨h₁, hf₁⟩ := hadd h .resend
  obtain ⟨h₂, hf₂⟩ := hadd hf₁ .land
  obtain ⟨h₃, hf₃⟩ := hadd hf₂ .wind
  obtain ⟨h₄, hf₄⟩ := hadd hf₃ .cloud
  obtain ⟨h₅, hf₅⟩ := hadd hf₄ .task
  obtain ⟨h₆, hf₆⟩ := hadd hf₅ .texture
  obtain ⟨h₇, hf₇⟩ := hadd hf₆ .asset
  refine ⟨?_, hf₇⟩
  simp only [addLanes, h₁, h₂, h₃, h₄, h₅, h₆, h₇]

/-- What an opened allowance is made of. -/
theorem opened_eq {limit : UInt64} {initial : Rates} {adjustment : Adjustment}
    (h : Rates.negotiate limit initial = .ok adjustment) (root : BucketId) (burstTime : Span)
    (mtu : Nat) (now : Instant) (f : Forest) :
    opened root limit initial burstTime mtu now f =
      let total := f.addChild root limit (burstCapacity burstTime mtu limit) now
      let lanes := addLanes total.1 (burstCapacity burstTime mtu) adjustment.applied now total.2
      .ok ({ total := total.1, lanes := lanes.1, limit, burstTime, mtu }, lanes.2) := by
  rw [opened, h]
  rfl

/-- An allowance is opened alike in both, if the new buckets are to be seen. -/
theorem alike_opened (h : Forest.Agree P f g) (hroot : P root) (hnew : P f.buckets.length)
    (limit : UInt64) (initial : Rates) (burstTime : Span) (mtu : Nat) (now : Instant) :
    Alike Eq (fun x y ↦ x.1 = y.1 ∧ Forest.Agree P x.2 y.2)
      (opened root limit initial burstTime mtu now f)
      (opened root limit initial burstTime mtu now g) := by
  cases hgranted : Rates.negotiate limit initial with
  | error e =>
    rw [opened, opened, hgranted]
    exact .error rfl
  | ok adjustment =>
    obtain ⟨htotal, hfirst⟩ := h.addChild hroot limit (burstCapacity burstTime mtu limit) now
    have hplace := f.fst_addChild root limit (burstCapacity burstTime mtu limit) now
    obtain ⟨hlanes, hlast⟩ := agree_addLanes hfirst (hplace ▸ hnew) (burstCapacity burstTime mtu)
      adjustment.applied now
    rw [opened_eq hgranted, opened_eq hgranted]
    dsimp only
    rw [← htotal, ← hlanes]
    exact .ok ⟨rfl, hlast⟩

/-- The buckets of an opened allowance come behind those that there were. -/
theorem length_le_of_owns {a : Allowance} {f f' : Forest} {root j : BucketId} {b : Bucket}
    {limit : UInt64} {initial : Rates} {burstTime : Span} {mtu : Nat} {now : Instant}
    (h : opened root limit initial burstTime mtu now f = .ok (a, f')) (hroot : f.get? root = some b)
    (hj : a.Owns j) : f.buckets.length ≤ j := by
  obtain ⟨htotal, hlanes, -⟩ := opened_spec h hroot
  obtain rfl | ⟨lane, rfl⟩ := hj
  · exact Nat.le_of_eq htotal.symm
  · rw [hlanes, Nat.add_assoc]
    exact Nat.le_add_right ..

end Allowance

/-- A circuit is opened alike in both, and so are its buckets if it can not be. -/
theorem Circuit.alike_opened {P : BucketId → Prop} {f g : Forest} {root : BucketId}
    (h : Forest.Agree P f g) (hroot : P root) (hnew : P f.buckets.length) (session : Session)
    (address : Address) (config : Config) (now : Instant) :
    Alike (fun x y ↦ x.1 = y.1 ∧ Forest.Agree P x.2 y.2) (fun x y ↦ x.1 = y.1 ∧ Forest.Agree P x.2 y.2)
      (Circuit.opened session address config root now f)
      (Circuit.opened session address config root now g) := by
  refine ((Allowance.alike_opened h hroot hnew ..).mapError fun _ _ hfault ↦ ⟨hfault, h⟩).bind
    fun x y hxy ↦ ?_
  obtain ⟨a, f'⟩ := x
  obtain ⟨a', g'⟩ := y
  obtain ⟨rfl : a = a', hforests⟩ := hxy
  dsimp only
  cases Circuit.begun session address config a now with
  | ok c => exact .ok ⟨rfl, hforests⟩
  | error fault => exact .error ⟨rfl, hforests⟩

end DatagramCircuits
