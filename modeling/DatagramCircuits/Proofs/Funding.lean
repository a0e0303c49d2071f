import DatagramCircuits.Proofs.Changes
/-!
# The buckets of circuits

What opening an allowance, negotiating its rates and giving it back do to a forest, for the
allowances of all circuits at once. Three things are of interest about a bucket: what it draws from,
and for the total of a circuit also its rate and whether it is attached, and for the bucket of the
server what it has promised.

**An opened allowance comes behind all buckets there are,** its total first
(`Allowance.opened_spec`). The bucket of the server promises it the rate of the total, and is
released from that when the total is detached (`Allowance.detach_spec`). Rates of lanes are a matter
between them and their total (`Allowance.within_renegotiate`).

The buckets of a server come behind the bucket of the server, eight for each circuit in the order of
their set-up. So no two circuits share one, and **the bucket of the server has promised the limit of
each open circuit** (`Server.Funded`), whatever change is made. A fault that keeps a circuit from being
opened leaves its eight buckets behind, and its limit promised for good (`Server.forfeited`).
-/

namespace DatagramCircuits

namespace Allowance

variable {a : Allowance} {f f' : Forest} {total root j : BucketId} {now : Instant} {b t : Bucket}
  {limit : UInt64}

/-- A bucket is one of the lanes of the allowance. -/
def IsLane (a : Allowance) (j : BucketId) : Prop :=
  ∃ lane, j = a.lanes.get lane

/-- The lanes of the allowance draw from its total first. -/
def Rooted (a : Allowance) (f : Forest) : Prop :=
  ∀ lane, ∃ b, f.get? (a.lanes.get lane) = some b ∧ b.ancestors.head? = some a.total

theorem Rooted.within {lanes : BucketId → Prop} (h : a.Rooted f) (hf : Forest.Within total lanes f f') :
    a.Rooted f' := by
  intro lane
  obtain ⟨b, hb, hhead⟩ := h lane
  obtain ⟨b', hb', hancestors, -⟩ := hf _ b hb
  exact ⟨b', hb', hancestors ▸ hhead⟩

/-! ### Changing the lanes -/

/-- What is done with one lane after another stays below the total. -/
theorem within_foldl {change : Forest → Lane → Forest}
    (hchange : ∀ f lane, a.Rooted f → Forest.Within a.total a.IsLane f (change f lane))
    (h : a.Rooted f) (lanes : List Lane) :
    Forest.Within a.total a.IsLane f (lanes.foldl change f) := by
  induction lanes generalizing f with
  | nil => exact .refl
  | cons lane lanes ih =>
    have hfirst := hchange f lane h
    exact hfirst.trans (ih (h.within hfirst))

/-- **Negotiating anew** stays below the total. -/
theorem within_renegotiate {warnings : Bool} {requested : Rates} {adjustment : Adjustment}
    (hrooted : a.Rooted f) (h : a.renegotiate warnings requested now f = .ok (adjustment, f')) :
    Forest.Within a.total a.IsLane f f' := by
  obtain ⟨adjustment', -, h⟩ := bind_eq_ok_iff.1 h
  obtain ⟨-, -, h⟩ := bind_eq_ok_iff.1 h
  obtain ⟨-, rfl⟩ := Prod.mk.inj (Except.ok.inj h)
  refine within_foldl (fun f lane hrooted ↦ ?_) hrooted _
  obtain ⟨b, hb, hhead⟩ := hrooted lane
  exact Forest.within_setRate ⟨lane, rfl⟩ hb hhead

/-- Detaching the lanes is done below the total. -/
theorem within_detachLanes (hrooted : a.Rooted f) :
    Forest.Within a.total a.IsLane f (a.lanes.toList.foldl Forest.detach f) := by
  rw [PerLane.toList, List.foldl_map]
  refine within_foldl (fun f lane hrooted ↦ ?_) hrooted _
  obtain ⟨b, hb, hhead⟩ := hrooted lane
  exact Forest.within_detach ⟨lane, rfl⟩ hb hhead

/-- **Giving an allowance back.** Apart from its lanes, its total is detached, and the bucket that
the total draws from is released from its promise. -/
theorem detach_spec (hrooted : a.Rooted f) (ht : f.get? a.total = some t)
    (hattached : t.attached = true) (hparent : t.ancestors.head? = some root) (hroot : a.total ≠ root)
    (hlane : ¬a.IsLane a.total) (hb : f.get? j = some b) :
    ∃ b', (a.detach f).get? j = some b' ∧ b'.ancestors = b.ancestors ∧
      (¬a.IsLane j → b'.rate = b.rate ∧
        b'.attached = if j = a.total then false else b.attached) ∧
      (j = root → b'.committed = b.committed - t.rate) := by
  have hlanes := within_detachLanes hrooted
  obtain ⟨t₁, ht₁, hancestors₁, hkept₁, -⟩ := hlanes _ t ht
  obtain ⟨b₁, hb₁, hancestors, hkept, hcommitted⟩ := hlanes j b hb
  have hrate₁ := (hkept₁ hlane).1
  rw [detach, Forest.detach, ht₁]
  dsimp only
  rw [if_pos ((hkept₁ hlane).2.trans hattached), Forest.parent?_eq ht₁, hancestors₁, hparent,
    Forest.recommit, Forest.get?_modify, Forest.get?_modify, hb₁]
  by_cases hjroot : root = j
  · subst hjroot
    rw [if_pos rfl, if_neg hroot, Option.map_some]
    refine ⟨_, rfl, hancestors, fun hj ↦ ?_, fun _ ↦ ?_⟩
    · rw [if_neg (Ne.symm hroot)]
      exact hkept hj
    · dsimp only
      rw [hcommitted (Ne.symm hroot), hrate₁]
  · rw [if_neg hjroot]
    by_cases hjtotal : a.total = j
    · rw [if_pos hjtotal, Option.map_some]
      refine ⟨_, rfl, hancestors, fun hj ↦ ⟨(hkept hj).1, ?_⟩, fun h ↦ absurd h.symm hjroot⟩
      rw [if_pos hjtotal.symm]
    · rw [if_neg hjtotal]
      refine ⟨b₁, rfl, hancestors, fun hj ↦ ?_, fun h ↦ absurd h.symm hjroot⟩
      rw [if_neg (Ne.symm hjtotal)]
      exact hkept hj

/-! ### Opening -/

/-- Since a total was added as the last bucket of the first forest, lanes below it were added. -/
structure Grown (f f' : Forest) : Prop where
  within : Forest.Within (f.buckets.length - 1) (fun _ ↦ False) f f'
  lanes : ∀ j, f.buckets.length ≤ j → j < f'.buckets.length →
    ∃ b, f'.get? j = some b ∧ b.ancestors.head? = some (f.buckets.length - 1)

/-- One more bucket below the total of a growing allowance. -/
theorem Grown.addChild (h : Grown f f') (rate burst : UInt64) (now : Instant) :
    Grown f (f'.addChild (f.buckets.length - 1) rate burst now).2 := by
  refine ⟨h.within.trans Forest.within_addChild, fun j hlow hhigh ↦ ?_⟩
  rw [Forest.length_addChild] at hhigh
  rcases Nat.lt_or_ge j f'.buckets.length with hlt | hge
  · obtain ⟨b, hb, hhead⟩ := h.lanes j hlow hlt
    have hsame : Forest.Within (f.buckets.length - 1) (fun _ ↦ False) f'
        (f'.addChild (f.buckets.length - 1) rate burst now).2 := Forest.within_addChild
    obtain ⟨b', hb', hancestors, -⟩ := hsame j b hb
    exact ⟨b', hb', hancestors ▸ hhead⟩
  · obtain rfl : j = f'.buckets.length := by omega
    exact ⟨_, Forest.get?_addChild_self .., rfl⟩

/-- The lanes come one after another. -/
theorem addLanes_spec (burst : UInt64 → UInt64) (rates : Rates) (now : Instant) (f : Forest) :
    Grown f (addLanes (f.buckets.length - 1) burst rates now f).2 ∧
      (addLanes (f.buckets.length - 1) burst rates now f).2.buckets.length = f.buckets.length + 7 ∧
      ∀ lane, (addLanes (f.buckets.length - 1) burst rates now f).1.get lane =
        f.buckets.length + lane.index := by
  have hstart : Grown f f := ⟨.refl, fun j hlow hhigh ↦ absurd hlow (Nat.not_le.2 hhigh)⟩
  refine ⟨?_, ?_, fun lane ↦ ?_⟩
  · exact ((((((hstart.addChild ..).addChild ..).addChild ..).addChild ..).addChild ..).addChild
      ..).addChild ..
  · exact length_addLanes ..
  · have hplace : ∀ (f : Forest) total rate burst,
        (f.addChild total rate burst now).1 = f.buckets.length := fun _ _ _ _ ↦
      Forest.length_recommit ..
    cases lane <;>
      simp only [addLanes, PerLane.get, hplace, Forest.length_addChild, Lane.index, Nat.add_zero]

theorem limit_of_opened {initial : Rates} {burstTime : Span} {mtu : Nat}
    (h : opened root limit initial burstTime mtu now f = .ok (a, f')) : a.limit = limit := by
  obtain ⟨adjustment, -, h⟩ := bind_eq_ok_iff.1 h
  obtain ⟨rfl, -⟩ := Prod.mk.inj (Except.ok.inj h)
  rfl

/-- **Opening an allowance.** The bucket of the server promises the rate of the total, and all
buckets of the allowance are new. -/
theorem opened_spec {initial : Rates} {burstTime : Span} {mtu : Nat}
    (h : opened root limit initial burstTime mtu now f = .ok (a, f')) (hroot : f.get? root = some b) :
    a.total = f.buckets.length ∧ (∀ lane, a.lanes.get lane = f.buckets.length + 1 + lane.index) ∧
      f'.buckets.length = f.buckets.length + 8 ∧ a.Rooted f' ∧
      (∃ t, f'.get? a.total = some t ∧ t.ancestors = root :: b.ancestors ∧ t.rate = limit ∧
        t.attached = true) ∧
      ∀ j c, f.get? j = some c → ∃ c', f'.get? j = some c' ∧ c'.ancestors = c.ancestors ∧
        c'.rate = c.rate ∧ c'.attached = c.attached ∧
        c'.committed = if j = root then c.committed + limit else c.committed := by
  obtain ⟨htotal, burst, rates, hadded⟩ := exists_of_opened h
  -- the forest with the total in it, which is its last bucket
  have hnew := f.get?_addChild_self root limit (burst limit) now
  have hline : f.line root = root :: b.ancestors := by rw [Forest.line, hroot]; rfl
  have hold : ∀ j c, f.get? j = some c → (f.addChild root limit (burst limit) now).2.get? j =
      some (if root = j then { c with committed := c.committed + limit } else c) :=
    fun _ _ ↦ Forest.get?_addChild_of_get?
  have hlength := f.length_addChild root limit (burst limit) now
  generalize (f.addChild root limit (burst limit) now).2 = f₁ at *
  have hlast : f₁.buckets.length - 1 = a.total := by rw [hlength, htotal, Nat.add_sub_cancel]
  have hlanes := addLanes_spec burst rates now f₁
  rw [hlast, hadded, hlength] at hlanes
  obtain ⟨⟨hwithin, hrooted⟩, hcount, hindices⟩ := hlanes
  rw [hlast] at hwithin hrooted
  rw [← htotal] at hnew
  obtain ⟨t, ht, hancestors, hkept, -⟩ := hwithin _ _ hnew
  refine ⟨htotal, hindices, hcount, fun lane ↦ ?_, ⟨t, ht, hancestors.trans hline, hkept not_false⟩,
    fun j c hc ↦ ?_⟩
  · have hindex : lane.index < 7 := by cases lane <;> decide
    rw [hindices]
    exact hrooted _ (by omega) (by omega)
  · have hj : j ≠ a.total := Nat.ne_of_lt (htotal ▸ Forest.lt_length_of_get? hc)
    obtain ⟨c', hc', hancestors', hkept', hcommitted'⟩ := hwithin j _ (hold j c hc)
    refine ⟨c', hc', hancestors'.trans ?_, (hkept' not_false).1.trans ?_,
      (hkept' not_false).2.trans ?_, (hcommitted' hj).trans ?_⟩
    · split <;> rfl
    · split <;> rfl
    · split <;> rfl
    · simp only [apply_ite Bucket.committed, eq_comm (a := root)]

end Allowance

namespace Server

variable {s s' : Server} {k : List Effect} {id : CircuitId} {c : Circuit}

/-- How many circuits are open. -/
def openCount (s : Server) : Nat :=
  s.circuits.countP (!·.isClosed)

/-- How many groups of eight buckets belong to no circuit, as a fault kept it from being opened. -/
def forfeited (s : Server) : Nat :=
  (s.forest.buckets.length - 1) / 8 - s.circuits.length

/-- Where neither circuits nor buckets are added, nothing is forfeited. -/
theorem forfeited_of_extent (h : s'.extent = s.extent) : s'.forfeited = s.forfeited := by
  obtain ⟨hcircuits, hbuckets⟩ := Prod.mk.inj h
  rw [forfeited, forfeited, hcircuits, hbuckets]

/-- Each circuit has eight buckets of its own, and the bucket of the server has promised the limit of
each circuit that is open, and of those that could not be opened. -/
structure Funded (s : Server) : Prop where
  root : s.root = 0
  length : s.forest.buckets.length = 8 * (s.circuits.length + s.forfeited) + 1
  total : ∀ id c, s.circuit? id = some c →
    c.allowance.total % 8 = 1 ∧ c.allowance.total < s.forest.buckets.length
  apart : ∀ i j c d, s.circuit? i = some c → s.circuit? j = some d →
    c.allowance.total = d.allowance.total → i = j
  lanes : ∀ id c, s.circuit? id = some c → ∀ lane,
    c.allowance.lanes.get lane = c.allowance.total + 1 + lane.index
  rooted : ∀ id c, s.circuit? id = some c → c.allowance.Rooted s.forest
  attached : ∀ id c, s.circuit? id = some c → ∃ t, s.forest.get? c.allowance.total = some t ∧
    t.ancestors = [s.root] ∧ t.rate = s.config.circuitRate ∧ t.attached = !c.isClosed
  committed : ∃ b, s.forest.get? s.root = some b ∧ b.ancestors = [] ∧
    b.committed = s.config.circuitRate * UInt64.ofNat (s.openCount + s.forfeited)

/-- No circuit has the root as its total. -/
theorem Funded.root_ne_total (h : s.Funded) (hid : s.circuit? id = some c) :
    c.allowance.total ≠ s.root := by
  intro heq
  have hplace := (h.total id c hid).1
  rw [heq, h.root] at hplace
  cases hplace

/-- Two circuits have two totals. -/
theorem Funded.total_ne_total (h : s.Funded) (hid : s.circuit? id = some c) {j : CircuitId}
    {d : Circuit} (hj : s.circuit? j = some d) (hne : j ≠ id) :
    d.allowance.total ≠ c.allowance.total :=
  fun heq ↦ hne (h.apart j id d c hj hid heq)

/-- The total of a circuit is not a lane of any circuit. -/
theorem Funded.not_isLane_total (h : s.Funded) (hid : s.circuit? id = some c) {j : CircuitId}
    {d : Circuit} (hj : s.circuit? j = some d) : ¬c.allowance.IsLane d.allowance.total := by
  rintro ⟨lane, heq⟩
  have hindex : lane.index < 7 := by cases lane <;> decide
  rw [h.lanes id c hid] at heq
  have hplaces : ∀ i k n : Nat, i % 8 = 1 → k % 8 = 1 → n < 7 → i ≠ k + 1 + n := by omega
  exact hplaces _ _ _ (h.total j d hj).1 (h.total id c hid).1 hindex heq

/-- Where all circuits keep their buckets, what remains to be seen is which totals are attached, and
what the bucket of the server has promised. -/
theorem Funded.keep (h : s.Funded) (hroot : s'.root = s.root)
    (hlength : s'.forest.buckets.length = s.forest.buckets.length)
    (hcircuits : s'.circuits.length = s.circuits.length)
    (hallowance : ∀ id c', s'.circuit? id = some c' →
      ∃ c, s.circuit? id = some c ∧ c.allowance = c'.allowance)
    (hancestors : ∀ j b, s.forest.get? j = some b →
      ∃ b', s'.forest.get? j = some b' ∧ b'.ancestors = b.ancestors)
    (hattached : ∀ id c, s'.circuit? id = some c → ∃ t, s'.forest.get? c.allowance.total = some t ∧
      t.ancestors = [s'.root] ∧ t.rate = s'.config.circuitRate ∧ t.attached = !c.isClosed)
    (hcommitted : ∃ b, s'.forest.get? s'.root = some b ∧ b.ancestors = [] ∧
      b.committed = s'.config.circuitRate * UInt64.ofNat (s'.openCount + s.forfeited)) :
    s'.Funded := by
  have hsame : s'.forfeited = s.forfeited := forfeited_of_extent (Prod.ext hcircuits hlength)
  refine ⟨hroot.trans h.root, ?_, fun id c' hid ↦ ?_, fun i j c' d' hi hj heq ↦ ?_,
    fun id c' hid ↦ ?_, fun id c' hid lane ↦ ?_, hattached, hsame ▸ hcommitted⟩
  · rw [hlength, hcircuits, hsame]
    exact h.length
  · obtain ⟨c, hc, hsame⟩ := hallowance id c' hid
    rw [hlength, ← hsame]
    exact h.total id c hc
  · obtain ⟨c, hc, hsamec⟩ := hallowance i c' hi
    obtain ⟨d, hd, hsamed⟩ := hallowance j d' hj
    exact h.apart i j c d hc hd (by rw [hsamec, hsamed, heq])
  · obtain ⟨c, hc, hsame⟩ := hallowance id c' hid
    exact hsame ▸ h.lanes id c hc
  · obtain ⟨c, hc, hsame⟩ := hallowance id c' hid
    obtain ⟨b, hb, hhead⟩ := h.rooted id c hc lane
    obtain ⟨b', hb', hline⟩ := hancestors _ b hb
    rw [← hsame]
    exact ⟨b', hb', hline ▸ hhead⟩

/-- A change of levels and of circuits that keep their standing. -/
theorem Funded.aside (h : s.Funded) (hs : SameRegistry s s') : s'.Funded := by
  have hback : ∀ {id c'}, s'.circuit? id = some c' →
      ∃ c, s.circuit? id = some c ∧ c.standing = c'.standing := fun hid ↦
    exists_circuit_of_standing hs.circuits.symm hid
  refine h.keep hs.root (Forest.length_eq_of_terms hs.terms) hs.length_eq (fun id c' hid ↦ ?_)
    (fun j b hb ↦ ?_) (fun id c' hid ↦ ?_) ?_
  · obtain ⟨c, hc, hstanding⟩ := hback hid
    exact ⟨c, hc, Circuit.allowance_of_standing hstanding⟩
  · obtain ⟨b', hb', hancestors, -⟩ := Forest.exists_of_terms hs.terms hb
    exact ⟨b', hb', hancestors⟩
  · obtain ⟨c, hc, hstanding⟩ := hback hid
    obtain ⟨t, ht, hparent, hrate, hattached⟩ := h.attached id c hc
    obtain ⟨t', ht', hparent', hrate', -, hattached'⟩ := Forest.exists_of_terms hs.terms ht
    rw [← Circuit.allowance_of_standing hstanding, ← Circuit.isClosed_of_standing hstanding, hs.root,
      hs.config]
    exact ⟨t', ht', hparent'.trans hparent, hrate'.trans hrate, hattached'.trans hattached⟩
  · obtain ⟨b, hb, hancestors, hcommitted⟩ := h.committed
    obtain ⟨b', hb', hancestors', -, hcommitted', -⟩ := Forest.exists_of_terms hs.terms hb
    have hcount : s'.openCount = s.openCount := by
      have hmap := congrArg (List.countP (!·.2.2.2)) hs.circuits
      rwa [List.countP_map, List.countP_map] at hmap
    rw [hs.root, hs.config, hcount]
    exact ⟨b', hb', hancestors'.trans hancestors, hcommitted'.trans hcommitted⟩

/-- A negotiation among the lanes of a circuit. -/
theorem Funded.adjust (h : s.Funded) {requested : Rates} {now : Instant} {adjustment : Adjustment}
    {forest : Forest} (hid : s.circuit? id = some c)
    (hrates : c.renegotiate requested now s.forest = .ok (adjustment, forest)) :
    { s with forest }.Funded := by
  have hwithin := Allowance.within_renegotiate (h.rooted id c hid) hrates
  refine h.keep rfl (Allowance.length_renegotiate hrates) rfl (fun j d hj ↦ ⟨d, hj, rfl⟩)
    (fun j b hb ↦ ?_) (fun j d hj ↦ ?_) ?_
  · obtain ⟨b', hb', hancestors, -⟩ := hwithin j b hb
    exact ⟨b', hb', hancestors⟩
  · obtain ⟨t, ht, hparent, hrate, hattached⟩ := h.attached j d hj
    obtain ⟨t', ht', hancestors, hkept, -⟩ := hwithin _ t ht
    obtain ⟨hrate', hattached'⟩ := hkept (h.not_isLane_total hid hj)
    exact ⟨t', ht', hancestors.trans hparent, hrate'.trans hrate, hattached'.trans hattached⟩
  · obtain ⟨b, hb, hancestors, hcommitted⟩ := h.committed
    obtain ⟨b', hb', hancestors', -, hcommitted'⟩ := hwithin _ b hb
    exact ⟨b', hb', hancestors'.trans hancestors,
      (hcommitted' (h.root_ne_total hid).symm).trans hcommitted⟩

/-- What closing a circuit does to the buckets of a server. -/
theorem Funded.detach (h : s.Funded) (hid : s.circuit? id = some c) (hopen : c.isClosed = false)
    {j : BucketId} {b : Bucket} (hb : s.forest.get? j = some b) :
    ∃ b', (c.allowance.detach s.forest).get? j = some b' ∧ b'.ancestors = b.ancestors ∧
      (¬c.allowance.IsLane j → b'.rate = b.rate ∧
        b'.attached = if j = c.allowance.total then false else b.attached) ∧
      (j = s.root → b'.committed = b.committed - s.config.circuitRate) := by
  obtain ⟨t, ht, hparent, hrate, hattached⟩ := h.attached id c hid
  rw [← hrate]
  exact Allowance.detach_spec (h.rooted id c hid) ht (by rw [hattached, hopen]; rfl)
    (by rw [hparent]; rfl) (h.root_ne_total hid) (h.not_isLane_total hid hid) hb

/-- Closing an open circuit leaves one open circuit less. -/
theorem openCount_set_ended (hid : s.circuit? id = some c) (hopen : c.isClosed = false) :
    s.openCount = (s.circuits.set id c.ended).countP (!·.isClosed) + 1 := by
  have hlt := lt_length_of_circuit? hid
  have hat : s.circuits[id] = c := Option.some.inj ((List.getElem?_eq_getElem hlt).symm.trans hid)
  have hpos : 0 < s.circuits.countP (!·.isClosed) :=
    List.countP_pos_iff.2 ⟨c, hat ▸ List.getElem_mem hlt, by rw [hopen]; rfl⟩
  have hset := List.countP_set (p := (!·.isClosed)) (a := c.ended) hlt
  rw [hat, hopen, show c.ended.isClosed = true from rfl] at hset
  rw [openCount, hset]
  exact (Nat.sub_add_cancel hpos).symm

/-- A circuit has ended, and its limit is no longer promised. -/
theorem Funded.ended (h : s.Funded) (hid : s.circuit? id = some c) (hopen : c.isClosed = false)
    (hconfig : s'.config = s.config) (hroot : s'.root = s.root)
    (hforest : s'.forest = c.allowance.detach s.forest)
    (hcircuits : s'.circuits = s.circuits.set id c.ended) : s'.Funded := by
  -- a circuit is the one that has ended now, or another one as it was
  have hcases : ∀ j d, s'.circuit? j = some d →
      (j = id ∧ d = c.ended) ∨ (j ≠ id ∧ s.circuit? j = some d) := by
    intro j d hj
    have hset := circuit?_set hid c.ended j
    rw [circuit?, hcircuits] at hj
    rw [circuit?, putCircuit, hj] at hset
    split at hset
    · exact .inl ⟨(‹id = j›).symm, Option.some.inj hset⟩
    · exact .inr ⟨Ne.symm ‹_›, hset.symm⟩
  refine h.keep hroot ?_ ?_ (fun j d hj ↦ ?_) (fun j b hb ↦ ?_) (fun j d hj ↦ ?_) ?_
  · rw [hforest, Allowance.length_detach]
  · rw [hcircuits, List.length_set]
  · rcases hcases j d hj with ⟨rfl, rfl⟩ | ⟨-, hd⟩
    · exact ⟨c, hid, rfl⟩
    · exact ⟨d, hd, rfl⟩
  · obtain ⟨b', hb', hancestors, -⟩ := h.detach hid hopen hb
    exact ⟨b', hforest ▸ hb', hancestors⟩
  · rw [hroot, hconfig, hforest]
    rcases hcases j d hj with ⟨rfl, rfl⟩ | ⟨hne, hd⟩
    · obtain ⟨t, ht, hparent, hrate, -⟩ := h.attached j c hid
      obtain ⟨t', ht', hancestors, hkept, -⟩ := h.detach hid hopen ht
      obtain ⟨hrate', hattached'⟩ := hkept (h.not_isLane_total hid hid)
      refine ⟨t', ht', hancestors.trans hparent, hrate'.trans hrate, ?_⟩
      rw [hattached', if_pos rfl]
      rfl
    · obtain ⟨u, hu, hparent, hrate, hattached⟩ := h.attached j d hd
      obtain ⟨u', hu', hancestors, hkept, -⟩ := h.detach hid hopen hu
      obtain ⟨hrate', hattached'⟩ := hkept (h.not_isLane_total hid hd)
      refine ⟨u', hu', hancestors.trans hparent, hrate'.trans hrate, ?_⟩
      rw [hattached', if_neg (h.total_ne_total hid hd hne)]
      exact hattached
  · obtain ⟨b, hb, hancestors, hcommitted⟩ := h.committed
    obtain ⟨b', hb', hancestors', -, hcommitted'⟩ := h.detach hid hopen hb
    rw [hroot, hconfig, hforest, openCount, hcircuits]
    refine ⟨b', hb', hancestors'.trans hancestors, ?_⟩
    rw [hcommitted' rfl, hcommitted, openCount_set_ended hid hopen, Nat.add_right_comm,
      UInt64.ofNat_add (_ + _), UInt64.mul_add, UInt64.ofNat_one, UInt64.mul_one,
      UInt64.add_sub_cancel]

/-- The root goes on to fund exactly the open circuits when one of them is closed. -/
theorem Funded.closeCircuit (h : s.Funded) (id : CircuitId) (reason : CloseReason) :
    (s.closeCircuit id reason).2.Funded := by
  cases hid : s.circuit? id with
  | none => rwa [closeCircuit_of_none reason hid]
  | some c =>
    cases hclosed : c.isClosed with
    | true => rwa [closeCircuit_of_closed reason hid hclosed]
    | false =>
      rw [closeCircuit_of_open reason hid hclosed]
      dsimp only [record, count, putCircuit]
      exact h.ended hid hclosed rfl rfl rfl rfl

/-- **The buckets of one more circuit are added.** Those of the others stay as they are, and one more
limit is promised. -/
structure Funded.Grows (s : Server) (a : Allowance) (forest : Forest) : Prop where
  total : a.total = s.forest.buckets.length
  length : forest.buckets.length = s.forest.buckets.length + 8
  others : ∀ id c, s.circuit? id = some c → c.allowance.Rooted forest ∧
    ∃ t, forest.get? c.allowance.total = some t ∧ t.ancestors = [s.root] ∧
      t.rate = s.config.circuitRate ∧ t.attached = !c.isClosed
  committed : ∃ b, forest.get? s.root = some b ∧ b.ancestors = [] ∧
    b.committed = s.config.circuitRate * UInt64.ofNat (s.openCount + s.forfeited + 1)

/-- An allowance that is opened grows at the end of the forest. -/
theorem Funded.grows (h : s.Funded) {a : Allowance} {rates : Rates} {now : Instant} {forest : Forest}
    (hopened : Allowance.opened s.root s.config.circuitRate rates s.config.burstTime s.config.mtu now
      s.forest = .ok (a, forest)) : Funded.Grows s a forest := by
  obtain ⟨b, hb, hancestors, hcommitted⟩ := h.committed
  obtain ⟨htotal, -, hlength, -, -, hothers⟩ := Allowance.opened_spec hopened hb
  refine ⟨htotal, hlength, fun id c hid ↦ ⟨fun lane ↦ ?_, ?_⟩, ?_⟩
  · obtain ⟨u, hu, hhead⟩ := h.rooted id c hid lane
    obtain ⟨u', hu', hsame, -⟩ := hothers _ u hu
    exact ⟨u', hu', hsame ▸ hhead⟩
  · obtain ⟨u, hu, hparent, hrate, hattached⟩ := h.attached id c hid
    obtain ⟨u', hu', hsame, hrate', hattached', -⟩ := hothers _ u hu
    exact ⟨u', hu', hsame.trans hparent, hrate'.trans hrate, hattached'.trans hattached⟩
  · obtain ⟨b', hb', hsame, -, -, hcommitted'⟩ := hothers _ b hb
    refine ⟨b', hb', hsame.trans hancestors, ?_⟩
    rw [hcommitted', if_pos rfl, hcommitted, UInt64.ofNat_add (_ + _) 1, UInt64.mul_add]
    simp

/-- A circuit is opened, and its limit promised. -/
theorem Funded.entered (h : s.Funded) {session : Session} {address address' : Address} {now : Instant}
    {forest : Forest}
    (hopened : Circuit.opened session address s.config s.root now s.forest = .ok (c, forest)) :
    (s.entered address' c forest).Funded := by
  obtain ⟨-, -, hopen, rates, hallowance⟩ := Circuit.exists_of_opened hopened
  obtain ⟨b, hb, hancestors, -⟩ := h.committed
  obtain ⟨-, hlanes, -, hrooted, ⟨t, ht, htancestors, hrate, hattached⟩, -⟩ :=
    Allowance.opened_spec hallowance hb
  obtain ⟨htotal, hlength, hothers, hcommitted⟩ := h.grows hallowance
  have hcases : ∀ j d, (s.entered address' c forest).circuit? j = some d →
      (j = s.circuits.length ∧ d = c) ∨ s.circuit? j = some d := by
    intro j d hj
    rw [circuit?_entered] at hj
    split at hj
    · exact .inl ⟨(‹s.circuits.length = j›).symm, (Option.some.inj hj).symm⟩
    · exact .inr hj
  have hcount : (s.entered address' c forest).openCount = s.openCount + 1 := by
    change (s.circuits ++ [c]).countP (!·.isClosed) = _
    rw [List.countP_append, List.countP_singleton, hopen]
    rfl
  have hcircuits : (s.entered address' c forest).circuits.length = s.circuits.length + 1 :=
    List.length_append
  have hbuckets : (s.entered address' c forest).forest.buckets.length =
      s.forest.buckets.length + 8 := hlength
  have hplaces := h.length
  have hforfeited : (s.entered address' c forest).forfeited = s.forfeited := by
    rw [forfeited, hcircuits, hbuckets]
    omega
  refine ⟨h.root, ?_, fun j d hj ↦ ?_, fun i j d e hi hj heq ↦ ?_, fun j d hj ↦ ?_, fun j d hj ↦ ?_,
    fun j d hj ↦ ?_, ?_⟩
  · rw [hforfeited, hcircuits, hbuckets]
    omega
  · rw [hbuckets]
    rcases hcases j d hj with ⟨rfl, rfl⟩ | hd
    · rw [htotal, hplaces]
      exact ⟨Nat.mul_add_mod .., Nat.lt_add_of_pos_right (by decide)⟩
    · exact (h.total j d hd).imp_right fun hlt ↦ Nat.lt_add_right 8 hlt
  · -- the total of the new circuit comes behind those of all others
    rcases hcases i d hi with ⟨rfl, rfl⟩ | hd <;> rcases hcases j e hj with ⟨rfl, rfl⟩ | he
    · rfl
    · exact absurd (heq ▸ htotal) (Nat.ne_of_lt (h.total j e he).2)
    · exact absurd (heq ▸ htotal) (Nat.ne_of_lt (h.total i d hd).2)
    · exact h.apart i j d e hd he heq
  · rcases hcases j d hj with ⟨rfl, rfl⟩ | hd
    · intro lane
      rw [hlanes, htotal]
    · exact h.lanes j d hd
  · rcases hcases j d hj with ⟨rfl, rfl⟩ | hd
    · exact hrooted
    · exact (hothers j d hd).1
  · rcases hcases j d hj with ⟨rfl, rfl⟩ | hd
    · refine ⟨t, ht, ?_, hrate, by rw [hattached, hopen]; rfl⟩
      rw [htancestors, hancestors]
      rfl
    · exact (hothers j d hd).2
  · obtain ⟨b', hb', hancestors', hpromised⟩ := hcommitted
    refine ⟨b', hb', hancestors', ?_⟩
    rw [hcount, hforfeited, Nat.add_right_comm]
    exact hpromised

/-- A circuit can not be opened, and its limit is promised all the same if its buckets were. -/
theorem Funded.abandoned (h : s.Funded) {session : Session} {address : Address} {now : Instant}
    {fault : Fault} {forest : Forest}
    (hopened : Circuit.opened session address s.config s.root now s.forest =
      .error (fault, forest)) : { s with forest }.Funded := by
  rcases Circuit.opened_eq_error_iff.1 hopened with ⟨-, rfl⟩ | ⟨a, hallowance, -⟩
  · exact ⟨h.1, h.2, h.3, h.4, h.5, h.6, h.7, h.8⟩
  · obtain ⟨htotal, hlength, hothers, hcommitted⟩ := h.grows hallowance
    have hplaces := h.length
    have hforfeited : forfeited { s with forest } = s.forfeited + 1 := by
      rw [forfeited]
      dsimp only
      omega
    refine ⟨h.root, ?_, fun j d hj ↦ ?_, h.apart, h.lanes, fun j d hj ↦ (hothers j d hj).1,
      fun j d hj ↦ (hothers j d hj).2, ?_⟩
    · rw [hforfeited]
      dsimp only
      omega
    · exact (h.total j d hj).imp_right fun hlt ↦ hlength ▸ Nat.lt_add_right 8 hlt
    · obtain ⟨b', hb', hancestors', hpromised⟩ := hcommitted
      refine ⟨b', hb', hancestors', ?_⟩
      rw [hforfeited]
      exact hpromised

/-- The promises are covered as well once several circuits are closed. -/
theorem Funded.supersede (h : s.Funded) (ids : List CircuitId) : (s.supersede ids).Funded := by
  induction ids generalizing s with
  | nil => exact h
  | cons id ids ih => exact ih (h.closeCircuit id .superseded)

/-- A decision as such costs nothing. -/
theorem Funded.decided (h : s.Funded) (position : Nat) : (s.decided position).Funded :=
  ⟨h.1, h.2, h.3, h.4, h.5, h.6, h.7, h.8⟩

/-- **Whatever changes,** the bucket of the server has promised the limits of the open circuits, and of
those that could not be opened. -/
theorem Funded.change (h : s.Funded) (hs : Change s k s') : s'.Funded := by
  cases hs with
  | aside hs => exact h.aside hs
  | adjust hid hrates => exact (h.adjust hid hrates).aside (sameRegistry_record ..)
  | close reason => exact h.closeCircuit _ reason
  | grant hposition hopened =>
    rw [install_snd]
    exact ((h.decided _).entered hopened).supersede _
  | abandon hposition hopened => exact (h.decided _).abandoned hopened
  | keep | request | deny => exact ⟨h.1, h.2, h.3, h.4, h.5, h.6, h.7, h.8⟩

end Server

end DatagramCircuits
