import DatagramCircuits.Fault
import DatagramCircuits.Traffic.Allowance
/-!
# What buckets have promised

Taking from a bucket changes levels only: what a bucket draws from, its rate, what it has promised
and whether it is attached are its `terms`, and they stay (`Forest.terms_withdraw`).

A circuit works below the bucket of its total. Opening its lanes, changing their rates and detaching
them is seen in the lanes, and in what the total has promised, and nowhere else (`Forest.Within`).
So the bucket of the server hears of a circuit twice, when the total is added and when it is
detached.
-/

namespace DatagramCircuits

/-- All about a bucket that taking from it leaves alone, but for its burst. -/
def Bucket.terms (b : Bucket) : List BucketId × UInt64 × UInt64 × Bool :=
  (b.ancestors, b.rate, b.committed, b.attached)

/-- Filling a bucket up changes its level only. -/
theorem Bucket.terms_refill (now : Instant) (b : Bucket) : (b.refill now).terms = b.terms := by
  rw [refill]
  split <;> rfl

theorem Bucket.terms_observe (now : Instant) (b : Bucket) : (b.observe now).terms = b.terms := by
  rw [observe]
  split
  · rfl
  · exact terms_refill now b

/-- Taking from a bucket changes its level only. -/
theorem Bucket.terms_charge (n : Nat) (b : Bucket) : (b.charge n).terms = b.terms := by
  rw [charge]
  split <;> rfl

/-- A new rate is the one term that changes. -/
theorem Bucket.terms_setRate (rate burst : UInt64) (now : Instant) (b : Bucket) :
    (b.setRate rate burst now).terms = (b.ancestors, rate, b.committed, b.attached) := by
  have h := terms_refill now b
  simp only [terms, Prod.mk.injEq] at h
  simp only [setRate, terms, h]

namespace Forest

variable {f f' f'' : Forest} {total root parent id j : BucketId} {lanes : BucketId → Prop}
  {rate burst : UInt64} {now : Instant} {b : Bucket}

/-! ### Taking -/

/-- What taking from buckets leaves alone. -/
def terms (f : Forest) : List (List BucketId × UInt64 × UInt64 × Bool) :=
  f.buckets.map Bucket.terms

/-- A change that keeps the terms of its bucket keeps all terms. -/
theorem terms_modify {change : Bucket → Bucket}
    (h : ∀ b, f.get? id = some b → (change b).terms = b.terms) :
    (f.modify id change).terms = f.terms := by
  refine List.ext_getElem? fun i ↦ ?_
  rw [terms, terms, List.getElem?_map, List.getElem?_map]
  change ((f.modify id change).get? i).map _ = (f.get? i).map _
  rw [get?_modify]
  split
  · rename_i heq
    subst heq
    cases hb : f.get? id with
    | none => rfl
    | some b => exact congrArg some (h b hb)
  · rfl

/-- So do any number of such changes. -/
theorem terms_modifyAll {change : Bucket → Bucket} (h : ∀ b, (change b).terms = b.terms)
    (ids : List BucketId) (f : Forest) : (f.modifyAll ids change).terms = f.terms := by
  induction ids generalizing f with
  | nil => rfl
  | cons id ids ih => exact (ih _).trans (terms_modify fun b _ ↦ h b)

/-- Asking every bucket of a line keeps their terms. -/
theorem terms_approve (n : Nat) (now : Instant) (ids : List BucketId) (f : Forest) :
    (approve n now ids f).2.terms = f.terms := by
  induction ids generalizing f with
  | nil => rfl
  | cons id ids ih =>
    rw [approve]
    split
    · rfl
    · rename_i b hb
      have hsame : (f.modify id fun _ ↦ b.observe now).terms = f.terms :=
        terms_modify fun b' hb' ↦ by
          obtain rfl := Option.some.inj (hb.symm.trans hb')
          exact b.terms_observe now
      split
      · rfl
      · dsimp only
        split
        · exact (ih _).trans hsame
        · exact hsame

/-- **Taking changes no terms.** -/
theorem terms_withdraw (f : Forest) (id : BucketId) (n : Nat) (now : Instant) :
    (f.withdraw id n now).2.terms = f.terms := by
  have happrove := terms_approve n now (f.line id) f
  rw [withdraw]
  split <;> rename_i heq <;> rw [heq] at happrove
  · exact (terms_modifyAll (Bucket.terms_charge n) _ _).trans happrove
  · exact happrove

/-- Forests with the same terms have the same buckets. -/
theorem length_eq_of_terms (h : f'.terms = f.terms) : f'.buckets.length = f.buckets.length := by
  simpa [terms] using congrArg List.length h

/-- A bucket is another one on the same terms. -/
theorem exists_of_terms (h : f'.terms = f.terms) (hb : f.get? j = some b) :
    ∃ b', f'.get? j = some b' ∧ b'.ancestors = b.ancestors ∧ b'.rate = b.rate ∧
      b'.committed = b.committed ∧ b'.attached = b.attached := by
  have hj : f'.terms[j]? = f.terms[j]? := congrArg (·[j]?) h
  rw [terms, terms, List.getElem?_map, List.getElem?_map] at hj
  change (f'.get? j).map _ = (f.get? j).map _ at hj
  rw [hb] at hj
  obtain ⟨b', hb', hterms⟩ := Option.map_eq_some_iff.1 hj
  exact ⟨b', hb', by simpa only [Bucket.terms, Prod.mk.injEq] using hterms⟩

/-! ### Below the total of a circuit -/

/-- The second forest differs from the first one at most in rate, level and attachment of the given
lanes, in what the total of a circuit has promised, and in buckets of its own. -/
def Within (total : BucketId) (lanes : BucketId → Prop) (f f' : Forest) : Prop :=
  ∀ j b, f.get? j = some b → ∃ b', f'.get? j = some b' ∧ b'.ancestors = b.ancestors ∧
    (¬lanes j → b'.rate = b.rate ∧ b'.attached = b.attached) ∧
    (j ≠ total → b'.committed = b.committed)

theorem Within.refl : Within total lanes f f :=
  fun _ b hb ↦ ⟨b, hb, rfl, fun _ ↦ ⟨rfl, rfl⟩, fun _ ↦ rfl⟩

/-- What is done in two parts within the lanes is done within them. -/
theorem Within.trans (h : Within total lanes f f') (h' : Within total lanes f' f'') :
    Within total lanes f f'' := by
  intro j b hb
  obtain ⟨b', hb', hancestors, hkept, hcommitted⟩ := h j b hb
  obtain ⟨b'', hb'', hancestors', hkept', hcommitted'⟩ := h' j b' hb'
  refine ⟨b'', hb'', hancestors'.trans hancestors, fun hj ↦ ?_, fun hj ↦ ?_⟩
  · exact ⟨(hkept' hj).1.trans (hkept hj).1, (hkept' hj).2.trans (hkept hj).2⟩
  · exact (hcommitted' hj).trans (hcommitted hj)

/-- A lane that stays where it is in the forest: it draws from the total first. -/
theorem within_modify {change : Bucket → Bucket} (hid : lanes id)
    (hancestors : ∀ b, (change b).ancestors = b.ancestors)
    (hcommitted : ∀ b, (change b).committed = b.committed) :
    Within total lanes f (f.modify id change) := by
  intro j b hb
  rw [get?_modify, hb]
  split
  · rename_i heq
    subst heq
    exact ⟨change b, rfl, hancestors b, fun h ↦ absurd hid h, fun _ ↦ hcommitted b⟩
  · exact ⟨b, rfl, rfl, fun _ ↦ ⟨rfl, rfl⟩, fun _ ↦ rfl⟩

/-- Another promise of the total is within. -/
theorem within_recommit (change : UInt64 → UInt64) :
    Within total lanes f (f.recommit (some total) change) := by
  intro j b hb
  rw [recommit, get?_modify, hb]
  split
  · exact ⟨_, rfl, rfl, fun _ ↦ ⟨rfl, rfl⟩, fun h ↦ absurd ‹total = j› (Ne.symm h)⟩
  · exact ⟨b, rfl, rfl, fun _ ↦ ⟨rfl, rfl⟩, fun _ ↦ rfl⟩

/-- A bucket draws from the first of those above it. -/
theorem parent?_eq (hb : f.get? id = some b) : f.parent? id = b.ancestors.head? := by
  rw [parent?, hb]
  rfl

/-- Another rate for a lane. -/
theorem within_setRate (hid : lanes id) (hb : f.get? id = some b)
    (hparent : b.ancestors.head? = some total) :
    Within total lanes f (f.setRate id rate burst now) := by
  have hchange : ∀ {f : Forest}, Within total lanes f (f.modify id (Bucket.setRate rate burst now)) :=
    within_modify hid
      (fun b ↦ congrArg Prod.fst (b.terms_setRate rate burst now))
      (fun b ↦ congrArg (·.2.2.1) (b.terms_setRate rate burst now))
  simp only [setRate, hb, parent?_eq hb, hparent]
  split
  · exact (within_recommit _).trans hchange
  · exact hchange

/-- The end of a lane. -/
theorem within_detach (hid : lanes id) (hb : f.get? id = some b)
    (hparent : b.ancestors.head? = some total) : Within total lanes f (f.detach id) := by
  simp only [detach, hb, parent?_eq hb, hparent]
  split
  · exact (within_recommit _).trans (within_modify hid (fun _ ↦ rfl) fun _ ↦ rfl)
  · exact Within.refl

theorem length_recommit (f : Forest) (i : Option BucketId) (change : UInt64 → UInt64) :
    (f.recommit i change).buckets.length = f.buckets.length := by
  cases i with
  | none => rfl
  | some i => exact length_modify ..

/-- A new rate adds no bucket. -/
theorem length_setRate (f : Forest) (id : BucketId) (rate burst : UInt64) (now : Instant) :
    (f.setRate id rate burst now).buckets.length = f.buckets.length := by
  rw [setRate]
  split
  · rfl
  · dsimp only
    rw [length_modify]
    split
    · exact length_recommit ..
    · rfl

theorem length_detach (f : Forest) (id : BucketId) :
    (f.detach id).buckets.length = f.buckets.length := by
  rw [detach]
  split
  · rfl
  · split
    · rw [length_modify, length_recommit]
    · rfl

/-! ### New buckets -/

theorem length_addChild (f : Forest) (parent : BucketId) (rate burst : UInt64) (now : Instant) :
    (f.addChild parent rate burst now).2.buckets.length = f.buckets.length + 1 := by
  rw [addChild]
  simp [length_recommit]

/-- Buckets are numbered in the order in which they are added. -/
theorem lt_length_of_get? (hb : f.get? j = some b) : j < f.buckets.length :=
  (List.getElem?_eq_some_iff.1 hb).1

/-- A new bucket comes behind all others. -/
theorem get?_addChild_self (f : Forest) (parent : BucketId) (rate burst : UInt64) (now : Instant) :
    (f.addChild parent rate burst now).2.get? f.buckets.length =
      some (Bucket.full (f.line parent) rate burst now) := by
  have hlen := length_recommit f (some parent) (· + rate)
  rw [addChild, get?]
  dsimp only
  rw [List.getElem?_append_right (Nat.le_of_eq hlen), hlen, Nat.sub_self]
  rfl

/-- Its parent promises it the rate, and the others stay as they are. -/
theorem get?_addChild_of_lt (h : j < f.buckets.length) :
    (f.addChild parent rate burst now).2.get? j = (f.recommit (some parent) (· + rate)).get? j := by
  rw [addChild, get?]
  dsimp only
  rw [List.getElem?_append_left (by rwa [length_recommit])]
  rfl

/-- So of a bucket that there was only the promise is new. -/
theorem get?_addChild_of_get? (hb : f.get? j = some b) :
    (f.addChild parent rate burst now).2.get? j =
      some (if parent = j then { b with committed := b.committed + rate } else b) := by
  rw [get?_addChild_of_lt (lt_length_of_get? hb), recommit, get?_modify, hb]
  split <;> rfl

/-- A new lane below the total is within. -/
theorem within_addChild : Within total lanes f (f.addChild total rate burst now).2 := by
  intro j b hb
  rw [get?_addChild_of_lt (lt_length_of_get? hb)]
  exact within_recommit _ j b hb

end Forest

namespace Allowance

variable {a : Allowance} {f f' : Forest} {now : Instant}

/-- What is done with one bucket after another adds none, if each deed adds none. -/
theorem length_foldl {α : Type} {change : Forest → α → Forest}
    (h : ∀ f x, (change f x).buckets.length = f.buckets.length) (l : List α) (f : Forest) :
    (l.foldl change f).buckets.length = f.buckets.length := by
  induction l generalizing f with
  | nil => rfl
  | cons x l ih => exact (ih _).trans (h f x)

/-- Giving an allowance back adds no bucket, and takes none away. -/
theorem length_detach (a : Allowance) (f : Forest) :
    (a.detach f).buckets.length = f.buckets.length :=
  (Forest.length_detach ..).trans (length_foldl (fun f id ↦ Forest.length_detach f id) _ f)

/-- Nor does negotiating its rates. -/
theorem length_renegotiate {warnings : Bool} {requested : Rates} {adjustment : Adjustment}
    (h : a.renegotiate warnings requested now f = .ok (adjustment, f')) :
    f'.buckets.length = f.buckets.length := by
  obtain ⟨granted, -, h⟩ := bind_eq_ok_iff.1 h
  obtain ⟨-, -, h⟩ := bind_eq_ok_iff.1 h
  obtain ⟨-, rfl⟩ := Prod.mk.inj (Except.ok.inj h)
  exact length_foldl (fun f lane ↦ Forest.length_setRate ..) _ f

/-- There are seven lanes. -/
theorem length_addLanes (total : BucketId) (burst : UInt64 → UInt64) (rates : Rates) (now : Instant)
    (f : Forest) : (addLanes total burst rates now f).2.buckets.length = f.buckets.length + 7 := by
  simp only [addLanes, Forest.length_addChild]

/-- The total is added to the buckets there are, and then its lanes are. -/
theorem exists_of_opened {root : BucketId} {limit : UInt64} {initial : Rates} {burstTime : Span}
    {mtu : Nat}
    (h : opened root limit initial burstTime mtu now f = .ok (a, f')) :
    a.total = f.buckets.length ∧ ∃ burst rates,
      addLanes a.total burst rates now (f.addChild root limit (burst limit) now).2 =
        (a.lanes, f') := by
  obtain ⟨adjustment, -, h⟩ := bind_eq_ok_iff.1 h
  obtain ⟨rfl, rfl⟩ := Prod.mk.inj (Except.ok.inj h)
  exact ⟨Forest.length_recommit .., burstCapacity burstTime mtu, adjustment.applied, rfl⟩

/-- **An allowance has eight buckets,** one for itself and one for each lane. -/
theorem length_of_opened {root : BucketId} {limit : UInt64} {initial : Rates} {burstTime : Span}
    {mtu : Nat} (h : opened root limit initial burstTime mtu now f = .ok (a, f')) :
    f'.buckets.length = f.buckets.length + 8 := by
  obtain ⟨-, burst, rates, hadded⟩ := exists_of_opened h
  have hlanes := length_addLanes a.total burst rates now (f.addChild root limit (burst limit) now).2
  rwa [hadded, Forest.length_addChild] at hlanes

end Allowance

end DatagramCircuits
