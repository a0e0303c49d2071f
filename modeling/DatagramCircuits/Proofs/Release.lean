import DatagramCircuits.Proofs.Commitments
import DatagramCircuits.Proofs.Funding
/-!
# Giving an allowance back

The end of a circuit, as the buckets see it. Detaching an allowance releases the bucket that its total
draws from of exactly what it has promised for the total (`Allowance.detach_gives_back`). From then on
all buckets of the allowance are detached, and stay so (`Allowance.Released`): to detach them again
changes nothing, and their rates are no longer heard of anywhere (`Allowance.Released.inert`).

**Nothing is assumed about the rest of the forest.** It is any that operations lead to, and any
operations are done in it between the opening of the allowance, its end, and whatever is done with it
later on.
-/

namespace DatagramCircuits

namespace Forest

variable {f f' : Forest} {id j : BucketId} {b t : Bucket} {rate burst : UInt64} {now : Instant}
  {ops : List Operation}

/-- Operations that change nothing one by one change nothing together. -/
theorem run_eq_self (h : ∀ o ∈ ops, f.apply o = f) : f.run ops = f := by
  induction ops with
  | nil => rfl
  | cons o ops ih =>
    rw [run_cons, h o List.mem_cons_self]
    exact ih fun o ho ↦ h o (List.mem_cons_of_mem _ ho)

/-- Detaching a bucket twice is the same as detaching it once. -/
theorem detach_of_detached (hid : f.get? id = some t) (hdetached : t.attached = false) :
    f.detach id = f := by
  simp [detach, hid, hdetached]

/-- What a history detaches at some point is detached in the end. -/
theorem detached_of_mem (hmem : .detach id ∈ ops) (hid : f.get? id = some t) :
    ∃ t', (f.run ops).get? id = some t' ∧ t'.attached = false := by
  obtain ⟨before, after, rfl⟩ := List.append_of_mem hmem
  obtain ⟨t₁, ht₁, -⟩ := exists_run before hid
  obtain ⟨t₂, ht₂, -, -, hdetached, -⟩ := (adjusts_detach ht₁).bucket id t₁ ht₁
  rw [if_pos rfl] at hdetached
  obtain ⟨t', ht', -, hstays⟩ := exists_run after ht₂
  refine ⟨t', ?_, hstays hdetached⟩
  rw [run_append]
  exact ht'

end Forest

namespace Allowance

variable {a : Allowance} {f f' : Forest} {root j : BucketId} {b t : Bucket} {limit : UInt64}
  {now : Instant}

/-- The bucket is the total of the allowance or one of its lanes. -/
def Owns (a : Allowance) (j : BucketId) : Prop :=
  j = a.total ∨ a.IsLane j

/-- The operation is done with a bucket of the allowance, and adds none below it. This is all that the
circuit does with its allowance. -/
def Handles (a : Allowance) : Forest.Operation → Prop
  | .withdraw id .. | .level id _ | .setRate id .. | .detach id => a.Owns id
  | .addRoot .. | .addChild .. => False

/-- To detach an allowance is to detach buckets of its own. -/
theorem handles_detaching {o : Forest.Operation} (ho : o ∈ a.detaching) :
    ∃ j, a.Owns j ∧ o = .detach j := by
  obtain hlane | htotal := List.mem_append.1 ho
  · obtain ⟨j, hj, rfl⟩ := List.mem_map.1 hlane
    obtain ⟨lane, -, rfl⟩ := List.mem_map.1 hj
    exact ⟨_, .inr ⟨lane, rfl⟩, rfl⟩
  · exact ⟨_, .inl rfl, List.mem_singleton.1 htotal⟩

/-- All buckets of the allowance are detached with it. -/
theorem mem_detaching (hj : a.Owns j) : Forest.Operation.detach j ∈ a.detaching := by
  obtain rfl | ⟨lane, rfl⟩ := hj
  · exact List.mem_append_right _ (List.mem_singleton_self _)
  · refine List.mem_append_left _ (List.mem_map.2 ⟨_, ?_, rfl⟩)
    exact List.mem_map.2 ⟨lane, lane.mem_all, rfl⟩

/-- New rates concern buckets of the allowance only. -/
theorem handles_renegotiating {granted : Rates} {o : Forest.Operation}
    (ho : o ∈ a.renegotiating granted now) : a.Handles o := by
  obtain ⟨lane, -, rfl⟩ := List.mem_map.1 ho
  exact .inr ⟨lane, rfl⟩

/-- The allowance has its buckets in the forest: the lanes draw from the total, which is none of
them, and the total draws from another bucket. -/
structure Placed (a : Allowance) (root : BucketId) (f : Forest) : Prop where
  rooted : a.Rooted f
  total : ∃ t, f.get? a.total = some t ∧ t.ancestors.head? = some root
  root_ne : a.total ≠ root
  not_isLane : ¬a.IsLane a.total

/-- An allowance keeps its place, whatever is done in the forest. -/
theorem Placed.run (h : a.Placed root f) (ops : List Forest.Operation) :
    a.Placed root (f.run ops) := by
  refine ⟨fun lane ↦ ?_, ?_, h.root_ne, h.not_isLane⟩
  · obtain ⟨b, hb, hhead⟩ := h.rooted lane
    obtain ⟨b', hb', hancestors, -⟩ := Forest.exists_run ops hb
    exact ⟨b', hb', hancestors ▸ hhead⟩
  · obtain ⟨t, ht, hhead⟩ := h.total
    obtain ⟨t', ht', hancestors, -⟩ := Forest.exists_run ops ht
    exact ⟨t', ht', hancestors ▸ hhead⟩

/-- The buckets of an allowance that has its place are there. -/
theorem Placed.exists_of_owns (h : a.Placed root f) (hj : a.Owns j) : ∃ b, f.get? j = some b := by
  obtain rfl | ⟨lane, rfl⟩ := hj
  · exact h.total.imp fun _ ↦ And.left
  · exact (h.rooted lane).imp fun _ ↦ And.left

/-- All buckets of the allowance are detached. -/
def Released (a : Allowance) (f : Forest) : Prop :=
  ∀ j, a.Owns j → ∃ b, f.get? j = some b ∧ b.attached = false

/-- **What was given back stays so,** whatever is done in the forest. -/
theorem Released.run (h : a.Released f) (ops : List Forest.Operation) : a.Released (f.run ops) := by
  intro j hj
  obtain ⟨b, hb, hdetached⟩ := h j hj
  obtain ⟨b', hb', -, hstays⟩ := Forest.exists_run ops hb
  exact ⟨b', hb', hstays hdetached⟩

/-- An allowance is given back when it is detached. -/
theorem released_detach (h : a.Placed root f) : a.Released (a.detach f) := by
  intro j hj
  obtain ⟨b, hb⟩ := h.exists_of_owns hj
  rw [← run_detaching]
  exact Forest.detached_of_mem (mem_detaching hj) hb

/-! ### What is given back -/

/-- What the two forests differ in outside of an allowance: the bucket that its total draws from is
released from what was due to the total, and nobody else from anything. -/
structure GivesBack (a : Allowance) (root : BucketId) (f f' : Forest) : Prop where
  released : ∃ t r r', f.get? a.total = some t ∧ f.get? root = some r ∧ f'.get? root = some r' ∧
    r'.committed = r.committed - t.due
  others : ∀ j b, j ≠ root → j ≠ a.total → f.get? j = some b →
    ∃ b', f'.get? j = some b' ∧ b'.committed = b.committed

/-- Detaching an allowance releases its root of what the total had been promised, and of nothing
else. -/
theorem detach_gives_back (h : a.Placed root f) (hroot : (f.get? root).isSome) :
    a.GivesBack root f (a.detach f) := by
  obtain ⟨t, ht, hhead⟩ := h.total
  have hlanes := within_detachLanes h.rooted
  obtain ⟨t₁, ht₁, hancestors₁, hkept₁, -⟩ := hlanes _ t ht
  obtain ⟨hrate₁, hattached₁⟩ := hkept₁ h.not_isLane
  have hdue : t₁.due = t.due := Bucket.due_congr hrate₁ hattached₁
  -- after the lanes it is only the total that counts for anybody else
  have hothers : ∀ j b, j ≠ a.total → f.get? j = some b → ∃ b', (a.detach f).get? j = some b' ∧
      b'.committed = if root = j then b.committed - t.due else b.committed := by
    intro j b hj hb
    obtain ⟨b₁, hb₁, -, -, hcommitted₁⟩ := hlanes j b hb
    obtain ⟨b', hb', -, -, -, hcommitted⟩ := (Forest.adjusts_detach ht₁).bucket j b₁ hb₁
    refine ⟨b', hb', hcommitted.trans ?_⟩
    simp [hancestors₁, hhead, hcommitted₁ hj, hdue]
  obtain ⟨r, hr⟩ := Option.isSome_iff_exists.1 hroot
  refine ⟨?_, fun j b hjroot hj hb ↦ ?_⟩
  · obtain ⟨r', hr', hcommitted⟩ := hothers root r (Ne.symm h.root_ne) hr
    exact ⟨t, r, r', ht, hr, hr', hcommitted.trans (if_pos rfl)⟩
  · obtain ⟨b', hb', hcommitted⟩ := hothers j b hj hb
    exact ⟨b', hb', hcommitted.trans (if_neg (Ne.symm hjroot))⟩

/-! ### Afterwards -/

/-- To give an allowance back again changes nothing. -/
theorem Released.detach_eq (h : a.Released f) : a.detach f = f := by
  rw [← run_detaching]
  refine Forest.run_eq_self fun o ho ↦ ?_
  obtain ⟨j, hj, rfl⟩ := handles_detaching ho
  obtain ⟨b, hb, hdetached⟩ := h j hj
  exact Forest.detach_of_detached hb hdetached

/-- Whatever a circuit does with its allowance changes no promise any more. -/
theorem Released.committed_run {ops : List Forest.Operation} (h : a.Released f)
    (hops : ∀ o ∈ ops, a.Handles o) (hb : f.get? j = some b) :
    ∃ b', (f.run ops).get? j = some b' ∧ b'.committed = b.committed := by
  induction ops generalizing f b with
  | nil => exact ⟨b, hb, rfl⟩
  | cons o ops ih =>
    have hhandles := hops o List.mem_cons_self
    obtain ⟨id, hid, hsubject, hadds⟩ : ∃ id, a.Owns id ∧ o.subject? = some id ∧
        ∀ parent rate burst now, o ≠ .addChild parent rate burst now := by
      cases o <;> first | exact hhandles.elim | exact ⟨_, hhandles, rfl, nofun⟩
    obtain ⟨t, ht, hdetached⟩ := h id hid
    obtain ⟨b₁, hb₁, hcommitted₁⟩ :=
      Forest.committed_apply_of_detached ht hdetached hsubject hadds hb
    obtain ⟨b', hb', hcommitted⟩ :=
      ih (h.run [o]) (fun o ho ↦ hops o (List.mem_cons_of_mem _ ho)) hb₁
    exact ⟨b', hb', hcommitted.trans hcommitted₁⟩

/-- What is done with an allowance makes no difference any more: to give it back again changes
nothing, to renegotiate its rates changes no promise, and neither the buckets above it nor any other
outside hear of what is done with its buckets and those below them. -/
structure Inert (a : Allowance) (root : BucketId) (f : Forest) : Prop where
  detach : a.detach f = f
  renegotiate : ∀ warnings requested now adjustment f',
    a.renegotiate warnings requested now f = .ok (adjustment, f') → ∀ j b, f.get? j = some b →
      ∃ b', f'.get? j = some b' ∧ b'.committed = b.committed
  above : ∀ j ∈ f.line root, a.total ∉ f.line j
  below : ∀ o id, Forest.Operation.subject? o = some id → a.total ∈ f.line id →
    ∀ j b, f.get? j = some b → a.total ∉ f.line j →
      ∃ b', (f.apply o).get? j = some b' ∧ b'.committed = b.committed

/-- An allowance that was given back is inert. -/
theorem Released.inert (h : a.Released f) (hplaced : a.Placed root f) (hplanted : f.Planted) :
    a.Inert root f := by
  refine ⟨h.detach_eq, fun _ requested now adjustment f' hrates j b hb ↦ ?_,
    fun j hj habove ↦ ?_, fun o id hsubject hbelow j b hb houtside ↦ ?_⟩
  · obtain ⟨-, rfl⟩ := eq_run_of_renegotiate hrates
    exact h.committed_run (fun o ho ↦ handles_renegotiating ho) hb
  · obtain ⟨t, ht, hhead⟩ := hplaced.total
    obtain hnil | ⟨p, hp, hline⟩ := hplanted _ t ht
    · rw [hnil] at hhead
      cases hhead
    · rw [hline] at hhead
      obtain rfl : p = root := Option.some.inj hhead
      have hle := Nat.le_trans (hplanted.le_of_mem_line habove) (hplanted.le_of_mem_line hj)
      exact absurd hp (Nat.not_lt.2 hle)
  · obtain ⟨t, ht, hdetached⟩ := h a.total (.inl rfl)
    exact Forest.committed_apply_of_below hplanted ht hdetached hsubject hbelow hb houtside

/-! ### From the opening on -/

/-- Opening the lanes is adding buckets to the forest. -/
theorem exists_run_addLanes {total : BucketId} (burst : UInt64 → UInt64) (rates : Rates)
    (now : Instant) (htotal : f.get? total = some t) :
    ∃ ops, (addLanes total burst rates now f).2 = f.run ops := by
  have hadd : ∀ {g : Forest}, (∃ ops, g = f.run ops) → ∀ rate burst,
      ∃ ops, (g.addChild total rate burst now).2 = f.run ops := by
    rintro _ ⟨ops, rfl⟩ rate burst
    obtain ⟨t', ht', -⟩ := Forest.exists_run ops htotal
    refine ⟨ops ++ [.addChild total rate burst now], ?_⟩
    rw [Forest.run_append, Forest.run_cons, Forest.run_nil, Forest.apply, if_pos]
    rw [ht']
    rfl
  exact hadd (hadd (hadd (hadd (hadd (hadd (hadd ⟨[], rfl⟩ _ _) _ _) _ _) _ _) _ _) _ _) _ _

/-- So is opening an allowance. -/
theorem exists_run_of_opened {initial : Rates} {burstTime : Span} {mtu : Nat}
    (h : opened root limit initial burstTime mtu now f = .ok (a, f')) (hroot : f.get? root = some b) :
    ∃ ops, f' = f.run ops := by
  obtain ⟨htotal, burst, rates, hadded⟩ := exists_of_opened h
  have hfirst : f.apply (.addChild root limit (burst limit) now) =
      (f.addChild root limit (burst limit) now).2 := by
    rw [Forest.apply, if_pos]
    rw [hroot]
    rfl
  have hnew := f.get?_addChild_self root limit (burst limit) now
  rw [← htotal] at hnew
  obtain ⟨ops, hops⟩ := exists_run_addLanes burst rates now hnew
  refine ⟨.addChild root limit (burst limit) now :: ops, ?_⟩
  rw [Forest.run_cons, hfirst, ← hops, hadded]

/-- An allowance is opened in its place. -/
theorem placed_of_opened {initial : Rates} {burstTime : Span} {mtu : Nat}
    (h : opened root limit initial burstTime mtu now f = .ok (a, f')) (hroot : f.get? root = some b) :
    a.Placed root f' := by
  obtain ⟨htotal, hlanes, -, hrooted, ⟨t, ht, hancestors, -⟩, -⟩ := opened_spec h hroot
  refine ⟨hrooted, ⟨t, ht, ?_⟩, ?_, ?_⟩
  · rw [hancestors]
    rfl
  · rw [htotal]
    exact Nat.ne_of_gt (Forest.lt_length_of_get? hroot)
  · rintro ⟨lane, heq⟩
    have hplaces : ∀ n k : Nat, n ≠ n + 1 + k := by omega
    rw [htotal, hlanes] at heq
    exact hplaces _ _ heq

/-- **What buckets have promised.** In every forest that operations lead to, each bucket has promised
what its attached children draw at. So an allowance that is opened in it, and given back after any
history, releases its root of what was due to its total then; and whatever happens later, with other
buckets or with its own, it can not be given back twice, and its rates matter to nobody. -/
theorem balanced_and_given_back :
    (∀ ops, (Forest.run ops {}).Balanced) ∧
    ∀ before root limit initial burstTime mtu now a f, (Forest.get? (.run before {}) root).isSome →
      opened root limit initial burstTime mtu now (.run before {}) = .ok (a, f) →
      ∀ life later, (f.run life).Balanced ∧ a.GivesBack root (f.run life) (a.detach (f.run life)) ∧
        (Forest.run later (a.detach (f.run life))).Balanced ∧
        a.Released (.run later (a.detach (f.run life))) ∧
        a.Inert root (.run later (a.detach (f.run life))) := by
  have hbalanced : ∀ ops, (Forest.run ops {}).Balanced := fun ops ↦
    Forest.balanced_empty.run Forest.planted_empty ops
  refine ⟨hbalanced, fun before root limit initial burstTime mtu now a f hroot hopened life later ↦ ?_⟩
  obtain ⟨r, hr⟩ := Option.isSome_iff_exists.1 hroot
  obtain ⟨ops, rfl⟩ := exists_run_of_opened hopened hr
  have hplaced := (placed_of_opened hopened hr).run life
  -- all forests here are the result of one history that begins with no bucket at all
  have hlife : Forest.run life (.run ops (.run before {})) = .run (before ++ ops ++ life) {} := by
    rw [Forest.run_append, Forest.run_append]
  have hlater : Forest.run later (a.detach (.run life (.run ops (.run before {})))) =
      .run (before ++ ops ++ life ++ a.detaching ++ later) {} := by
    rw [Forest.run_append, Forest.run_append, ← hlife, run_detaching]
  obtain ⟨r', hr', -⟩ := Forest.exists_run (ops ++ life) hr
  rw [Forest.run_append] at hr'
  have hreleased := (released_detach hplaced).run later
  refine ⟨hlife ▸ hbalanced _, detach_gives_back hplaced (Option.isSome_iff_exists.2 ⟨r', hr'⟩),
    hlater ▸ hbalanced _, hreleased, hreleased.inert ?_ ?_⟩
  · rw [← run_detaching]
    exact (hplaced.run _).run later
  · rw [hlater]
    exact Forest.planted_empty.run _

/-- Below an unlimited root, with another rate for a lane before and after the end. -/
theorem given_back_to_unlimited_root :
    ∃ a f, opened 0 10000 (PerLane.replicate 1000) 0 1400 0 (.run [.addRoot 0 0 0] {}) = .ok (a, f) ∧
      a.GivesBack 0 (f.run [.setRate 3 700 1400 1]) (a.detach (f.run [.setRate 3 700 1400 1])) ∧
      a.Inert 0 (.run [.setRate 3 900 1400 2] (a.detach (f.run [.setRate 3 700 1400 1]))) := by
  obtain ⟨adjustment, hgranted, -⟩ := exists_eq_ok_of_any
    (x := Rates.negotiate 10000 (PerLane.replicate 1000)) (p := fun _ ↦ true) (by decide)
  have hopened : ∃ r, opened 0 10000 (PerLane.replicate 1000) 0 1400 0 (.run [.addRoot 0 0 0] {}) =
      .ok r := by
    rw [opened, hgranted]
    exact ⟨_, rfl⟩
  obtain ⟨⟨a, f⟩, hopened⟩ := hopened
  obtain ⟨-, hback, -, -, hinert⟩ := balanced_and_given_back.2 [.addRoot 0 0 0] 0 10000 _ 0 1400 0 a f
    rfl hopened [.setRate 3 700 1400 1] [.setRate 3 900 1400 2]
  exact ⟨a, f, hopened, hback, hinert⟩

end Allowance

end DatagramCircuits
