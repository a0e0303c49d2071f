import DatagramCircuits.Proofs.Ended
import DatagramCircuits.Proofs.Withdrawal
/-!
# What is seen of a bucket

A bucket keeps account of what it has promised, and nobody ever looks at that when something is taken, at
a rate or at whether a bucket is attached. So what those that draw from a bucket see of it is everything
else (`Forest.seen`), and two forests in which the buckets of a line are seen to be the same can not be told
apart by an operation on that line (`Forest.withdraw_congr` and the equations beside it).

**An unlimited root shows nothing.** Nothing is ever taken from it, and its account is not brought up to
date either. What is done with the buckets of an allowance below it is therefore seen in these buckets
only (`Allowance.Below.seen_apply`): the root hears of a promise at most.
-/

namespace DatagramCircuits

namespace Bucket

variable {b : Bucket}

/-- The bucket without an account of its promises. -/
def unpromised (b : Bucket) : Bucket :=
  { b with committed := 0 }

/-- Filling a bucket up does not depend on what it has promised. -/
theorem unpromised_refill (now : Instant) (b : Bucket) :
    (b.refill now).unpromised = b.unpromised.refill now := by
  rw [refill, refill]
  show _ = if now ≤ b.refilled then b.unpromised else _
  split <;> rfl

/-- Looking at a bucket does not, either. -/
theorem unpromised_observe (now : Instant) (b : Bucket) :
    (b.observe now).unpromised = b.unpromised.observe now := by
  rw [observe, observe, ← unpromised_refill]
  show _ = if b.isUnlimited then b.unpromised else _
  split <;> rfl

/-- Nor does taking from it. -/
theorem unpromised_charge (n : Nat) (b : Bucket) : (b.charge n).unpromised = b.unpromised.charge n := by
  rw [charge, charge]
  show _ = if b.isUnlimited then b.unpromised else _
  split <;> rfl

/-- Nor does another rate. -/
theorem unpromised_setRate (rate burst : UInt64) (now : Instant) (b : Bucket) :
    (b.setRate rate burst now).unpromised = b.unpromised.setRate rate burst now := by
  rw [setRate, setRate, ← unpromised_refill]
  rfl

/-- An unlimited bucket is never brought up to date. -/
theorem observe_of_isUnlimited (h : b.isUnlimited = true) (now : Instant) : b.observe now = b :=
  if_pos h

/-- Nothing is ever taken from an unlimited bucket. -/
theorem charge_of_isUnlimited (h : b.isUnlimited = true) (n : Nat) : b.charge n = b :=
  if_pos h

end Bucket

namespace Forest

variable {P : BucketId → Prop} {f g : Forest} {id i j parent : BucketId} {ids : List BucketId} {n : Nat}
  {now : Instant} {b : Bucket} {change : Bucket → Bucket}

/-- What is seen of the bucket at a position. -/
def seen (f : Forest) (j : BucketId) : Option Bucket :=
  (f.get? j).map Bucket.unpromised

/-- A bucket that is seen in one forest is in the other one as well, but for its promises. -/
theorem exists_of_seen_eq (h : f.seen j = g.seen j) (hb : f.get? j = some b) :
    ∃ b', g.get? j = some b' ∧ b'.unpromised = b.unpromised := by
  rw [seen, hb] at h
  exact Option.map_eq_some_iff.1 h.symm

theorem get?_eq_none_of_seen_eq (h : f.seen j = g.seen j) (hnone : f.get? j = none) :
    g.get? j = none := by
  rw [seen, hnone] at h
  exact Option.map_eq_none_iff.1 h.symm

/-! ### Changes that are seen -/

/-- A change that does not look at promises is seen in the bucket that it is made to, and only
there. -/
theorem seen_modify (hchange : ∀ b, (change b).unpromised = change b.unpromised) (f : Forest)
    (i j : BucketId) :
    (f.modify i change).seen j = if i = j then (f.seen j).map change else f.seen j := by
  rw [seen, seen, get?_modify]
  split
  · rw [Option.map_map, Option.map_map]
    exact congrArg (Option.map · (f.get? j)) (funext hchange)
  · rfl

/-- Promises are not seen. -/
theorem seen_recommit (f : Forest) (i : Option BucketId) (change : UInt64 → UInt64) (j : BucketId) :
    (f.recommit i change).seen j = f.seen j := by
  cases i with
  | none => rfl
  | some i =>
    rw [recommit, seen, seen, get?_modify]
    split
    · rw [Option.map_map]
      rfl
    · rfl

/-- Such a change leaves buckets the same that were seen to be the same. -/
theorem seen_modify_congr (hchange : ∀ b, (change b).unpromised = change b.unpromised)
    (h : f.seen j = g.seen j) : (f.modify i change).seen j = (g.modify i change).seen j := by
  rw [seen_modify hchange, seen_modify hchange, h]

/-- So do such changes to any number of buckets. -/
theorem seen_modifyAll_congr (hchange : ∀ b, (change b).unpromised = change b.unpromised)
    (ids : List BucketId) (h : f.seen j = g.seen j) :
    (f.modifyAll ids change).seen j = (g.modifyAll ids change).seen j := by
  induction ids generalizing f g with
  | nil => exact h
  | cons id ids ih => exact ih (seen_modify_congr hchange h)

/-- Another rate is seen in its bucket, and only there. -/
theorem seen_setRate (f : Forest) (id : BucketId) (rate burst : UInt64) (now : Instant)
    (j : BucketId) : (f.setRate id rate burst now).seen j =
      if id = j then (f.seen j).map (Bucket.setRate rate burst now) else f.seen j := by
  rw [setRate]
  cases hid : f.get? id with
  | none =>
    dsimp only
    split
    · rename_i heq
      rw [← heq, seen, hid]
      rfl
    · rfl
  | some b =>
    dsimp only
    rw [seen_modify (Bucket.unpromised_setRate rate burst now)]
    split <;> split <;> simp only [seen_recommit]

/-- That a bucket is detached is seen in this bucket only. -/
theorem seen_detach (f : Forest) (id j : BucketId) : (f.detach id).seen j =
    if id = j then (f.seen j).map (fun b ↦ { b with attached := false }) else f.seen j := by
  rw [detach]
  cases hid : f.get? id with
  | none =>
    dsimp only
    split
    · rename_i heq
      rw [← heq, seen, hid]
      rfl
    · rfl
  | some b =>
    dsimp only
    by_cases hattached : b.attached = true
    · have hchange (b : Bucket) : { b with attached := false }.unpromised =
          { b.unpromised with attached := false } := rfl
      rw [if_pos hattached, seen_modify hchange, seen_recommit]
    · rw [if_neg hattached]
      split
      · -- it was detached before
        rename_i heq
        obtain ⟨ancestors, rate, burst, level, refilled, committed, attached⟩ := b
        obtain rfl : attached = false := eq_false_of_ne_true hattached
        rw [← heq, seen, hid]
        rfl
      · rfl

/-- Asking for a level brings one bucket up to date. -/
theorem seen_level (f : Forest) (id : BucketId) (now : Instant) (j : BucketId) :
    (f.level id now).2.seen j =
      if id = j then (f.seen j).map (Bucket.observe now) else f.seen j :=
  seen_modify (Bucket.unpromised_observe now) f id j

/-! ### Taking -/

/-- Buckets that are seen to be the same draw from the same others. -/
theorem line_congr (h : f.seen id = g.seen id) : f.line id = g.line id := by
  have hancestors (f : Forest) : (f.get? id).map Bucket.ancestors = (f.seen id).map Bucket.ancestors := by
    rw [seen, Option.map_map]
    rfl
  rw [line, line, hancestors, hancestors, h]

/-- **Forests that are seen to be the same along a line give the same answer,** and go on to be seen to be
the same wherever they were. -/
theorem approve_congr (n : Nat) (now : Instant) (hids : ∀ i ∈ ids, f.seen i = g.seen i) :
    (approve n now ids f).1 = (approve n now ids g).1 ∧
      ∀ j, f.seen j = g.seen j → (approve n now ids f).2.seen j = (approve n now ids g).2.seen j := by
  induction ids generalizing f g with
  | nil => exact ⟨rfl, fun _ h ↦ h⟩
  | cons id ids ih =>
    obtain ⟨hid, hids⟩ := List.forall_mem_cons.1 hids
    cases hf : f.get? id with
    | none =>
      rw [approve, approve, hf, get?_eq_none_of_seen_eq hid hf]
      exact ⟨rfl, fun _ h ↦ h⟩
    | some b =>
      obtain ⟨b', hg, hsame⟩ := exists_of_seen_eq hid hf
      have hattached : b'.attached = b.attached := (congrArg Bucket.attached hsame :)
      have haffords : (b'.observe now).affords n = (b.observe now).affords n := by
        have hobserve := congrArg (Bucket.affords n) (congrArg (Bucket.observe now) hsame)
        rwa [← Bucket.unpromised_observe, ← Bucket.unpromised_observe] at hobserve
      have hobserved : ∀ j, f.seen j = g.seen j →
          (f.modify id (Bucket.observe now)).seen j = (g.modify id (Bucket.observe now)).seen j :=
        fun _ ↦ seen_modify_congr (Bucket.unpromised_observe now)
      rw [approve, approve, hf, hg]
      simp only [modify_const hf, modify_const hg, hattached, haffords]
      split
      · exact ⟨rfl, fun _ h ↦ h⟩
      · split
        · obtain ⟨hanswer, hseen⟩ := ih fun i hi ↦ hobserved i (hids i hi)
          exact ⟨hanswer, fun j hj ↦ hseen j (hobserved j hj)⟩
        · exact ⟨rfl, hobserved⟩

/-- **Taking from a bucket** does the same in two forests in which the buckets of its line are seen
to be the same. -/
theorem withdraw_congr (hline : ∀ i ∈ f.line id, f.seen i = g.seen i) :
    (f.withdraw id n now).1 = (g.withdraw id n now).1 ∧
      ∀ j, f.seen j = g.seen j → (f.withdraw id n now).2.seen j = (g.withdraw id n now).2.seen j := by
  obtain ⟨hanswer, hseen⟩ := approve_congr n now hline
  have hfst (f : Forest) : (f.withdraw id n now).1 = (approve n now (f.line id) f).1 := by
    rw [Bool.eq_iff_iff, withdraw_fst_iff, approve_fst_iff]
  have hsame := line_congr (hline id List.mem_cons_self)
  rw [hsame] at hanswer hseen
  refine ⟨by rw [hfst, hfst, hsame, hanswer], fun j hj ↦ ?_⟩
  rw [withdraw_snd, withdraw_snd, hfst, hfst, hsame, hanswer]
  split
  · exact seen_modifyAll_congr (Bucket.unpromised_charge n) _ (hseen j hj)
  · exact hseen j hj

/-- The position has an unlimited bucket. -/
def IsUnlimited (f : Forest) (j : BucketId) : Prop :=
  ∃ b, f.get? j = some b ∧ b.isUnlimited = true

/-- A change that an unlimited bucket does not feel leaves it alone, whichever bucket it is made to.
-/
theorem IsUnlimited.get?_modify_eq (h : f.IsUnlimited j)
    (hchange : ∀ b : Bucket, b.isUnlimited = true → change b = b) (i : BucketId) :
    (f.modify i change).get? j = f.get? j := by
  obtain ⟨b, hb, hunlimited⟩ := h
  rw [get?_modify, hb]
  split
  · exact congrArg some (hchange b hunlimited)
  · rfl

theorem IsUnlimited.of_get?_eq (h : f.IsUnlimited j) (heq : g.get? j = f.get? j) : g.IsUnlimited j := by
  rw [IsUnlimited, heq]
  exact h

/-- **Nothing is taken from an unlimited bucket,** and nothing accounted for. -/
theorem IsUnlimited.get?_withdraw_eq (h : f.IsUnlimited j) (id : BucketId) (n : Nat) (now : Instant) :
    (f.withdraw id n now).2.get? j = f.get? j := by
  have hasked : ∀ (ids : List BucketId) (f : Forest), f.IsUnlimited j →
      (approve n now ids f).2.get? j = f.get? j := by
    intro ids
    induction ids with
    | nil => exact fun _ _ ↦ rfl
    | cons id ids ih =>
      intro f h
      have hkept := h.get?_modify_eq (fun _ hb ↦ Bucket.observe_of_isUnlimited hb now) id
      obtain ⟨-, heq⟩ | ⟨-, heq | heq⟩ := approve_cons_cases n now id ids f <;> rw [heq]
      · exact (ih _ (h.of_get?_eq hkept)).trans hkept
      · exact hkept
  have hcharged : ∀ (ids : List BucketId) (f : Forest), f.IsUnlimited j →
      (f.modifyAll ids (Bucket.charge n)).get? j = f.get? j := by
    intro ids
    induction ids with
    | nil => exact fun _ _ ↦ rfl
    | cons id ids ih =>
      intro f h
      have hkept := h.get?_modify_eq (fun _ hb ↦ Bucket.charge_of_isUnlimited hb n) id
      exact (ih _ (h.of_get?_eq hkept)).trans hkept
  have hfirst := hasked (f.line id) f h
  rw [withdraw_snd]
  split
  · exact (hcharged _ _ (h.of_get?_eq hfirst)).trans hfirst
  · exact hfirst

/-! ### New buckets -/

/-- What was not added yet is not seen. -/
theorem seen_of_length_le (h : f.buckets.length ≤ j) : f.seen j = none := by
  rw [seen, get?, List.getElem?_eq_none_iff.2 h]
  rfl

/-- A new bucket is seen full, and nothing else has changed. -/
theorem seen_addChild (f : Forest) (parent : BucketId) (rate burst : UInt64) (now : Instant)
    (j : BucketId) : (f.addChild parent rate burst now).2.seen j =
      if j = f.buckets.length then some (Bucket.full (f.line parent) rate burst now) else f.seen j := by
  have hlength := f.length_addChild parent rate burst now
  split
  · rename_i heq
    rw [heq, seen, get?_addChild_self]
    rfl
  · rename_i hne
    by_cases hlt : j < f.buckets.length
    · rw [seen, get?_addChild_of_lt hlt]
      exact seen_recommit f (some parent) _ j
    · have hle : f.buckets.length < j := Nat.lt_of_le_of_ne (Nat.le_of_not_lt hlt) (Ne.symm hne)
      rw [seen_of_length_le (hlength ▸ hle), seen_of_length_le (Nat.le_of_lt hle)]

/-- The forests have as many buckets, and those at the given positions are seen to be the same. -/
structure Agree (P : BucketId → Prop) (f g : Forest) : Prop where
  length : f.buckets.length = g.buckets.length
  seen : ∀ j, P j → f.seen j = g.seen j

/-- Positions that have no bucket yet can be added. -/
theorem Agree.or_length_le (h : Agree P f g) : Agree (fun j ↦ P j ∨ f.buckets.length ≤ j) f g := by
  refine ⟨h.length, fun j hj ↦ hj.elim (h.seen j) fun hle ↦ ?_⟩
  rw [seen_of_length_le hle, seen_of_length_le (h.length ▸ hle)]

/-- Buckets are numbered in the order in which they are added. -/
theorem fst_addChild (f : Forest) (parent : BucketId) (rate burst : UInt64) (now : Instant) :
    (f.addChild parent rate burst now).1 = f.buckets.length :=
  length_recommit ..

/-- Below a bucket that is seen to be the same, a new one is the same. -/
theorem Agree.addChild (h : Agree P f g) (hparent : P parent) (rate burst : UInt64) (now : Instant) :
    (f.addChild parent rate burst now).1 = (g.addChild parent rate burst now).1 ∧
      Agree P (f.addChild parent rate burst now).2 (g.addChild parent rate burst now).2 := by
  refine ⟨by rw [fst_addChild, fst_addChild, h.length], ?_, fun j hj ↦ ?_⟩
  · rw [length_addChild, length_addChild, h.length]
  · rw [seen_addChild, seen_addChild, h.length, line_congr (h.seen parent hparent), h.seen j hj]

end Forest

namespace Allowance

variable {a : Allowance} {root i j : BucketId} {f g : Forest} {o : Forest.Operation}
  {ops : List Forest.Operation}

/-! ### Below an unlimited root -/

/-- The allowance has its buckets below an unlimited one, which draws from no other. -/
structure Below (a : Allowance) (root : BucketId) (f : Forest) : Prop where
  planted : f.Planted
  placed : a.Placed root f
  root : ∃ b, f.get? root = some b ∧ b.ancestors = [] ∧ b.isUnlimited = true

/-- The root draws from nothing else. -/
theorem Below.line_root (h : a.Below root f) : f.line root = [root] := by
  obtain ⟨b, hb, hancestors, -⟩ := h.root
  rw [Forest.line_eq hb, hancestors]

/-- The total draws from the root. -/
theorem Below.line_total (h : a.Below root f) : f.line a.total = [a.total, root] := by
  obtain ⟨t, ht, hhead⟩ := h.placed.total
  obtain hnil | ⟨p, -, hline⟩ := h.planted _ t ht
  · rw [hnil] at hhead
    cases hhead
  · rw [hline] at hhead
    obtain rfl : p = root := Option.some.inj hhead
    rw [Forest.line_eq ht, hline, h.line_root]

/-- A lane draws from the total, and through it from the root. -/
theorem Below.line_lane (h : a.Below root f) (lane : Lane) :
    f.line (a.lanes.get lane) = [a.lanes.get lane, a.total, root] := by
  obtain ⟨b, hb, hhead⟩ := h.placed.rooted lane
  obtain hnil | ⟨p, -, hline⟩ := h.planted _ b hb
  · rw [hnil] at hhead
    cases hhead
  · rw [hline] at hhead
    obtain rfl : p = a.total := Option.some.inj hhead
    rw [Forest.line_eq hb, hline, h.line_total]

/-- The buckets of the allowance draw from one another, and from the root. -/
theorem Below.eq_or_owns_of_mem_line (h : a.Below root f) (hj : a.Owns j) (hi : i ∈ f.line j) :
    i = root ∨ a.Owns i := by
  obtain rfl | ⟨lane, rfl⟩ := hj
  · rw [h.line_total] at hi
    obtain rfl | hi := List.mem_cons.1 hi
    · exact .inr (.inl rfl)
    · exact .inl (List.mem_singleton.1 hi)
  · rw [h.line_lane] at hi
    obtain rfl | hi := List.mem_cons.1 hi
    · exact .inr (.inr ⟨lane, rfl⟩)
    obtain rfl | hi := List.mem_cons.1 hi
    · exact .inr (.inl rfl)
    · exact .inl (List.mem_singleton.1 hi)

/-- The root is not one of them. -/
theorem Below.not_owns_root (h : a.Below root f) : ¬a.Owns root := by
  obtain ⟨b, hb, hnil, -⟩ := h.root
  rintro (heq | ⟨lane, heq⟩)
  · exact h.placed.root_ne heq.symm
  · obtain ⟨b', hb', hhead⟩ := h.placed.rooted lane
    obtain rfl := Option.some.inj ((heq ▸ hb).symm.trans hb')
    rw [hnil] at hhead
    cases hhead

/-- **What is done with an allowance is seen in its own buckets only.** -/
theorem Below.seen_apply (h : a.Below root f) (ho : a.Handles o) (hj : ¬a.Owns j) :
    (f.apply o).seen j = f.seen j := by
  have hne : ∀ {id}, a.Owns id → id ≠ j := fun hid heq ↦ hj (heq ▸ hid)
  cases o with
  | withdraw id n now =>
    by_cases hmem : j ∈ f.line id
    · -- the only bucket of the line that is not one of the allowance is the root
      obtain rfl := (h.eq_or_owns_of_mem_line ho hmem).resolve_right hj
      obtain ⟨b, hb, -, hunlimited⟩ := h.root
      have hroot : f.IsUnlimited j := ⟨b, hb, hunlimited⟩
      exact congrArg (Option.map Bucket.unpromised) (hroot.get?_withdraw_eq id n now)
    · obtain ⟨-, -, -, houtside⟩ := Forest.withdraw_all_or_nothing h.planted id n now
      exact congrArg (Option.map Bucket.unpromised) (houtside j hmem)
  | level id now => exact (Forest.seen_level ..).trans (if_neg (hne ho))
  | setRate id rate burst now => exact (Forest.seen_setRate ..).trans (if_neg (hne ho))
  | detach id => exact (Forest.seen_detach ..).trans (if_neg (hne ho))
  | addRoot => exact ho.elim
  | addChild => exact ho.elim

/-- What an unlimited root is seen to be, it is. -/
theorem root_of_seen_eq (heq : g.seen root = f.seen root)
    (h : ∃ b, f.get? root = some b ∧ b.ancestors = [] ∧ b.isUnlimited = true) :
    ∃ b, g.get? root = some b ∧ b.ancestors = [] ∧ b.isUnlimited = true := by
  obtain ⟨b, hb, hancestors, hunlimited⟩ := h
  obtain ⟨b', hb', hsame⟩ := Forest.exists_of_seen_eq heq.symm hb
  exact ⟨b', hb', (congrArg Bucket.ancestors hsame :).trans hancestors,
    (congrArg Bucket.isUnlimited hsame :).trans hunlimited⟩

/-- An allowance stays below its root, whatever is done with its buckets. -/
theorem Below.apply (h : a.Below root f) (ho : a.Handles o) : a.Below root (f.apply o) where
  planted := h.planted.apply o
  placed := h.placed.run [o]
  root := root_of_seen_eq (h.seen_apply ho h.not_owns_root) h.root

/-- What is done with the buckets of an allowance is seen in them only. -/
theorem Below.seen_run (h : a.Below root f) (hops : ∀ o ∈ ops, a.Handles o) (hj : ¬a.Owns j) :
    (f.run ops).seen j = f.seen j := by
  induction ops generalizing f with
  | nil => rfl
  | cons o ops ih =>
    obtain ⟨ho, hops⟩ := List.forall_mem_cons.1 hops
    exact (ih (h.apply ho) hops).trans (h.seen_apply ho hj)

/-- No bucket comes or goes. -/
theorem Draws.length_eq (h : a.Draws f g) : g.buckets.length = f.buckets.length := by
  obtain ⟨ops, hops, rfl⟩ := h
  induction ops generalizing f with
  | nil => rfl
  | cons o ops ih =>
    obtain ⟨ho, hops⟩ := List.forall_mem_cons.1 hops
    refine (ih hops).trans ?_
    cases o with
    | withdraw id n now => exact Forest.length_eq_of_terms (Forest.terms_withdraw ..)
    | level id now => exact Forest.length_modify ..
    | setRate id rate burst now => exact Forest.length_setRate ..
    | detach id => exact Forest.length_detach ..
    | addRoot => exact ho.elim
    | addChild => exact ho.elim

/-! ### Two forests that look the same -/

/-- In two forests, the root and the buckets of the allowance are seen to be the same. -/
structure Twins (a : Allowance) (root : BucketId) (f g : Forest) : Prop where
  below : a.Below root f
  seen : ∀ j, j = root ∨ a.Owns j → f.seen j = g.seen j

/-- All buckets that an owned one draws from look the same. -/
theorem Twins.seen_line (h : a.Twins root f g) (hj : a.Owns j) (hi : i ∈ f.line j) :
    f.seen i = g.seen i :=
  h.seen i (h.below.eq_or_owns_of_mem_line hj hi)

/-- **The same operation leaves them looking the same.** -/
theorem Twins.apply (h : a.Twins root f g) (ho : a.Handles o) :
    a.Twins root (f.apply o) (g.apply o) := by
  refine ⟨h.below.apply ho, fun j hj ↦ ?_⟩
  have hseen := h.seen j hj
  cases o with
  | withdraw id n now => exact (Forest.withdraw_congr fun i hi ↦ h.seen_line ho hi).2 j hseen
  | level id now => exact Forest.seen_modify_congr (Bucket.unpromised_observe now) hseen
  | setRate id rate burst now =>
    show (f.setRate id rate burst now).seen j = (g.setRate id rate burst now).seen j
    rw [Forest.seen_setRate, Forest.seen_setRate, hseen]
  | detach id =>
    show (f.detach id).seen j = (g.detach id).seen j
    rw [Forest.seen_detach, Forest.seen_detach, hseen]
  | addRoot => exact ho.elim
  | addChild => exact ho.elim

/-- Two forests go on looking the same through any number of operations on the allowance. -/
theorem Twins.run (h : a.Twins root f g) (hops : ∀ o ∈ ops, a.Handles o) :
    a.Twins root (f.run ops) (g.run ops) := by
  induction ops generalizing f g with
  | nil => exact h
  | cons o ops ih =>
    obtain ⟨ho, hops⟩ := List.forall_mem_cons.1 hops
    exact ih (h.apply ho) hops

/-- A withdrawal is answered alike in both. -/
theorem Twins.withdraw (h : a.Twins root f g) (category : Category) (n : Nat) (now : Instant) :
    (a.withdraw category n now f).1 = (a.withdraw category n now g).1 ∧
      a.Twins root (a.withdraw category n now f).2 (a.withdraw category n now g).2 := by
  cases category with
  | unthrottled => exact ⟨rfl, h⟩
  | throttled lane =>
    have howns : a.Owns (a.lanes.get lane) := .inr ⟨lane, rfl⟩
    refine ⟨(Forest.withdraw_congr fun i hi ↦ h.seen_line howns hi).1, ?_⟩
    exact h.apply (o := .withdraw (a.lanes.get lane) n now) howns

/-- They look the same once the allowance is detached in both. -/
theorem Twins.detach (h : a.Twins root f g) : a.Twins root (a.detach f) (a.detach g) := by
  rw [← run_detaching, ← run_detaching]
  refine h.run fun o ho ↦ ?_
  obtain ⟨j, hj, rfl⟩ := handles_detaching ho
  exact hj

/-- They show the same rates. -/
theorem Twins.rates (h : a.Twins root f g) : a.rates f = a.rates g := by
  refine PerLane.ext fun lane ↦ ?_
  have hrate (f : Forest) (id : BucketId) :
      (f.get? id).map Bucket.rate = (f.seen id).map Bucket.rate := by
    rw [Forest.seen, Option.map_map]
    rfl
  rw [Allowance.rates, Allowance.rates, PerLane.get_map, PerLane.get_map, hrate, hrate,
    h.seen _ (.inr (.inr ⟨lane, rfl⟩))]

end Allowance

end DatagramCircuits
