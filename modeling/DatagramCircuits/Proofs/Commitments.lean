import DatagramCircuits.Proofs.Buckets
import DatagramCircuits.Traffic.Operation
import Mathlib.Algebra.GroupWithZero.Nat
/-!
# What a forest of buckets keeps account of

**Every bucket has promised what its attached children draw at now** (`Forest.Balanced`), modulo
64 bits, in every forest that operations lead to. An operation leaves the terms of all buckets alone,
or adds a bucket, or gives one bucket other terms (`Forest.Adjusts`). In the last case the bucket it
draws from accounts for the difference between what is due to it before and after, where nothing is due
to a bucket that is detached (`Bucket.due`). Nothing is remembered about the past: the difference is
read off the bucket as it is then.

**Buckets stay where they were planted.** What a bucket draws from was there before it and never
changes (`Forest.Planted`), so the buckets below some bucket are a matter of the two of them only, and
what is done below a detached bucket is not heard of above it (`Forest.committed_apply_of_below`).
-/

namespace DatagramCircuits

/-- The rate that a bucket has to be promised: none once it is detached. -/
def Bucket.due (b : Bucket) : UInt64 :=
  if b.attached then b.rate else 0

/-- What is due depends on the rate, and on whether the bucket is attached. -/
theorem Bucket.due_congr {b b' : Bucket} (hrate : b'.rate = b.rate)
    (hattached : b'.attached = b.attached) : b'.due = b.due := by
  rw [due, due, hrate, hattached]

namespace Forest

variable {f f' : Forest} {id j top parent : BucketId} {b b' t : Bucket} {rate burst : UInt64}
  {attached : Bool} {now : Instant} {o : Operation} {ops : List Operation}

/-! ### One bucket with other terms -/

/-- A bucket has another rate or is detached now, and the bucket it draws from has accounted for
that. -/
structure Adjusts (id : BucketId) (t : Bucket) (rate : UInt64) (attached : Bool) (f f' : Forest) :
    Prop where
  before : f.get? id = some t
  length : f'.buckets.length = f.buckets.length
  bucket : ∀ j b, f.get? j = some b → ∃ b', f'.get? j = some b' ∧ b'.ancestors = b.ancestors ∧
    b'.rate = (if id = j then rate else b.rate) ∧
    b'.attached = (if id = j then attached else b.attached) ∧
    b'.committed = if t.ancestors.head? = some j then
      b.committed + (if attached then rate else 0) - t.due else b.committed

/-- The bucket that it draws from promises something else. -/
theorem exists_recommit {i : Option BucketId} (change : UInt64 → UInt64) (hb : f.get? j = some b) :
    ∃ b', (f.recommit i change).get? j = some b' ∧ b'.ancestors = b.ancestors ∧ b'.rate = b.rate ∧
      b'.attached = b.attached ∧
      b'.committed = if i = some j then change b.committed else b.committed := by
  cases i with
  | none => exact ⟨b, hb, rfl, rfl, rfl, rfl⟩
  | some i =>
    rw [recommit, get?_modify, hb]
    by_cases h : i = j
    · rw [if_pos h, if_pos (congrArg some h)]
      exact ⟨_, rfl, rfl, rfl, rfl, rfl⟩
    · rw [if_neg h, if_neg (mt Option.some.inj h)]
      exact ⟨b, rfl, rfl, rfl, rfl, rfl⟩

/-- Then it has other terms itself. -/
theorem adjusts_modify {k : UInt64 → UInt64} {g : Bucket → Bucket} (hid : f.get? id = some t)
    (hchange : ∀ c, k c = c + (if attached then rate else 0) - t.due)
    (hg : ∀ b, b.rate = t.rate → b.attached = t.attached →
      (g b).terms = (b.ancestors, rate, b.committed, attached)) :
    Adjusts id t rate attached f ((f.recommit (f.parent? id) k).modify id g) := by
  refine ⟨hid, by rw [length_modify, length_recommit], fun j b hb ↦ ?_⟩
  obtain ⟨c, hc, hancestors, hrate, hattached, hcommitted⟩ :=
    exists_recommit (i := f.parent? id) k hb
  rw [hchange, parent?_eq hid] at hcommitted
  rw [get?_modify, hc]
  by_cases hj : id = j
  · subst hj
    obtain rfl := Option.some.inj (hid.symm.trans hb)
    have hterms := hg c hrate hattached
    simp only [Bucket.terms, Prod.mk.injEq] at hterms
    simp only [if_true]
    exact ⟨g c, rfl, hterms.1.trans hancestors, hterms.2.1, hterms.2.2.2,
      hterms.2.2.1.trans hcommitted⟩
  · simp only [if_neg hj]
    exact ⟨c, rfl, hancestors, hrate, hattached, hcommitted⟩

theorem recommit_id (f : Forest) (i : Option BucketId) : f.recommit i (fun c ↦ c) = f := by
  cases i with
  | none => rfl
  | some i => exact congrArg Forest.mk (List.modify_id i f.buckets)

/-- A new rate adjusts one bucket. -/
theorem adjusts_setRate (hid : f.get? id = some t) (rate burst : UInt64) (now : Instant) :
    Adjusts id t rate t.attached f (f.setRate id rate burst now) := by
  have hg : ∀ b : Bucket, b.rate = t.rate → b.attached = t.attached →
      (b.setRate rate burst now).terms = (b.ancestors, rate, b.committed, t.attached) :=
    fun b _ hattached ↦ by rw [b.terms_setRate, hattached]
  simp only [setRate, hid]
  by_cases hattached : t.attached = true
  · rw [if_pos hattached]
    exact adjusts_modify hid (fun c ↦ by simp only [Bucket.due, hattached, if_true]) hg
  · have hsame := adjusts_modify (k := fun c ↦ c) hid
      (fun c ↦ by simp [Bucket.due, hattached]) hg
    rw [if_neg hattached]
    rwa [recommit_id] at hsame

theorem Adjusts.refl (hid : f.get? id = some t) : Adjusts id t t.rate t.attached f f := by
  have hself : ∀ {j b}, f.get? j = some b → id = j → b = t := fun hb heq ↦
    Option.some.inj ((heq ▸ hb).symm.trans hid)
  refine ⟨hid, rfl, fun j b hb ↦ ⟨b, hb, rfl, ?_, ?_, ?_⟩⟩
  · split
    · rw [hself hb ‹_›]
    · rfl
  · split
    · rw [hself hb ‹_›]
    · rfl
  · rw [← Bucket.due, UInt64.add_sub_cancel, ite_self]

/-- Detaching adjusts one bucket, which keeps its rate. -/
theorem adjusts_detach (hid : f.get? id = some t) : Adjusts id t t.rate false f (f.detach id) := by
  simp only [detach, hid]
  by_cases hattached : t.attached = true
  · rw [if_pos hattached]
    refine adjusts_modify hid (fun c ↦ ?_) fun b hrate _ ↦ ?_
    · simp [Bucket.due, hattached]
    · simp only [Bucket.terms, hrate]
  · rw [if_neg hattached]
    have hsame := Adjusts.refl hid
    rwa [eq_false_of_ne_true hattached] at hsame

/-- **What an operation does.** It leaves the terms of all buckets alone, or adds a bucket, or gives a
bucket other terms; one that is detached stays so. -/
theorem apply_cases (f : Forest) (o : Operation) :
    (f.apply o).terms = f.terms ∨
    (∃ rate burst now, f.apply o = (f.addRoot rate burst now).2) ∨
    (∃ parent t rate burst now, o = .addChild parent rate burst now ∧ f.get? parent = some t ∧
      f.apply o = (f.addChild parent rate burst now).2) ∨
    ∃ id t rate attached, o.subject? = some id ∧ (t.attached = false → attached = false) ∧
      Adjusts id t rate attached f (f.apply o) := by
  have hnone : ∀ {f' : Forest}, f' = f → f'.terms = f.terms := fun h ↦ congrArg terms h
  cases o with
  | addRoot rate burst now => exact .inr (.inl ⟨rate, burst, now, rfl⟩)
  | addChild parent rate burst now =>
    cases hparent : f.get? parent with
    | none => exact .inl (hnone (by simp [apply, hparent]))
    | some t =>
      refine .inr (.inr (.inl ⟨parent, t, rate, burst, now, rfl, hparent, ?_⟩))
      simp [apply, hparent]
  | withdraw id n now => exact .inl (f.terms_withdraw id n now)
  | level id now => exact .inl (terms_modify fun b _ ↦ b.terms_observe now)
  | setRate id rate burst now =>
    cases hid : f.get? id with
    | none => exact .inl (hnone (by simp [apply, setRate, hid]))
    | some t =>
      exact .inr (.inr (.inr ⟨id, t, rate, t.attached, rfl, fun h ↦ h,
        adjusts_setRate hid rate burst now⟩))
  | detach id =>
    cases hid : f.get? id with
    | none => exact .inl (hnone (by simp [apply, detach, hid]))
    | some t =>
      exact .inr (.inr (.inr ⟨id, t, t.rate, false, rfl, fun _ ↦ rfl, adjusts_detach hid⟩))

/-! ### Where buckets are -/

/-- What a bucket draws from was there before it. -/
def Planted (f : Forest) : Prop :=
  ∀ id b, f.get? id = some b → b.ancestors = [] ∨ ∃ p < id, b.ancestors = f.line p

/-- A withdrawal asks the bucket itself, and then those above it. -/
theorem line_eq (hb : f.get? j = some b) : f.line j = j :: b.ancestors := by
  rw [line, hb]
  rfl

theorem get?_addRoot_of_get? (hb : f.get? j = some b) :
    (f.addRoot rate burst now).2.get? j = some b := by
  rw [get?] at hb ⊢
  rw [addRoot, List.getElem?_append_left (List.getElem?_eq_some_iff.1 hb).1, hb]

theorem get?_addRoot_self (f : Forest) (rate burst : UInt64) (now : Instant) :
    (f.addRoot rate burst now).2.get? f.buckets.length = some (Bucket.full [] rate burst now) := by
  rw [get?, addRoot, List.getElem?_append_right (Nat.le_refl _), Nat.sub_self]
  rfl

/-- An operation takes no bucket away, moves none, and attaches none again. -/
theorem exists_apply (o : Operation) (hb : f.get? j = some b) :
    ∃ b', (f.apply o).get? j = some b' ∧ b'.ancestors = b.ancestors ∧
      (b.attached = false → b'.attached = false) := by
  obtain hterms | ⟨rate, burst, now, heq⟩ | ⟨parent, t, rate, burst, now, -, -, heq⟩ |
    ⟨id, t, rate, attached, -, hdetached, hadjusts⟩ := f.apply_cases o
  · obtain ⟨b', hb', hancestors, -, -, hattached⟩ := exists_of_terms hterms hb
    exact ⟨b', hb', hancestors, fun h ↦ hattached.trans h⟩
  · exact ⟨b, heq ▸ get?_addRoot_of_get? hb, rfl, fun h ↦ h⟩
  · rw [heq, get?_addChild_of_get? hb]
    split <;> exact ⟨_, rfl, rfl, fun h ↦ h⟩
  · obtain ⟨b', hb', hancestors, -, hattached, -⟩ := hadjusts.bucket j b hb
    refine ⟨b', hb', hancestors, fun h ↦ hattached.trans ?_⟩
    split
    · rename_i heq
      subst heq
      obtain rfl := Option.some.inj (hb.symm.trans hadjusts.before)
      exact hdetached h
    · exact h

/-- No operation moves a bucket, and what is detached stays so. -/
theorem exists_run (ops : List Operation) (hb : f.get? j = some b) :
    ∃ b', (f.run ops).get? j = some b' ∧ b'.ancestors = b.ancestors ∧
      (b.attached = false → b'.attached = false) := by
  induction ops generalizing f b with
  | nil => exact ⟨b, hb, rfl, fun h ↦ h⟩
  | cons o ops ih =>
    obtain ⟨b₁, hb₁, hancestors₁, hdetached₁⟩ := exists_apply o hb
    obtain ⟨b', hb', hancestors, hdetached⟩ := ih hb₁
    exact ⟨b', hb', hancestors.trans hancestors₁, fun h ↦ hdetached (hdetached₁ h)⟩

/-- A bucket draws from the same others for good. -/
theorem line_run (ops : List Operation) (hb : f.get? j = some b) : (f.run ops).line j = f.line j := by
  obtain ⟨b', hb', hancestors, -⟩ := exists_run ops hb
  rw [line_eq hb, line_eq hb', hancestors]

/-- What an operation adds is added behind all others, without a promise, and draws from a bucket
there is, if from any. -/
theorem of_apply_of_none (hb : (f.apply o).get? j = some b) (hnew : f.get? j = none) :
    j = f.buckets.length ∧ b.committed = 0 ∧
      (b.ancestors = [] ∨ ∃ p t, f.get? p = some t ∧ b.ancestors = f.line p) := by
  have hle : f.buckets.length ≤ j := List.getElem?_eq_none_iff.1 hnew
  have hlt := lt_length_of_get? hb
  obtain hterms | ⟨rate, burst, now, heq⟩ | ⟨parent, t, rate, burst, now, -, hparent, heq⟩ |
    ⟨id, t, rate, attached, -, -, hadjusts⟩ := f.apply_cases o
  · exact absurd (length_eq_of_terms hterms ▸ hlt) (Nat.not_lt.2 hle)
  · have hlength : (f.addRoot rate burst now).2.buckets.length = f.buckets.length + 1 :=
      List.length_append
    rw [heq, hlength] at hlt
    obtain rfl : j = f.buckets.length := Nat.le_antisymm (Nat.le_of_lt_succ hlt) hle
    obtain rfl := Option.some.inj (hb.symm.trans (heq ▸ f.get?_addRoot_self rate burst now))
    exact ⟨rfl, rfl, .inl rfl⟩
  · rw [heq, length_addChild] at hlt
    obtain rfl : j = f.buckets.length := Nat.le_antisymm (Nat.le_of_lt_succ hlt) hle
    obtain rfl := Option.some.inj (hb.symm.trans (heq ▸ f.get?_addChild_self parent rate burst now))
    exact ⟨rfl, rfl, .inr ⟨parent, t, hparent, rfl⟩⟩
  · exact absurd (hadjusts.length ▸ hlt) (Nat.not_lt.2 hle)

/-- Buckets are planted below others that were there before. -/
theorem Planted.apply (h : f.Planted) (o : Operation) : (f.apply o).Planted := by
  intro j b hb
  cases hold : f.get? j with
  | some c =>
    obtain ⟨b', hb', hancestors, -⟩ := exists_apply o hold
    obtain rfl := Option.some.inj (hb.symm.trans hb')
    rw [hancestors]
    refine (h j c hold).imp_right fun ⟨p, hp, hline⟩ ↦ ⟨p, hp, hline.trans ?_⟩
    have hlt : p < f.buckets.length := Nat.lt_trans hp (lt_length_of_get? hold)
    exact (line_run [o] (List.getElem?_eq_getElem hlt)).symm
  | none =>
    obtain ⟨rfl, -, hancestors⟩ := of_apply_of_none hb hold
    refine hancestors.imp_right fun ⟨p, t, hp, hline⟩ ↦ ⟨p, lt_length_of_get? hp, ?_⟩
    exact hline.trans (line_run [o] hp).symm

/-- **Buckets stay where they were planted,** whatever is done in the forest. -/
theorem Planted.run (h : f.Planted) (ops : List Operation) : (f.run ops).Planted := by
  induction ops generalizing f with
  | nil => exact h
  | cons o ops ih => exact ih (h.apply o)

/-- What a bucket draws from comes before it. -/
theorem Planted.le_of_mem_line (h : f.Planted) (hj : j ∈ f.line id) : j ≤ id := by
  induction id using Nat.strongRecOn with
  | _ id ih =>
    cases hid : f.get? id with
    | none =>
      rw [line, hid] at hj
      exact Nat.le_of_eq (List.mem_singleton.1 hj)
    | some b =>
      rw [line_eq hid] at hj
      obtain rfl | hancestor := List.mem_cons.1 hj
      · exact Nat.le_refl _
      · obtain hnil | ⟨p, hp, hline⟩ := h id b hid
        · rw [hnil] at hancestor
          cases hancestor
        · exact Nat.le_trans (ih p hp (hline ▸ hancestor)) (Nat.le_of_lt hp)

theorem planted_empty : Planted {} := fun _ _ hb ↦ nomatch hb

/-! ### Promises -/

/-- The attached buckets that draw from a bucket first. -/
def children (f : Forest) (j : BucketId) : List Bucket :=
  f.buckets.filter fun b ↦ b.attached && b.ancestors.head? == some j

/-- What the attached children of a bucket draw at now, taken together. -/
def promised (f : Forest) (j : BucketId) : Nat :=
  ((f.children j).map (·.rate.toNat)).sum

/-- Every bucket keeps account of what it has promised. -/
def Balanced (f : Forest) : Prop :=
  ∀ j b, f.get? j = some b → b.committed.toNat = f.promised j % 2 ^ 64

/-- What each bucket counts for in the promise of the given one. -/
def shares (f : Forest) (j : BucketId) : List Nat :=
  f.buckets.map fun b ↦ if b.ancestors.head? = some j then b.due.toNat else 0

/-- What a bucket has promised is the sum of the shares of all buckets. -/
theorem promised_eq_sum (f : Forest) (j : BucketId) : f.promised j = (f.shares j).sum := by
  rw [promised, children, shares]
  induction f.buckets with
  | nil => rfl
  | cons b l ih =>
    rw [List.filter_cons, List.map_cons, List.sum_cons, ← ih, Bucket.due]
    cases b.attached
    · simp
    · by_cases hhead : b.ancestors.head? = some j <;> simp [hhead]

/-- A bucket has a share in what its parent has promised, and in nothing else. -/
theorem getElem?_shares (f : Forest) (j k : BucketId) :
    (f.shares j)[k]? =
      (f.get? k).map fun b ↦ if b.ancestors.head? = some j then b.due.toNat else 0 :=
  List.getElem?_map ..

theorem get?_eq_none_of_length (hlength : f'.buckets.length = f.buckets.length)
    (h : f.get? j = none) : f'.get? j = none :=
  List.getElem?_eq_none_iff.2 (hlength ▸ List.getElem?_eq_none_iff.1 h)

/-- All buckets are where they were, and are due what they were. -/
theorem promised_congr (hlength : f'.buckets.length = f.buckets.length)
    (h : ∀ k b, f.get? k = some b → ∃ b', f'.get? k = some b' ∧ b'.ancestors = b.ancestors ∧
      b'.rate = b.rate ∧ b'.attached = b.attached) (j : BucketId) :
    f'.promised j = f.promised j := by
  rw [promised_eq_sum, promised_eq_sum]
  refine congrArg List.sum (List.ext_getElem? fun k ↦ ?_)
  rw [getElem?_shares, getElem?_shares]
  cases hk : f.get? k with
  | none => rw [get?_eq_none_of_length hlength hk]
  | some b =>
    obtain ⟨b', hb', hancestors, hrate, hattached⟩ := h k b hk
    rw [hb', Option.map_some, Option.map_some, hancestors, Bucket.due_congr hrate hattached]

/-- Replacing an entry of a list changes the sum by the difference. -/
theorem sum_set_add {l : List Nat} {i x : Nat} (h : l[i]? = some x) (y : Nat) :
    (l.set i y).sum + x = l.sum + y := by
  induction l generalizing i with
  | nil => cases h
  | cons a l ih =>
    cases i with
    | zero =>
      obtain rfl : a = x := Option.some.inj h
      simp only [List.set_cons_zero, List.sum_cons]
      omega
    | succ i =>
      have hrest := ih h
      simp only [List.set_cons_succ, List.sum_cons]
      omega

/-- Only the bucket with other terms counts for another amount than before. -/
theorem Adjusts.promised_add (h : Adjusts id t rate attached f f') (j : BucketId) :
    f'.promised j + (if t.ancestors.head? = some j then t.due.toNat else 0) =
      f.promised j +
        if t.ancestors.head? = some j then (if attached then rate else 0).toNat else 0 := by
  have hold : (f.shares j)[id]? = some (if t.ancestors.head? = some j then t.due.toNat else 0) := by
    rw [getElem?_shares, h.before]
    rfl
  have hshares : f'.shares j = (f.shares j).set id
      (if t.ancestors.head? = some j then (if attached then rate else 0).toNat else 0) := by
    refine List.ext_getElem? fun k ↦ ?_
    rw [List.getElem?_set, getElem?_shares, getElem?_shares,
      if_pos (List.getElem?_eq_some_iff.1 hold).1]
    cases hk : f.get? k with
    | none =>
      have hne : id ≠ k := fun heq ↦ nomatch (heq ▸ hk).symm.trans h.before
      rw [get?_eq_none_of_length h.length hk, if_neg hne]
    | some b =>
      obtain ⟨b', hb', hancestors, hrate, hattached, -⟩ := h.bucket k b hk
      rw [hb', Option.map_some, Option.map_some, Bucket.due, Bucket.due, hancestors, hrate,
        hattached]
      by_cases hid : id = k
      · subst hid
        rw [Option.some.inj (hk.symm.trans h.before), if_pos rfl, if_pos rfl, if_pos rfl]
      · rw [if_neg hid, if_neg hid, if_neg hid]
  rw [promised_eq_sum, promised_eq_sum, hshares]
  exact sum_set_add hold _

/-- Nothing draws from a bucket that is yet to come. -/
theorem Planted.promised_length (h : f.Planted) : f.promised f.buckets.length = 0 := by
  rw [promised, children, List.filter_eq_nil_iff.2, List.map_nil, List.sum_nil]
  intro b hmem hchild
  obtain ⟨j, hj, hb⟩ := List.getElem_of_mem hmem
  have hget : f.get? j = some b := List.getElem?_eq_some_iff.2 ⟨hj, hb⟩
  have hhead : b.ancestors.head? = some f.buckets.length := by
    simpa using (Bool.and_eq_true_iff.1 hchild).2
  obtain hnil | ⟨p, hp, hline⟩ := h j b hget
  · rw [hnil] at hhead
    cases hhead
  · rw [hline] at hhead
    obtain rfl : p = f.buckets.length := Option.some.inj hhead
    exact absurd (Nat.lt_trans hp hj) (Nat.lt_irrefl _)

/-- A new root draws from nobody. -/
theorem promised_addRoot (f : Forest) (rate burst : UInt64) (now : Instant) (j : BucketId) :
    (f.addRoot rate burst now).2.promised j = f.promised j := by
  rw [promised_eq_sum, promised_eq_sum, shares, addRoot, List.map_append, List.sum_append]
  rfl

/-- A new child is promised its rate by its parent. -/
theorem promised_addChild (f : Forest) (parent : BucketId) (rate burst : UInt64) (now : Instant)
    (j : BucketId) : (f.addChild parent rate burst now).2.promised j =
      f.promised j + if parent = j then rate.toNat else 0 := by
  have hrecommit : (f.recommit (some parent) (· + rate)).promised j = f.promised j := by
    refine promised_congr (length_recommit ..) (fun k b hb ↦ ?_) j
    obtain ⟨b', hb', hancestors, hrate, hattached, -⟩ := exists_recommit (· + rate) hb
    exact ⟨b', hb', hancestors, hrate, hattached⟩
  rw [← hrecommit, promised_eq_sum, promised_eq_sum, shares, addChild, List.map_append,
    List.sum_append]
  simp [shares, Bucket.full, Bucket.due, line]

/-! ### Balance -/

/-- An empty forest is in balance. -/
theorem balanced_empty : Balanced {} := fun _ _ hb ↦ nomatch hb

/-- A bucket with other terms is accounted for by the one that it draws from. -/
theorem Balanced.adjusts (h : f.Balanced) (hadjusts : Adjusts id t rate attached f f') :
    f'.Balanced := by
  intro j b' hb'
  cases hb : f.get? j with
  | none => exact nomatch (get?_eq_none_of_length hadjusts.length hb).symm.trans hb'
  | some b =>
    obtain ⟨b'', hb'', -, -, -, hcommitted⟩ := hadjusts.bucket j b hb
    obtain rfl := Option.some.inj (hb'.symm.trans hb'')
    have hbalance := h j b hb
    have hpromised := hadjusts.promised_add j
    rw [hcommitted]
    split at hpromised
    · rename_i hhead
      rw [if_pos hhead]
      have hdue := t.due.toNat_lt
      rw [UInt64.toNat_sub, UInt64.toNat_add, hbalance]
      omega
    · rename_i hhead
      rw [if_neg hhead, hbalance]
      exact congrArg (· % 2 ^ 64) hpromised.symm

/-- **Each operation keeps the balance.** -/
theorem Balanced.apply (h : f.Balanced) (hplanted : f.Planted) (o : Operation) :
    (f.apply o).Balanced := by
  obtain hterms | ⟨rate, burst, now, heq⟩ | ⟨parent, t, rate, burst, now, -, hparent, heq⟩ |
    ⟨id, t, rate, attached, -, -, hadjusts⟩ := f.apply_cases o
  · intro j b' hb'
    obtain ⟨b, hb, -, -, hcommitted, -⟩ := exists_of_terms hterms.symm hb'
    rw [← hcommitted, h j b hb]
    refine congrArg (· % 2 ^ 64) (promised_congr (length_eq_of_terms hterms) (fun k c hc ↦ ?_) j).symm
    obtain ⟨c', hc', hancestors, hrate, -, hattached⟩ := exists_of_terms hterms hc
    exact ⟨c', hc', hancestors, hrate, hattached⟩
  · intro j b' hb'
    cases hb : f.get? j with
    | none =>
      obtain ⟨rfl, hcommitted, -⟩ := of_apply_of_none hb' hb
      rw [hcommitted, heq, promised_addRoot, hplanted.promised_length]
      rfl
    | some b =>
      rw [heq, get?_addRoot_of_get? hb] at hb'
      obtain rfl := Option.some.inj hb'
      rw [heq, promised_addRoot, h j b hb]
  · intro j b' hb'
    cases hb : f.get? j with
    | none =>
      obtain ⟨rfl, hcommitted, -⟩ := of_apply_of_none hb' hb
      rw [hcommitted, heq, promised_addChild, hplanted.promised_length, if_neg]
      · rfl
      · exact Nat.ne_of_lt (lt_length_of_get? hparent)
    | some b =>
      rw [heq, get?_addChild_of_get? hb] at hb'
      obtain rfl := Option.some.inj hb'
      rw [heq, promised_addChild]
      split
      · rw [UInt64.toNat_add, h j b hb]
        omega
      · exact h j b hb
  · exact h.adjusts hadjusts

/-- **A forest stays in balance** through any number of operations. -/
theorem Balanced.run (h : f.Balanced) (hplanted : f.Planted) (ops : List Operation) :
    (f.run ops).Balanced := by
  induction ops generalizing f with
  | nil => exact h
  | cons o ops ih => exact ih (h.apply hplanted o) (hplanted.apply o)

/-! ### Below a detached bucket -/

/-- An operation on a bucket below a detached one, or on that itself, changes no promise outside. -/
theorem committed_apply_of_below (hplanted : f.Planted) (htop : f.get? top = some t)
    (hdetached : t.attached = false) (hsubject : o.subject? = some id) (hbelow : top ∈ f.line id)
    (hb : f.get? j = some b) (houtside : top ∉ f.line j) :
    ∃ b', (f.apply o).get? j = some b' ∧ b'.committed = b.committed := by
  obtain hterms | ⟨rate, burst, now, heq⟩ | ⟨parent, u, rate, burst, now, ho, hparent, heq⟩ |
    ⟨id', u, rate, attached, hsame, hstays, hadjusts⟩ := f.apply_cases o
  · obtain ⟨b', hb', -, -, hcommitted, -⟩ := exists_of_terms hterms hb
    exact ⟨b', hb', hcommitted⟩
  · exact ⟨b, heq ▸ get?_addRoot_of_get? hb, rfl⟩
  · subst ho
    obtain rfl : parent = id := Option.some.inj hsubject
    rw [heq, get?_addChild_of_get? hb, if_neg]
    · exact ⟨b, rfl, rfl⟩
    · rintro rfl
      exact houtside hbelow
  · obtain rfl := Option.some.inj (hsubject.symm.trans hsame)
    obtain ⟨b', hb', -, -, -, hcommitted⟩ := hadjusts.bucket j b hb
    refine ⟨b', hb', hcommitted.trans ?_⟩
    split
    · rename_i hhead
      rw [line_eq hadjusts.before] at hbelow
      obtain rfl | hancestor := List.mem_cons.1 hbelow
      · -- the detached bucket is due nothing, before and after
        obtain rfl := Option.some.inj (htop.symm.trans hadjusts.before)
        simp [hstays hdetached, Bucket.due, hdetached]
      · -- what it draws from is below the detached bucket as well
        obtain hnil | ⟨p, -, hline⟩ := hplanted id u hadjusts.before
        · rw [hnil] at hancestor
          cases hancestor
        · rw [hline] at hancestor hhead
          obtain rfl : p = j := Option.some.inj hhead
          exact absurd hancestor houtside
    · rfl

/-- So does an operation on a detached bucket that adds none below it, not even in that bucket. -/
theorem committed_apply_of_detached (hid : f.get? id = some t) (hdetached : t.attached = false)
    (hsubject : o.subject? = some id) (hadds : ∀ parent rate burst now, o ≠ .addChild parent rate burst now)
    (hb : f.get? j = some b) : ∃ b', (f.apply o).get? j = some b' ∧ b'.committed = b.committed := by
  obtain hterms | ⟨rate, burst, now, heq⟩ | ⟨parent, u, rate, burst, now, ho, -, -⟩ |
    ⟨id', u, rate, attached, hsame, hstays, hadjusts⟩ := f.apply_cases o
  · obtain ⟨b', hb', -, -, hcommitted, -⟩ := exists_of_terms hterms hb
    exact ⟨b', hb', hcommitted⟩
  · exact ⟨b, heq ▸ get?_addRoot_of_get? hb, rfl⟩
  · exact absurd ho (hadds parent rate burst now)
  · obtain rfl := Option.some.inj (hsubject.symm.trans hsame)
    obtain rfl := Option.some.inj (hid.symm.trans hadjusts.before)
    obtain ⟨b', hb', -, -, -, hcommitted⟩ := hadjusts.bucket j b hb
    refine ⟨b', hb', hcommitted.trans ?_⟩
    simp [hstays hdetached, Bucket.due, hdetached]

end Forest

end DatagramCircuits
