import DatagramCircuits.Proofs.Twins
/-!
# Circuits do not hear of each other

Circuits that draw from the same bucket share it and nothing else. If that bucket is an unlimited root, it
shows nothing of what was done below it, and **a circuit replies as if nothing was ever done with the
others** (`Neighbours.isolated`): they may have been opened, and may send, work, negotiate, be at fault or
be closed in between. So it makes no difference in which order things are done with different circuits.

**The two courses are compared as they go** (`Neighbours.Likewise`). They have as many buckets, so that new
ones come to lie at the same positions, and the root and the buckets of the circuit are seen to be the same
in both. What is done with another circuit is done in one of them only, and is seen in its own buckets;
what is done with the circuit itself is done in both, and has the same reply.
-/

namespace DatagramCircuits

namespace Neighbours

variable {s s' u : Neighbours} {i k : Nat} {c : Circuit} {d : Deed} {j : BucketId}

/-! ### What a deed changes -/

theorem lt_length_of_circuit? (hk : s.circuit? k = some c) : k < s.circuits.length :=
  (List.getElem?_eq_some_iff.1 (Option.join_eq_some_iff.1 hk)).1

theorem circuit?_set (hk : k < s.circuits.length) (x : Option Circuit) (forest : Forest) (i : Nat) :
    { s with forest, circuits := s.circuits.set k x : Neighbours }.circuit? i =
      if k = i then x else s.circuit? i := by
  rw [circuit?, circuit?, List.getElem?_set]
  split
  · rfl
  · rfl

theorem circuit?_append (x : Option Circuit) (s : Neighbours) (forest : Forest) (i : Nat) :
    { s with forest, circuits := s.circuits ++ [x] : Neighbours }.circuit? i =
      if i = s.circuits.length then x else s.circuit? i := by
  rw [circuit?, circuit?]
  split
  · rename_i heq
    rw [heq, List.getElem?_concat_length]
    rfl
  · rename_i hne
    obtain hlt | hgt := Nat.lt_or_gt_of_ne hne
    · rw [List.getElem?_append_left hlt]
    · rw [List.getElem?_eq_none_iff.2 (Nat.le_of_lt hgt),
        List.getElem?_eq_none_iff.2 (by rw [List.length_append]; exact hgt)]

/-- What is done with one circuit: something with its buckets, and it keeps them. -/
structure Works (k : Nat) (s s' : Neighbours) : Prop where
  root : s'.root = s.root
  count : s'.circuits.length = s.circuits.length
  forest : s'.forest = s.forest ∨ ∃ c, s.circuit? k = some c ∧ c.allowance.Draws s.forest s'.forest
  keeps : ∀ i c', s'.circuit? i = some c' → ∃ c, s.circuit? i = some c ∧ c'.allowance = c.allowance
  others : ∀ i, i ≠ k → s'.circuit? i = s.circuit? i

theorem Works.refl : Works k s s :=
  ⟨rfl, rfl, .inl rfl, fun _ c' hc' ↦ ⟨c', hc', rfl⟩, fun _ _ ↦ rfl⟩

/-- With one circuit in another state. -/
theorem works_set (hk : s.circuit? k = some c) {c' : Circuit} {forest : Forest}
    (hc' : c'.allowance = c.allowance) (hforest : c.allowance.Draws s.forest forest) :
    Works k s { s with forest, circuits := s.circuits.set k (some c') } := by
  have hset := circuit?_set (lt_length_of_circuit? hk) (some c') forest
  refine ⟨rfl, List.length_set, .inr ⟨c, hk, hforest⟩, fun i d hd ↦ ?_, fun i hi ↦ ?_⟩
  · rw [hset] at hd
    split at hd
    · rename_i heq
      obtain rfl := Option.some.inj hd
      exact ⟨c, heq ▸ hk, hc'⟩
    · exact ⟨d, hd, rfl⟩
  · rw [hset, if_neg (Ne.symm hi)]

/-- A deed that is about one circuit leaves the others alone. -/
theorem works_step (hd : d.subject? = some k) : Works k s (s.step d).2 := by
  cases d with
  | opening => cases hd
  | asking => exact .refl
  | work i o =>
    obtain rfl : i = k := Option.some.inj hd
    show Works i s (s.work i o).2
    cases hi : s.circuit? i with
    | none =>
      rw [work_of_absent hi]
      exact .refl
    | some c =>
      cases happly : c.apply o s.forest with
      | error fault =>
        rw [work_of_error hi happly]
        obtain ⟨hallowance, hdraws⟩ := Circuit.afterFault_spec o c s.forest
        exact works_set hi hallowance hdraws
      | ok r =>
        obtain ⟨answer, c', f'⟩ := r
        rw [work_of_ok hi happly]
        exact works_set hi (Circuit.allowance_of_apply happly) (Circuit.draws_of_apply happly)

/-! ### Circuits apart -/

/-- The root is unlimited and draws from no bucket, and the circuits have their buckets below it, each
circuit buckets of its own. -/
structure Settled (s : Neighbours) : Prop where
  planted : s.forest.Planted
  root : ∃ b, s.forest.get? s.root = some b ∧ b.ancestors = [] ∧ b.isUnlimited = true
  placed : ∀ k c, s.circuit? k = some c → c.allowance.Placed s.root s.forest
  apart : ∀ i k c c', i ≠ k → s.circuit? i = some c → s.circuit? k = some c' →
    ∀ j, c.allowance.Owns j → ¬c'.allowance.Owns j

/-- The buckets of every circuit are below the root. -/
theorem Settled.below (h : s.Settled) (hk : s.circuit? k = some c) :
    c.allowance.Below s.root s.forest :=
  ⟨h.planted, h.placed k c hk, h.root⟩

/-- What is done with a circuit is not seen in the root, nor in the buckets of another one. -/
theorem Settled.seen_of_works (h : s.Settled) (hw : Works k s s')
    (hj : ∀ c, s.circuit? k = some c → ¬c.allowance.Owns j) :
    s'.forest.seen j = s.forest.seen j := by
  obtain heq | ⟨c, hk, ops, hops, heq⟩ := hw.forest
  · rw [heq]
  · rw [heq]
    exact (h.below hk).seen_run hops (hj c hk)

/-- Neighbours stay settled while one circuit works with its own buckets. -/
theorem Settled.works (h : s.Settled) (hw : Works k s s') : s'.Settled := by
  obtain ⟨ops, hops⟩ : ∃ ops, s'.forest = s.forest.run ops := by
    obtain heq | ⟨c, -, ops, -, heq⟩ := hw.forest
    · exact ⟨[], heq⟩
    · exact ⟨ops, heq⟩
  have hroot := h.seen_of_works hw fun c hk ↦ (h.below hk).not_owns_root
  refine ⟨hops ▸ h.planted.run ops, hw.root ▸ Allowance.root_of_seen_eq hroot h.root, fun i c' hc' ↦ ?_,
    fun i k c c' hne hc hc' j ↦ ?_⟩
  · obtain ⟨c, hc, hsame⟩ := hw.keeps i c' hc'
    rw [hw.root, hops, hsame]
    exact (h.placed i c hc).run ops
  · obtain ⟨d, hd, hsame⟩ := hw.keeps i c hc
    obtain ⟨d', hd', hsame'⟩ := hw.keeps k c' hc'
    rw [hsame, hsame']
    exact h.apart i k d d' hne hd hd' j

/-- A circuit that could not be opened is not there. -/
theorem Settled.append_none (h : s.Settled) :
    { s with circuits := s.circuits ++ [none] : Neighbours }.Settled := by
  have hback : ∀ i c, { s with circuits := s.circuits ++ [none] : Neighbours }.circuit? i = some c →
      s.circuit? i = some c := by
    intro i c hi
    rw [circuit?_append none s s.forest] at hi
    split at hi
    · cases hi
    · exact hi
  exact ⟨h.planted, h.root, fun k c hk ↦ h.placed k c (hback k c hk), fun i k c c' hne hi hk ↦
    h.apart i k c c' hne (hback i c hi) (hback k c' hk)⟩

/-- More buckets below the root leave the circuits where they were. -/
theorem Settled.grow (h : s.Settled) {limit : UInt64} {initial : Rates} {burstTime : Span} {mtu : Nat}
    {now : Instant} {a : Allowance} {f : Forest}
    (hallowance : Allowance.opened s.root limit initial burstTime mtu now s.forest = .ok (a, f)) :
    { s with forest := f : Neighbours }.Settled := by
  obtain ⟨b, hb, hancestors, hunlimited⟩ := h.root
  obtain ⟨ops, rfl⟩ := Allowance.exists_run_of_opened hallowance hb
  obtain ⟨-, -, -, -, -, hold⟩ := Allowance.opened_spec hallowance hb
  obtain ⟨b', hb', hancestors', hrate', -⟩ := hold s.root b hb
  refine ⟨h.planted.run ops, ⟨b', hb', hancestors'.trans hancestors, ?_⟩, fun k c hk ↦
    (h.placed k c hk).run ops, h.apart⟩
  rw [Bucket.isUnlimited, hrate']
  exact hunlimited

/-- A new circuit is apart from the others, since its buckets come behind all others. -/
theorem Settled.append_some (h : s.Settled) {session : Session} {address : Address} {config : Config}
    {now : Instant} {f : Forest}
    (hopened : Circuit.opened session address config s.root now s.forest = .ok (c, f)) :
    { s with forest := f, circuits := s.circuits ++ [some c] : Neighbours }.Settled := by
  obtain ⟨-, -, -, rates, hallowance⟩ := Circuit.exists_of_opened hopened
  obtain ⟨b, hb, -⟩ := h.root
  have hgrown := h.grow hallowance
  have hnew : ∀ k c' j, s.circuit? k = some c' → c'.allowance.Owns j → ¬c.allowance.Owns j := by
    intro k c' j hk hj hown
    obtain ⟨t, ht⟩ := (h.placed k c' hk).exists_of_owns hj
    exact Nat.not_lt.2 (Allowance.length_le_of_owns hallowance hb hown) (Forest.lt_length_of_get? ht)
  refine ⟨hgrown.planted, hgrown.root, fun k c' hc' ↦ ?_, fun i k d d' hne hd hd' j hj ↦ ?_⟩
  · rw [circuit?_append] at hc'
    split at hc'
    · obtain rfl := Option.some.inj hc'
      exact Allowance.placed_of_opened hallowance hb
    · exact hgrown.placed k c' hc'
  · rw [circuit?_append] at hd hd'
    split at hd <;> split at hd'
    · rename_i hi hk
      exact absurd (hi.trans hk.symm) hne
    · obtain rfl := Option.some.inj hd
      exact fun hj' ↦ hnew k d' j hd' hj' hj
    · obtain rfl := Option.some.inj hd'
      exact hnew i d j hd hj
    · exact h.apart i k d d' hne hd hd' j hj

/-- They stay settled when a circuit is opened, or can not be. -/
theorem Settled.opening (h : s.Settled) (session : Session) (address : Address) (config : Config)
    (now : Instant) : (s.opening session address config now).2.Settled := by
  cases hopened : Circuit.opened session address config s.root now s.forest with
  | error e =>
    rw [opening_of_error hopened]
    obtain ⟨-, hforest⟩ | ⟨a, hallowance, -⟩ := Circuit.opened_eq_error_iff.1 hopened
    · rw [← hforest]
      exact h.append_none
    · exact (h.grow hallowance).append_none
  | ok r =>
    rw [opening_of_ok hopened]
    exact h.append_some hopened

/-- **Neighbours stay settled,** whatever is done with them. -/
theorem Settled.step (h : s.Settled) (d : Deed) : (s.step d).2.Settled := by
  cases d with
  | opening session address config now => exact h.opening session address config now
  | work k o => exact h.works (works_step (d := .work k o) rfl)
  | asking => exact h

/-! ### Two courses -/

/-- What a circuit gets to see: the root, and the buckets of its own. -/
def Visible (k : Nat) (s : Neighbours) (j : BucketId) : Prop :=
  j = s.root ∨ ∃ c, s.circuit? k = some c ∧ c.allowance.Owns j

/-- To a circuit, the two states are the same. -/
structure Likewise (k : Nat) (s u : Neighbours) : Prop where
  root : u.root = s.root
  count : u.circuits.length = s.circuits.length
  circuit : u.circuit? k = s.circuit? k
  forest : Forest.Agree (s.Visible k) s.forest u.forest

theorem Likewise.refl : Likewise k s s :=
  ⟨rfl, rfl, rfl, rfl, fun _ _ ↦ rfl⟩

/-- The buckets of a circuit look the same on both sides. -/
theorem Likewise.twins (h : Likewise k s u) (hs : s.Settled) (hk : s.circuit? k = some c) :
    c.allowance.Twins s.root s.forest u.forest :=
  ⟨hs.below hk, fun j hj ↦ h.forest.seen j (hj.imp_right fun hj ↦ ⟨c, hk, hj⟩)⟩

/-- **What is done with another circuit makes no difference.** -/
theorem Likewise.works (h : Likewise k s u) (hs : s.Settled) (hw : Works i s s') (hne : i ≠ k) :
    Likewise k s' u := by
  have hcircuit := hw.others k (Ne.symm hne)
  refine ⟨h.root.trans hw.root.symm, h.count.trans hw.count.symm, h.circuit.trans hcircuit.symm, ?_,
    fun j hj ↦ ?_⟩
  · refine Eq.trans ?_ h.forest.length
    obtain heq | ⟨c, -, hdraws⟩ := hw.forest
    · rw [heq]
    · exact hdraws.length_eq
  · have hvisible : s.Visible k j := by
      rwa [Visible, hw.root, hcircuit] at hj
    refine (hs.seen_of_works hw fun c hc ↦ ?_).trans (h.forest.seen j hvisible)
    obtain rfl | ⟨c', hc', hown⟩ := hvisible
    · exact (hs.below hc).not_owns_root
    · exact fun hj' ↦ hs.apart i k c c' hne hc hc' j hj' hown

/-- The circuit becomes the same in both, and draws from its own buckets. -/
theorem Likewise.set (h : Likewise k s u) (hk : s.circuit? k = some c) {c' : Circuit}
    (hc' : c'.allowance = c.allowance) {f g : Forest} (hf : c.allowance.Draws s.forest f)
    (hg : c.allowance.Draws u.forest g) (htwins : c.allowance.Twins s.root f g) :
    Likewise k { s with forest := f, circuits := s.circuits.set k (some c') }
      { u with forest := g, circuits := u.circuits.set k (some c') } := by
  have hlt := lt_length_of_circuit? hk
  have hlength : f.buckets.length = g.buckets.length :=
    hf.length_eq.trans (h.forest.length.trans hg.length_eq.symm)
  refine ⟨h.root, by rw [List.length_set, List.length_set, h.count], ?_, hlength, fun j hj ↦ ?_⟩
  · rw [circuit?_set hlt, circuit?_set (h.count ▸ hlt), if_pos rfl, if_pos rfl]
  · refine htwins.seen j (hj.imp_right ?_)
    rintro ⟨d, hd, hown⟩
    rw [circuit?_set hlt, if_pos rfl] at hd
    obtain rfl := Option.some.inj hd
    rwa [hc'] at hown

/-- An operation with the circuit has one reply on both sides, and leaves it alike. -/
theorem Likewise.work (h : Likewise k s u) (hs : s.Settled) (o : Circuit.Operation) :
    (s.work k o).1 = (u.work k o).1 ∧ Likewise k (s.work k o).2 (u.work k o).2 := by
  cases hk : s.circuit? k with
  | none =>
    rw [work_of_absent hk, work_of_absent (h.circuit.trans hk)]
    exact ⟨rfl, h⟩
  | some c =>
    have hu := h.circuit.trans hk
    have htwins := h.twins hs hk
    obtain ⟨e, e', hx, hy, rfl⟩ | ⟨⟨answer, c', f⟩, ⟨answer', d, g⟩, hx, hy, hsame⟩ :=
      (Circuit.alike_apply htwins o).exists_eq
    · obtain ⟨hcircuits, hforests⟩ := Circuit.twins_afterFault htwins o
      obtain ⟨hallowance, hf⟩ := Circuit.afterFault_spec o c s.forest
      have hg := (Circuit.afterFault_spec o c u.forest).2
      rw [work_of_error hk hx, work_of_error hu hy, ← hcircuits]
      exact ⟨rfl, h.set hk hallowance hf hg hforests⟩
    · obtain ⟨rfl : answer = answer', rfl : c' = d, hforests⟩ := hsame
      rw [work_of_ok hk hx, work_of_ok hu hy]
      exact ⟨rfl, h.set hk (Circuit.allowance_of_apply hx) (Circuit.draws_of_apply hx)
        (Circuit.draws_of_apply hy) hforests⟩

/-- The figures of the circuit are the same on both sides. -/
theorem Likewise.ask_eq (h : Likewise k s u) (hs : s.Settled) (q : Circuit.Inquiry) :
    s.ask k q = u.ask k q := by
  rw [ask, ask, h.circuit]
  cases hk : s.circuit? k with
  | none => rfl
  | some c => exact congrArg Reply.found (Circuit.find_congr (h.twins hs hk) q)

/-- One more circuit, the same in both courses, or none in both. -/
theorem Likewise.append (h : Likewise k s u) (x : Option Circuit) {P : BucketId → Prop} {f g : Forest}
    (hforests : Forest.Agree P f g) (hvisible : ∀ j, s.Visible k j → P j)
    (hx : ∀ c ∈ x, ∀ j, c.allowance.Owns j → P j) :
    Likewise k { s with forest := f, circuits := s.circuits ++ [x] }
      { u with forest := g, circuits := u.circuits ++ [x] } := by
  refine ⟨h.root, by rw [List.length_append, List.length_append, h.count], ?_, hforests.length,
    fun j hj ↦ hforests.seen j ?_⟩
  · rw [circuit?_append, circuit?_append, h.count, h.circuit]
  · obtain rfl | ⟨c, hc, hown⟩ := hj
    · exact hvisible s.root (.inl rfl)
    · rw [circuit?_append] at hc
      split at hc
      · exact hx c hc j hown
      · exact hvisible j (.inr ⟨c, hc, hown⟩)

/-- **A circuit is opened alike in both,** whoever it is. -/
theorem Likewise.opening (h : Likewise k s u) (hs : s.Settled) (session : Session) (address : Address)
    (config : Config) (now : Instant) :
    (s.opening session address config now).1 = (u.opening session address config now).1 ∧
      Likewise k (s.opening session address config now).2 (u.opening session address config now).2 := by
  obtain ⟨b, hb, -⟩ := hs.root
  obtain ⟨⟨fault, f⟩, ⟨fault', g⟩, hx, hy, hsame⟩ | ⟨⟨c, f⟩, ⟨c', g⟩, hx, hy, hsame⟩ :=
    (Circuit.alike_opened h.forest.or_length_le (.inl (.inl rfl)) (.inr (Nat.le_refl _)) session address
      config now).exists_eq <;> rw [← h.root] at hy
  · obtain ⟨rfl : fault = fault', hforests⟩ := hsame
    rw [opening_of_error hx, opening_of_error hy]
    exact ⟨rfl, h.append none hforests (fun _ ↦ .inl) fun c hc ↦ absurd hc (Option.not_mem_none c)⟩
  · obtain ⟨rfl : c = c', hforests⟩ := hsame
    obtain ⟨-, -, -, rates, hallowance⟩ := Circuit.exists_of_opened hx
    rw [opening_of_ok hx, opening_of_ok hy]
    refine ⟨rfl, h.append (some c) hforests (fun _ ↦ .inl) fun d hd j hown ↦ ?_⟩
    obtain rfl := Option.some.inj hd
    exact .inr (Allowance.length_le_of_owns hallowance hb hown)

/-- **A deed that concerns the circuit has the same reply in both courses.** -/
theorem Likewise.step (h : Likewise k s u) (hs : s.Settled) (hd : d.concerns k = true) :
    (s.step d).1 = (u.step d).1 ∧ Likewise k (s.step d).2 (u.step d).2 := by
  cases d with
  | opening session address config now =>
    obtain ⟨hreply, hnext⟩ := h.opening hs session address config now
    exact ⟨Prod.ext h.count.symm hreply, hnext⟩
  | work i o =>
    obtain rfl : i = k := eq_of_beq hd
    obtain ⟨hreply, hnext⟩ := h.work hs o
    exact ⟨Prod.ext rfl hreply, hnext⟩
  | asking i q =>
    obtain rfl : i = k := eq_of_beq hd
    exact ⟨Prod.ext rfl (h.ask_eq hs q), h⟩

/-! ### Replies -/

/-- Deeds that do not concern a circuit are done with another one, which replies. -/
theorem exists_of_not_concerns (hd : d.concerns k = false) (s : Neighbours) :
    ∃ i, d.subject? = some i ∧ i ≠ k ∧ (s.step d).1.1 = i := by
  cases d with
  | opening => cases hd
  | work i o => exact ⟨i, rfl, ne_of_beq_false hd, rfl⟩
  | asking i q => exact ⟨i, rfl, ne_of_beq_false hd, rfl⟩

/-- **Deeds that do not concern a circuit can be left out.** -/
theorem Likewise.replies_eq (h : Likewise k s u) (hs : s.Settled) (l : List Deed) :
    replies k l s = replies k (l.filter (Deed.concerns k)) u := by
  induction l generalizing s u with
  | nil => rfl
  | cons d l ih =>
    cases hd : d.concerns k with
    | true =>
      -- a step of both courses
      obtain ⟨hreply, hnext⟩ := h.step hs hd
      rw [List.filter_cons_of_pos hd, replies_cons, replies_cons, hreply, ih hnext (hs.step d)]
    | false =>
      -- a step of the first one only
      obtain ⟨i, hi, hne, hreply⟩ := exists_of_not_concerns hd s
      rw [List.filter_cons_of_neg (by simp [hd]), replies_cons, if_neg (hreply ▸ hne),
        ih (h.works hs (works_step hi) hne) (hs.step d)]

/-- A root without circuits is settled. -/
theorem settled_of_no_circuits {root : BucketId} {f : Forest} (hplanted : f.Planted)
    (hroot : ∃ b, f.get? root = some b ∧ b.ancestors = [] ∧ b.isUnlimited = true) :
    Settled { root, forest := f } := by
  have hnone : ∀ k c, { root, forest := f : Neighbours }.circuit? k ≠ some c := fun k c ↦ by
    rw [circuit?]
    simp
  exact ⟨hplanted, hroot, fun k c hk ↦ absurd hk (hnone k c), fun i _ c _ _ hi ↦ absurd hi (hnone i c)⟩

/-- Of two deeds that are done with different circuits, one at most concerns a given circuit. -/
theorem filter_concerns_swap {e : Deed} (hd : d.subject? = some i) (he : e.subject? = some j) (hne : i ≠ j)
    (k : Nat) (before after : List Deed) :
    (before ++ d :: e :: after).filter (Deed.concerns k) =
      (before ++ e :: d :: after).filter (Deed.concerns k) := by
  have hconcerns : ∀ {d : Deed} {i : Nat}, d.subject? = some i → d.concerns k = (i == k) := fun hd ↦ by
    rw [Deed.concerns, hd]
    rfl
  simp only [List.filter_append, List.filter_cons, hconcerns hd, hconcerns he]
  by_cases hi : i = k
  · have hj : j ≠ k := fun hj ↦ hne (hi.trans hj.symm)
    simp [hi, hj]
  · simp [hi]

/-- **Circuits below an unlimited root do not hear of each other.** In any history, a circuit has the same
replies as in the history without all that is done with the others. So it makes no difference to anybody
in which order two things are done with different circuits. -/
theorem isolated (built : List Forest.Operation) (root : BucketId)
    (hroot : ∃ b, (Forest.run built {}).get? root = some b ∧ b.ancestors = [] ∧ b.isUnlimited = true) :
    (∀ k l, replies k l { root, forest := .run built {} } =
      replies k (l.filter (Deed.concerns k)) { root, forest := .run built {} }) ∧
    ∀ (d e : Deed) i j, d.subject? = some i → e.subject? = some j → i ≠ j → ∀ k before after,
      replies k (before ++ d :: e :: after) { root, forest := .run built {} } =
        replies k (before ++ e :: d :: after) { root, forest := .run built {} } := by
  have hsettled := settled_of_no_circuits (Forest.planted_empty.run built) hroot
  have hfilter : ∀ k l, replies k l { root, forest := .run built {} } =
      replies k (l.filter (Deed.concerns k)) { root, forest := .run built {} } :=
    fun k l ↦ Likewise.refl.replies_eq hsettled l
  refine ⟨hfilter, fun d e i j hd he hne k before after ↦ ?_⟩
  rw [hfilter, filter_concerns_swap hd he hne, ← hfilter]

/-- Two circuits below an unlimited root. The first one queues a message, gets other rates, works and is
closed, and the second one sends its datagram as if it were alone. -/
theorem isolated_second :
    let first : Session := { agent := .ofNat 1, session := .ofNat 1, code := 1 }
    let second : Session := { agent := .ofNat 2, session := .ofNat 2, code := 2 }
    let message : Message := { id := .high 20, payload := [7, 7, 7] }
    let start : Neighbours := { root := 0, forest := .run [.addRoot 0 0 0] {} }
    let alone : List Deed := [.opening first ⟨(10, 0, 0, 1), 1⟩ {} 0,
      .opening second ⟨(10, 0, 0, 2), 2⟩ {} 0,
      .work 1 (.send (.throttled .task) message true false), .work 1 (.tick 0), .asking 1 .summary]
    let together : List Deed := [.opening first ⟨(10, 0, 0, 1), 1⟩ {} 0,
      .opening second ⟨(10, 0, 0, 2), 2⟩ {} 0,
      .work 0 (.send (.throttled .task) message true false),
      .work 1 (.send (.throttled .task) message true false),
      .work 0 (.renegotiate (PerLane.replicate 100000) 0), .work 0 (.tick 0), .work 0 .close,
      .work 1 (.tick 0), .asking 1 .summary]
    replies 1 together start = replies 1 alone start ∧
      (replies 1 together start).any fun
        | .answered (.ticked output) => output.datagrams.length == 1
        | _ => false := by
  intro first second message start alone together
  obtain ⟨hfilter, -⟩ := isolated [.addRoot 0 0 0] 0 ⟨_, rfl, rfl, rfl⟩
  exact ⟨hfilter 1 together, by decide +kernel⟩

end Neighbours

end DatagramCircuits
