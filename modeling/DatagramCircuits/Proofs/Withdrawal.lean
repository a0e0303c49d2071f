import DatagramCircuits.Proofs.Commitments
/-!
# Taking from a bucket and all that it draws from

**A withdrawal takes from every bucket of the line or from none.** First the buckets are asked, from the
one that is drawn from up to the root, and each that is asked is accounted for. That shows in no level
(`Forest.observe_approve`), since a second account of the same instant finds nothing to add. Only when all
of them agreed is anything taken, from each of them once: a line has no bucket twice
(`Forest.Planted.nodup_line`).
-/

namespace DatagramCircuits

namespace Bucket

variable {now : Instant} {n : Nat} {b : Bucket}

@[simp] theorem attached_observe (now : Instant) (b : Bucket) :
    (b.observe now).attached = b.attached :=
  congrArg (·.2.2.2) (b.terms_observe now)

theorem isUnlimited_observe (now : Instant) (b : Bucket) :
    (b.observe now).isUnlimited = b.isUnlimited := by
  rw [observe]
  split
  · rfl
  · exact b.isUnlimited_refill now

/-- A bucket can afford what its level comes up to, and anything if it never runs dry. -/
theorem affords_observe_iff :
    (b.observe now).affords n = true ↔
      (b.isUnlimited = false → ¬(b.refill now).level < Float.ofNat n) := by
  rw [affords, isUnlimited_observe, observe]
  cases b.isUnlimited <;> simp

theorem charge_observe (n : Nat) (now : Instant) (b : Bucket) :
    (b.observe now).charge n = if b.isUnlimited then b else
      { b.refill now with level := (b.refill now).level - Float.ofNat n } := by
  rw [charge, isUnlimited_observe, observe]
  split <;> rfl

end Bucket

namespace Forest

variable {f : Forest} {id j : BucketId} {ids : List BucketId} {n : Nat} {now : Instant} {b : Bucket}
  {change : Bucket → Bucket}

/-! ### A line of buckets -/

/-- A bucket draws from no bucket twice, and not from itself. -/
theorem Planted.nodup_line (h : f.Planted) (id : BucketId) : (f.line id).Nodup := by
  induction id using Nat.strongRecOn with
  | _ id ih =>
    cases hid : f.get? id with
    | none =>
      rw [line, hid]
      exact List.pairwise_singleton _ id
    | some b =>
      rw [line_eq hid]
      obtain hnil | ⟨p, hp, hline⟩ := h id b hid
      · rw [hnil]
        exact List.pairwise_singleton _ id
      · rw [hline, List.nodup_cons]
        exact ⟨fun hmem ↦ Nat.not_le.2 hp (h.le_of_mem_line hmem), ih p hp⟩

theorem get?_modifyAll_of_not_mem (hj : j ∉ ids) (f : Forest) :
    (f.modifyAll ids change).get? j = f.get? j := by
  induction ids generalizing f with
  | nil => rfl
  | cons id ids ih =>
    obtain ⟨hne, hj⟩ := List.ne_and_not_mem_of_not_mem_cons hj
    calc (f.modifyAll (id :: ids) change).get? j
      _ = (f.modify id change).get? j := ih hj _
      _ = f.get? j := by rw [get?_modify, if_neg (Ne.symm hne)]

theorem get?_modifyAll_of_mem (hids : ids.Nodup) (hj : j ∈ ids) (f : Forest) :
    (f.modifyAll ids change).get? j = (f.get? j).map change := by
  induction ids generalizing f with
  | nil => cases hj
  | cons id ids ih =>
    obtain ⟨hid, hids⟩ := List.nodup_cons.1 hids
    obtain rfl | hj := List.mem_cons.1 hj
    · calc (f.modifyAll (j :: ids) change).get? j
        _ = (f.modify j change).get? j := get?_modifyAll_of_not_mem hid _
        _ = (f.get? j).map change := by rw [get?_modify, if_pos rfl]
    · have hne : id ≠ j := fun heq ↦ hid (heq ▸ hj)
      calc (f.modifyAll (id :: ids) change).get? j
        _ = ((f.modify id change).get? j).map change := ih hids hj _
        _ = (f.get? j).map change := by rw [get?_modify, if_neg hne]

/-! ### Asking -/

/-- The bucket is attached, and can afford `n` octets at the given instant. -/
def Agrees (n : Nat) (now : Instant) (f : Forest) (j : BucketId) : Prop :=
  ∃ b, f.get? j = some b ∧ b.attached = true ∧ (b.observe now).affords n = true

/-- An account of a bucket changes no answer, neither its own nor that of another one. -/
theorem agrees_modify_observe (id j : BucketId) :
    Agrees n now (f.modify id (Bucket.observe now)) j ↔ Agrees n now f j := by
  rw [Agrees, Agrees, get?_modify]
  split
  · cases f.get? j <;> simp
  · rfl

theorem modify_const (hid : f.get? id = some b) (change : Bucket → Bucket) :
    (f.modify id fun _ ↦ change b) = f.modify id change := by
  refine congrArg Forest.mk (List.ext_getElem? fun j ↦ ?_)
  change (f.modify id fun _ ↦ change b).get? j = (f.modify id change).get? j
  rw [get?_modify, get?_modify]
  split
  · rename_i heq
    rw [← heq, hid]
    rfl
  · rfl

/-- The first bucket of the line agrees and the others are asked, or that was the answer. -/
theorem approve_cons_cases (n : Nat) (now : Instant) (id : BucketId) (ids : List BucketId)
    (f : Forest) :
    (Agrees n now f id ∧
      approve n now (id :: ids) f = approve n now ids (f.modify id (Bucket.observe now))) ∨
    (¬Agrees n now f id ∧ (approve n now (id :: ids) f = (false, f) ∨
      approve n now (id :: ids) f = (false, f.modify id (Bucket.observe now)))) := by
  rw [approve, Agrees]
  cases hid : f.get? id with
  | none => simp
  | some b =>
    simp only [modify_const hid]
    cases hattached : b.attached <;> cases haffords : (b.observe now).affords n <;>
      simp [hattached, haffords]

/-- All of the line have to agree. -/
theorem approve_fst_iff (n : Nat) (now : Instant) (ids : List BucketId) (f : Forest) :
    (approve n now ids f).1 = true ↔ ∀ j ∈ ids, Agrees n now f j := by
  induction ids generalizing f with
  | nil => simp [approve]
  | cons id ids ih =>
    rw [List.forall_mem_cons]
    obtain ⟨hagrees, heq⟩ | ⟨hrefuses, heq | heq⟩ := approve_cons_cases n now id ids f
    · rw [heq, ih]
      simp only [agrees_modify_observe, hagrees, true_and]
    · simp [heq, hrefuses]
    · simp [heq, hrefuses]

/-- Asking shows in no account of that instant. -/
theorem observe_approve (n : Nat) (now : Instant) (ids : List BucketId) (f : Forest)
    (j : BucketId) :
    ((approve n now ids f).2.get? j).map (Bucket.observe now) =
      (f.get? j).map (Bucket.observe now) := by
  have hmodify : ∀ (f : Forest) (id : BucketId),
      ((f.modify id (Bucket.observe now)).get? j).map (Bucket.observe now) =
        (f.get? j).map (Bucket.observe now) := by
    intro f id
    rw [get?_modify]
    split
    · cases f.get? j <;> simp
    · rfl
  induction ids generalizing f with
  | nil => rfl
  | cons id ids ih =>
    obtain ⟨-, heq⟩ | ⟨-, heq | heq⟩ := approve_cons_cases n now id ids f <;> rw [heq]
    · exact (ih _).trans (hmodify f id)
    · exact hmodify f id

theorem get?_approve_of_not_mem (hj : j ∉ ids) (n : Nat) (now : Instant) (f : Forest) :
    (approve n now ids f).2.get? j = f.get? j := by
  induction ids generalizing f with
  | nil => rfl
  | cons id ids ih =>
    obtain ⟨hne, hj⟩ := List.ne_and_not_mem_of_not_mem_cons hj
    have hmodify : (f.modify id (Bucket.observe now)).get? j = f.get? j := by
      rw [get?_modify, if_neg (Ne.symm hne)]
    obtain ⟨-, heq⟩ | ⟨-, heq | heq⟩ := approve_cons_cases n now id ids f <;> rw [heq]
    · exact (ih hj _).trans hmodify
    · exact hmodify

/-- Once all agreed, all of them are accounted for. -/
theorem get?_approve_of_mem (hagree : ∀ i ∈ ids, Agrees n now f i) (hj : j ∈ ids) :
    (approve n now ids f).2.get? j = (f.get? j).map (Bucket.observe now) := by
  induction ids generalizing f with
  | nil => cases hj
  | cons id ids ih =>
    obtain ⟨hid, hids⟩ := List.forall_mem_cons.1 hagree
    obtain ⟨-, heq⟩ | ⟨hrefuses, -⟩ := approve_cons_cases n now id ids f
    · rw [heq]
      by_cases hmem : j ∈ ids
      · -- a second account of `id` further up would find nothing to add
        rw [ih (fun i hi ↦ (agrees_modify_observe id i).2 (hids i hi)) hmem, get?_modify]
        split
        · cases f.get? j <;> simp
        · rfl
      · obtain rfl := (List.mem_cons.1 hj).resolve_right hmem
        rw [get?_approve_of_not_mem hmem, get?_modify, if_pos rfl]
    · exact absurd hid hrefuses

/-! ### Taking -/

/-- **A withdrawal is granted** if all buckets of the line agree. -/
theorem withdraw_fst_iff (f : Forest) (id : BucketId) (n : Nat) (now : Instant) :
    (f.withdraw id n now).1 = true ↔ ∀ j ∈ f.line id, Agrees n now f j := by
  rw [← approve_fst_iff, withdraw]
  split <;> rename_i heq <;> rw [heq]

/-- Where a bucket is, is among its terms. -/
theorem line_of_terms {f' : Forest} (h : f'.terms = f.terms) (id : BucketId) :
    f'.line id = f.line id := by
  have hline : ∀ g : Forest, g.line id = id :: (g.terms[id]?.map Prod.fst).getD [] := by
    intro g
    rw [terms, List.getElem?_map, Option.map_map]
    rfl
  rw [hline, hline, h]

/-- What is taken is taken from all of them, or from none. -/
theorem withdraw_snd (f : Forest) (id : BucketId) (n : Nat) (now : Instant) :
    (f.withdraw id n now).2 =
      if (f.withdraw id n now).1 then
        (approve n now (f.line id) f).2.modifyAll (f.line id) (Bucket.charge n)
      else (approve n now (f.line id) f).2 := by
  have hline := line_of_terms (terms_approve n now (f.line id) f) id
  rw [withdraw]
  split <;> rename_i heq <;> rw [heq] at hline ⊢
  · exact congrArg (modifyAll _ · _) hline
  · rfl

/-- What agrees is there and attached, and does not hold less than `n` octets once it is accounted for,
unless it never runs dry. -/
theorem agrees_iff :
    Agrees n now f j ↔ ∃ b, f.get? j = some b ∧ b.attached = true ∧
      (b.isUnlimited = false → ¬(b.refill now).level < Float.ofNat n) := by
  simp only [Agrees, Bucket.affords_observe_iff]

/-- The level that is told is what is available at the instant. -/
theorem level_fst (f : Forest) (j : BucketId) (now : Instant) :
    (f.level j now).1 = ((f.get? j).map (Bucket.observe now)).map Bucket.available := by
  rw [level, get?_modify, if_pos rfl]

/-- **A withdrawal takes from the whole line or from nothing.** It is granted exactly if the bucket and
all that it draws from are attached, and each of them that can run dry does not hold less than what is
asked for once it is accounted for. Then each of those is that much lower; otherwise no level is another
one. No bucket outside the line is touched in either case. -/
theorem withdraw_all_or_nothing (hplanted : f.Planted) (id : BucketId) (n : Nat) (now : Instant) :
    ((f.withdraw id n now).1 = true ↔
      ∀ j ∈ f.line id, ∃ b, f.get? j = some b ∧ b.attached = true ∧
        (b.isUnlimited = false → ¬(b.refill now).level < Float.ofNat n)) ∧
    ((f.withdraw id n now).1 = true → ∀ j ∈ f.line id, ∀ b, f.get? j = some b →
      (f.withdraw id n now).2.get? j = some (if b.isUnlimited then b else
        { b.refill now with level := (b.refill now).level - Float.ofNat n })) ∧
    ((f.withdraw id n now).1 = false →
      ∀ j, ((f.withdraw id n now).2.level j now).1 = (f.level j now).1) ∧
    ∀ j, j ∉ f.line id → (f.withdraw id n now).2.get? j = f.get? j := by
  refine ⟨?_, fun hgranted j hj b hb ↦ ?_, fun hrefused j ↦ ?_, fun j hj ↦ ?_⟩
  · simp only [withdraw_fst_iff, agrees_iff]
  · have hagree := (f.withdraw_fst_iff id n now).1 hgranted
    rw [withdraw_snd, if_pos hgranted, get?_modifyAll_of_mem (hplanted.nodup_line id) hj,
      get?_approve_of_mem hagree hj, hb]
    exact congrArg some (b.charge_observe n now)
  · rw [withdraw_snd, hrefused, level_fst, level_fst]
    exact congrArg _ (observe_approve n now (f.line id) f j)
  · have happrove := get?_approve_of_not_mem hj n now f
    rw [withdraw_snd]
    split
    · exact (get?_modifyAll_of_not_mem hj _).trans happrove
    · exact happrove

/-- A root that fills at 100 octets per second, a bucket below it and one below that. -/
def threeStoreys : Forest :=
  run [.addRoot 100 100 0, .addChild 0 1000 1000 0, .addChild 1 500 500 0] {}

/-- The root can not afford 200 octets, and the two buckets below keep what they hold. It can afford 50. -/
theorem withdraw_of_threeStoreys :
    threeStoreys.Planted ∧ (threeStoreys.withdraw 2 200 0).1 = false ∧
    (∀ j, ((threeStoreys.withdraw 2 200 0).2.level j 0).1 = (threeStoreys.level j 0).1) ∧
    (threeStoreys.withdraw 2 50 0).1 = true ∧
    ∀ j ∈ threeStoreys.line 2, ∀ b, threeStoreys.get? j = some b →
      (threeStoreys.withdraw 2 50 0).2.get? j = some (if b.isUnlimited then b else
        { b.refill 0 with level := (b.refill 0).level - Float.ofNat 50 }) := by
  have hplanted : threeStoreys.Planted := planted_empty.run _
  have hrefused : (threeStoreys.withdraw 2 200 0).1 = false := by decide +kernel
  have hgranted : (threeStoreys.withdraw 2 50 0).1 = true := by decide +kernel
  exact ⟨hplanted, hrefused, (withdraw_all_or_nothing hplanted 2 200 0).2.2.1 hrefused, hgranted,
    (withdraw_all_or_nothing hplanted 2 50 0).2.1 hgranted⟩

end Forest

end DatagramCircuits
