import DatagramCircuits.Server.Task
/-!
# Tasks that nothing comes in between of

`Server.complete` goes through a task to its end, and descends into what follows from each action.
Tasks that run side by side go on with `Server.advance` instead, from one wait to the next. Both are
the same where nothing comes in between: `exists_advanceTimes_eq_complete`.

**The rank is what makes `complete` complete.** What follows from an action has a smaller rank than
the action (`rank_lt_of_perform`), so the descent never ends with something left to be done.
-/

namespace DatagramCircuits

/-- The end of a task, by the fault that ended it. -/
def Outcome.ofFault : Option Fault → Outcome
  | none => .finished
  | some fault => .failed fault

namespace Server

variable {now : Instant} {s s' : Server} {l k : List Action}

/-! ### Ranks of what follows -/

/-- Sending has the least rank. -/
theorem rank_lt_one_of_mem_sendAll {target : Address} {datagrams : List Octets} {b : Action}
    (hb : b ∈ Action.sendAll target datagrams) : b.rank < 1 := by
  rw [Action.rank_of_mem_sendAll hb]
  exact Nat.zero_lt_one

/-- What follows from a message of the protocol is sending. -/
theorem rank_lt_one_of_control {id : CircuitId} {c : Circuit} {m : Control}
    (h : s.control id c m now = (.waiting l, s')) {b : Action} (hb : b ∈ l) : b.rank < 1 := by
  unfold control at h
  split at h <;> (try split at h) <;>
    simp only [Prod.mk.injEq, Outcome.waiting.injEq, reduceCtorEq, false_and] at h
  exact rank_lt_one_of_mem_sendAll (h.1 ▸ hb)

/-- So is what follows from the delivery of a packet. -/
theorem rank_lt_one_of_deliver {id : CircuitId} {p : Packet}
    (h : s.deliver id p now = (.waiting l, s')) {b : Action} (hb : b ∈ l) : b.rank < 1 := by
  unfold deliver at h
  split at h
  · cases h
  · split at h
    · cases h
    · exact rank_lt_one_of_control h hb
    · cases h
      cases hb

/-- A datagram that is taken in is followed by sending and the delivery of its packet. -/
theorem rank_le_one_of_receive {id : CircuitId} {p : Packet} {length : Nat}
    (h : s.receive id p length now = (.waiting l, s')) {b : Action} (hb : b ∈ l) : b.rank ≤ 1 := by
  unfold receive at h
  split at h
  · cases h
  · split at h
    · cases h
    · cases h
    · cases h
    · exact Nat.le_of_lt (rank_lt_one_of_deliver h hb)
    · split at h
      · exact Nat.le_of_lt (rank_lt_one_of_deliver h hb)
      · cases h
        rcases List.mem_append.1 hb with hb | hb
        · exact Nat.le_of_lt (rank_lt_one_of_mem_sendAll hb)
        · cases List.mem_singleton.1 hb
          exact Nat.le_refl 1

theorem rank_le_one_of_handle {source : Address} {datagram : Octets}
    (h : s.handle source datagram now = (.waiting l, s')) {b : Action} (hb : b ∈ l) : b.rank ≤ 1 := by
  unfold handle readDatagram at h
  split at h
  · split at h
    · exact rank_le_one_of_receive h hb
    · split at h <;> cases h
  · cases h
  · cases h

theorem rank_le_one_of_replay {id : CircuitId} {datagram : Octets}
    (h : s.replay id datagram now = (.waiting l, s')) {b : Action} (hb : b ∈ l) : b.rank ≤ 1 := by
  unfold replay readDatagram at h
  split at h
  · exact rank_le_one_of_receive h hb
  · cases h
  · cases h

theorem rank_lt_one_of_serve {id : CircuitId} {time : Instant}
    (h : s.serve id time = (.waiting l, s')) {b : Action} (hb : b ∈ l) : b.rank < 1 := by
  unfold serve at h
  split at h
  · cases h
  · split at h
    · cases h
    · split at h
      · cases h
      · simp only at h
        split at h
        · cases h
        · cases h
          exact rank_lt_one_of_mem_sendAll hb

/-- What follows from an action has a smaller rank. -/
theorem rank_lt_of_perform {a : Action} (h : s.perform now a = (.waiting l, s')) {b : Action}
    (hb : b ∈ l) : b.rank < a.rank := by
  cases a with
  | transmit target datagram => cases h; cases hb
  | countSent n => cases h
  | announce id => cases h
  | deliver id p => exact rank_lt_one_of_deliver h hb
  | replay id datagram => exact Nat.lt_succ_of_le (rank_le_one_of_replay h hb)
  | handle source datagram => exact Nat.lt_succ_of_le (rank_le_one_of_handle h hb)
  | serve id time => exact rank_lt_one_of_serve h hb

/-! ### One wait after another -/

/-- Goes on with a task at most `count` times, at one instant and with nothing in between. -/
def advanceTimes (now : Instant) : (count : Nat) → List Action → Server → Outcome × Server
  | 0, l, s => (.waiting l, s)
  | count + 1, l, s =>
    match s.advance now l with
    | (.waiting rest, s) => advanceTimes now count rest s
    | ended => ended

/-- To go on with two lists of actions is to go on with the one, and with the other once it is
finished. -/
theorem advance_append (now : Instant) (l k : List Action) (s : Server) :
    s.advance now (l ++ k) =
      match s.advance now l with
      | (.finished, s) => s.advance now k
      | (.waiting rest, s) => (.waiting (rest ++ k), s)
      | (.failed fault, s) => (.failed fault, s) := by
  induction l generalizing s with
  | nil => rfl
  | cons a l ih =>
    simp only [List.cons_append, advance]
    split <;> simp_all

/-- A fault ends a task whatever was to be done after it. -/
theorem advanceTimes_append_of_failed {n : Nat} {fault : Fault}
    (h : s.advanceTimes now n l = (.failed fault, s')) (k : List Action) :
    s.advanceTimes now n (l ++ k) = (.failed fault, s') := by
  induction n generalizing l s with
  | zero => cases h
  | succ n ih =>
    simp only [advanceTimes, advance_append] at h ⊢
    split at h <;> simp_all

/-- What was to be done after a task is done after its end. -/
theorem exists_advanceTimes_append {n : Nat} (h : s.advanceTimes now n l = (.finished, s'))
    (k : List Action) (m : Nat) :
    ∃ j, s.advanceTimes now j (l ++ k) = s'.advanceTimes now (m + 1) k := by
  induction n generalizing l s with
  | zero => cases h
  | succ n ih =>
    simp only [advanceTimes] at h
    split at h
    · rename_i rest s₁ hs
      obtain ⟨j, hj⟩ := ih h
      exact ⟨j + 1, by simp [advanceTimes, advance_append, hs, hj]⟩
    · exact ⟨m + 1, by simp only [advanceTimes, advance_append, h]⟩

/-- Going through a task to its end is going on with it often enough, if that is so for what follows
from each of its actions. -/
theorem exists_advanceTimes_eq_completeWith {follow : List Action → Server → Option Fault × Server}
    (h : ∀ a ∈ l, ∀ (s s₁ : Server) (first : List Action), s.perform now a = (.waiting first, s₁) →
      ∃ n, s₁.advanceTimes now n first = (.ofFault (follow first s₁).1, (follow first s₁).2)) :
    ∃ n, s.advanceTimes now n l =
      (.ofFault (completeWith follow now l s).1, (completeWith follow now l s).2) := by
  induction l generalizing s with
  | nil => exact ⟨1, rfl⟩
  | cons a l ih =>
    have hl := fun b hb ↦ h b (List.mem_cons_of_mem a hb)
    match hs : s.perform now a with
    | (.finished, s₁) =>
      obtain ⟨n, hn⟩ := @ih s₁ hl
      cases n with
      | zero =>
        cases hc : (completeWith follow now l s₁).1 <;> simp [advanceTimes, Outcome.ofFault, hc] at hn
      | succ n => exact ⟨n + 1, by simpa [advanceTimes, advance, completeWith, hs] using hn⟩
    | (.failed fault, s₁) =>
      exact ⟨1, by simp [advanceTimes, advance, completeWith, hs, Outcome.ofFault]⟩
    | (.waiting first, s₁) =>
      obtain ⟨n, hn⟩ := h a List.mem_cons_self s s₁ first hs
      match hf : follow first s₁ with
      | (some fault, s₂) =>
        rw [hf] at hn
        refine ⟨n + 1, ?_⟩
        simp [advanceTimes, advance, completeWith, hs, hf, Outcome.ofFault,
          advanceTimes_append_of_failed hn]
      | (none, s₂) =>
        rw [hf] at hn
        obtain ⟨m, hm⟩ := @ih s₂ hl
        cases m with
        | zero =>
          cases hc : (completeWith follow now l s₂).1 <;> simp [advanceTimes, Outcome.ofFault, hc] at hm
        | succ m =>
          obtain ⟨j, hj⟩ := exists_advanceTimes_append hn l m
          rw [hm] at hj
          exact ⟨j + 1, by simp [advanceTimes, advance, completeWith, hs, hf, hj]⟩

/-- Going through a task to its end is going on with it often enough. -/
theorem exists_advanceTimes_eq_complete {rank : Nat} (h : ∀ a ∈ l, a.rank ≤ rank) :
    ∃ n, s.advanceTimes now n l =
      (.ofFault (s.complete now rank l).1, (s.complete now rank l).2) := by
  induction rank generalizing l s with
  | zero =>
    refine exists_advanceTimes_eq_completeWith fun a ha _ s₁ first hp ↦ ?_
    cases first with
    | nil => exact ⟨1, rfl⟩
    | cons b first =>
      exact absurd (rank_lt_of_perform hp List.mem_cons_self) (by simp [Nat.le_zero.1 (h a ha)])
  | succ rank ih =>
    refine exists_advanceTimes_eq_completeWith fun a ha _ s₁ first hp ↦ ih fun b hb ↦ ?_
    exact Nat.le_of_lt_succ (Nat.lt_of_lt_of_le (rank_lt_of_perform hp hb) (h a ha))

end Server

end DatagramCircuits
