import DatagramCircuits.Octets.ZeroRuns
import Mathlib.Data.List.Basic
/-!
# Reading runs of zeros

What was coded and is read to the end comes out as it was (`eq_of_decode_encode`), whatever room the
reader has; and with room for what was coded, it is read to the end (`decode_encode`). The inductions go
along what was coded, with the zeros that are not written yet in front.

The coded form has the length that is found without writing it (`length_encode`).
-/

namespace DatagramCircuits

namespace ZeroRuns

variable {limit room : Nat} {s o : Octets}

/-- What is read to the end with something in front was read to the end without it. -/
theorem exists_of_prepend {t : Octets} {e : Expansion} (h : e.prepend t = ⟨o, none⟩) :
    ∃ o', e = ⟨o', none⟩ ∧ o = t ++ o' := by
  obtain ⟨octets, stopped⟩ := e
  cases h
  exact ⟨octets, rfl, rfl⟩

/-- A run that is read makes its zeros, and leaves less room. -/
theorem decodeWithin_run {n : UInt8} (hn : n ≠ 0)
    (h : decodeWithin limit room (0 :: n :: s) = ⟨o, none⟩) :
    ∃ room' o', decodeWithin limit room' s = ⟨o', none⟩ ∧ o = List.replicate n.toNat 0 ++ o' := by
  rw [decodeWithin.eq_def] at h
  simp only [if_true, hn, if_false] at h
  split at h
  · exact absurd h (by simp)
  · obtain ⟨o', ho', rfl⟩ := exists_of_prepend h
    exact ⟨room - n.toNat, o', ho', rfl⟩

/-- Any other octet stands for itself. -/
theorem decodeWithin_literal {b : UInt8} (hb : b ≠ 0)
    (h : decodeWithin limit room (b :: s) = ⟨o, none⟩) :
    ∃ room' o', decodeWithin limit room' s = ⟨o', none⟩ ∧ o = b :: o' := by
  rw [decodeWithin.eq_def] at h
  simp only [hb, if_false] at h
  cases room with
  | zero => cases h
  | succ room =>
    obtain ⟨o', ho', rfl⟩ := exists_of_prepend h
    exact ⟨room, o', ho', rfl⟩

/-- Full runs that are read make all their zeros. -/
theorem decodeWithin_fullRuns (count : Nat)
    (h : decodeWithin limit room ((List.replicate count [0, 255]).flatten ++ s) = ⟨o, none⟩) :
    ∃ room' o', decodeWithin limit room' s = ⟨o', none⟩ ∧
      o = List.replicate (maxRun * count) 0 ++ o' := by
  induction count generalizing room o with
  | zero => exact ⟨room, o, h, rfl⟩
  | succ count ih =>
    rw [List.replicate_succ, List.flatten_cons, List.append_assoc] at h
    obtain ⟨room₁, o₁, h₁, rfl⟩ := decodeWithin_run (by decide) h
    obtain ⟨room₂, o₂, h₂, rfl⟩ := ih h₁
    refine ⟨room₂, o₂, h₂, ?_⟩
    rw [← List.append_assoc, ← List.replicate_add, Nat.mul_succ, Nat.add_comm]
    rfl

/-- **A written run is read as its zeros,** however it had to be divided. -/
theorem decodeWithin_writeRun {n : Nat} (h : decodeWithin limit room (writeRun n ++ s) = ⟨o, none⟩) :
    ∃ room' o', decodeWithin limit room' s = ⟨o', none⟩ ∧ o = List.replicate n 0 ++ o' := by
  rw [writeRun, List.append_assoc] at h
  obtain ⟨room₁, o₁, h₁, rfl⟩ := decodeWithin_fullRuns _ h
  have hsplit : maxRun * (n / maxRun) + n % maxRun = n := Nat.div_add_mod n maxRun
  -- the full runs are read; what is left is a shorter run, or nothing
  by_cases h0 : n % maxRun = 0
  · rw [if_pos h0] at h₁
    refine ⟨room₁, o₁, h₁, ?_⟩
    rw [show maxRun * (n / maxRun) = n by omega]
  · rw [if_neg h0] at h₁
    have hlt : n % maxRun < 256 :=
      Nat.lt_trans (Nat.mod_lt _ (by decide)) (by decide)
    have hback : (UInt8.ofNat (n % maxRun)).toNat = n % maxRun := by
      rw [UInt8.toNat_ofNat']
      exact Nat.mod_eq_of_lt hlt
    have hne : UInt8.ofNat (n % maxRun) ≠ 0 := by
      intro heq
      rw [heq] at hback
      exact h0 hback.symm
    obtain ⟨room₂, o₂, h₂, rfl⟩ := decodeWithin_run hne h₁
    refine ⟨room₂, o₂, h₂, ?_⟩
    rw [hback, ← List.append_assoc, ← List.replicate_add, hsplit]

theorem decodeWithin_encodeAfter {run : Nat}
    (h : decodeWithin limit room (encodeAfter run s) = ⟨o, none⟩) : o = List.replicate run 0 ++ s := by
  induction s generalizing run room o with
  | nil =>
    have hrun : decodeWithin limit room (writeRun run ++ []) = ⟨o, none⟩ := by
      rw [List.append_nil]
      exact h
    obtain ⟨room', o', h', rfl⟩ := decodeWithin_writeRun hrun
    rw [decodeWithin.eq_def] at h'
    cases h'
    rfl
  | cons b s ih =>
    rw [encodeAfter] at h
    by_cases hb : b = 0
    · -- one zero more in the run that is counted
      rw [if_pos hb] at h
      rw [ih h, hb, List.replicate_succ', List.append_assoc]
      rfl
    · -- the run ends in front of another octet
      rw [if_neg hb] at h
      obtain ⟨room₁, o₁, h₁, rfl⟩ := decodeWithin_writeRun h
      obtain ⟨room₂, o₂, h₂, rfl⟩ := decodeWithin_literal hb h₁
      rw [ih h₂]
      rfl

/-- **What was coded and is read to the end comes out as it was.** -/
theorem eq_of_decode_encode (h : decode limit (encode s) = ⟨o, none⟩) : o = s :=
  decodeWithin_encodeAfter h

/-! ### Room enough -/

/-- Putting something in front twice is putting it in front at once. -/
theorem prepend_prepend (s t : Octets) (e : Expansion) :
    (e.prepend t).prepend s = e.prepend (s ++ t) := by
  simp [Expansion.prepend]

/-- Full runs are read where there is room for their zeros. -/
theorem decodeWithin_fullRuns_append (count : Nat) (h : maxRun * count ≤ room) :
    decodeWithin limit room ((List.replicate count [0, 255]).flatten ++ s) =
      (decodeWithin limit (room - maxRun * count) s).prepend (List.replicate (maxRun * count) 0) := by
  induction count generalizing room with
  | zero => rfl
  | succ count ih =>
    rw [Nat.mul_succ] at h ⊢
    have hroom : ¬ room < (255 : UInt8).toNat := by
      rw [show (255 : UInt8).toNat = maxRun from rfl]
      omega
    rw [List.replicate_succ, List.flatten_cons, List.append_assoc]
    show decodeWithin limit room (0 :: 255 :: ((List.replicate count [0, 255]).flatten ++ s)) = _
    rw [decodeWithin.eq_def]
    simp only [if_true, show (255 : UInt8) ≠ 0 by decide, if_false, hroom]
    rw [show (255 : UInt8).toNat = maxRun from rfl, ih (by omega), prepend_prepend,
      ← List.replicate_add, Nat.sub_sub, Nat.add_comm maxRun]

/-- **A written run is read where there is room for its zeros.** -/
theorem decodeWithin_writeRun_append {n : Nat} (h : n ≤ room) :
    decodeWithin limit room (writeRun n ++ s) =
      (decodeWithin limit (room - n) s).prepend (List.replicate n 0) := by
  have hsplit : maxRun * (n / maxRun) + n % maxRun = n := Nat.div_add_mod n maxRun
  rw [writeRun, List.append_assoc, decodeWithin_fullRuns_append _ (by omega)]
  by_cases h0 : n % maxRun = 0
  · rw [if_pos h0, List.nil_append, show maxRun * (n / maxRun) = n by omega]
  · have hback : (UInt8.ofNat (n % maxRun)).toNat = n % maxRun := by
      rw [UInt8.toNat_ofNat']
      exact Nat.mod_eq_of_lt (Nat.lt_trans (Nat.mod_lt _ (by decide)) (by decide))
    have hne : UInt8.ofNat (n % maxRun) ≠ 0 := by
      intro heq
      rw [heq] at hback
      exact h0 hback.symm
    have hroom : ¬ room - maxRun * (n / maxRun) < n % maxRun := by omega
    rw [if_neg h0, List.cons_append, List.cons_append, List.nil_append, decodeWithin.eq_def]
    simp only [if_true, hne, if_false, hback, hroom]
    rw [prepend_prepend, ← List.replicate_add, Nat.sub_sub, hsplit]

theorem decodeWithin_encodeAfter_of_le {run : Nat} (h : run + s.length ≤ room) :
    decodeWithin limit room (encodeAfter run s) = ⟨List.replicate run 0 ++ s, none⟩ := by
  induction s generalizing run room with
  | nil =>
    rw [encodeAfter, ← List.append_nil (writeRun run),
      decodeWithin_writeRun_append (by simpa using h), decodeWithin.eq_def]
    rfl
  | cons b s ih =>
    rw [List.length_cons] at h
    rw [encodeAfter]
    by_cases hb : b = 0
    · rw [if_pos hb, ih (by omega), hb, List.replicate_succ', List.append_assoc]
      rfl
    · obtain ⟨left, hleft⟩ : ∃ left, room - run = left + 1 := ⟨room - run - 1, by omega⟩
      rw [if_neg hb, decodeWithin_writeRun_append (by omega), hleft, decodeWithin.eq_def]
      simp only [hb, if_false]
      rw [ih (by omega), prepend_prepend]
      simp [Expansion.prepend]

/-- **With room for it, what was coded is read to the end.** -/
theorem decode_encode (h : s.length ≤ limit) : decode limit (encode s) = ⟨s, none⟩ :=
  decodeWithin_encodeAfter_of_le (by omega)

/-! ### The length of the coded form -/

theorem length_writeRun (n : Nat) : (writeRun n).length = 2 * Octets.pieceCount maxRun n := by
  have hfull : (List.replicate (n / maxRun) [(0 : UInt8), 255]).flatten.length =
      2 * (n / maxRun) := by
    simp [Nat.mul_comm]
  have hrun : maxRun = 255 := rfl
  rw [writeRun, List.length_append, hfull, Octets.pieceCount, hrun]
  split <;> simp only [List.length_nil, List.length_cons] <;> omega

theorem length_encodeAfter (run : Nat) (s : Octets) :
    (encodeAfter run s).length = encodedLengthAfter run s := by
  induction s generalizing run with
  | nil => exact length_writeRun run
  | cons b s ih =>
    rw [encodeAfter, encodedLengthAfter]
    split
    · exact ih (run + 1)
    · rw [List.length_append, List.length_cons, length_writeRun, ih 0]
      omega

/-- **The length found without writing is the length that is written.** -/
theorem length_encode (s : Octets) : (encode s).length = encodedLength s :=
  length_encodeAfter 0 s

end ZeroRuns

end DatagramCircuits
