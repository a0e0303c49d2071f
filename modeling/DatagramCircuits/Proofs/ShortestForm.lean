import DatagramCircuits.Proofs.Tokens
/-!
# The shortest coded form

What is written for some octets is tokens for them, and no other tokens for them are fewer octets.

**Writing in place** counts a run in a single octet and gives it out as soon as that is full. The count
never leaves its octet (`ZeroRuns.write_eq`), and what is given out early is what a longer run begins with
anyway (`ZeroRuns.encodeAfter_maxRun_add`).

**No shorter form.** A token in front of some octets makes their coded form longer by no more than the token
itself (`ZeroRuns.encodedLength_token_le`): runs that follow each other are coded at once, which takes as
many octets as coding them one by one or fewer.
-/

namespace DatagramCircuits

namespace ZeroRuns

/-! ### Writing in place -/

/-- A run that is as long as possible is a token of its own. -/
theorem writeRun_maxRun_add (n : Nat) : writeRun (maxRun + n) = [0, 255] ++ writeRun n := by
  have hdiv : (maxRun + n) / maxRun = n / maxRun + 1 := Nat.add_div_left n (by decide)
  rw [writeRun, writeRun, hdiv, Nat.add_mod_left, List.replicate_succ, List.flatten_cons,
    List.append_assoc]

/-- Such a run can be written before it is known what follows. -/
theorem encodeAfter_maxRun_add (run : Nat) (s : Octets) :
    encodeAfter (maxRun + run) s = [0, 255] ++ encodeAfter run s := by
  induction s generalizing run with
  | nil => exact writeRun_maxRun_add run
  | cons b s ih =>
    rw [encodeAfter, encodeAfter]
    by_cases hb : b = 0
    · rw [if_pos hb, if_pos hb, Nat.add_assoc]
      exact ih (run + 1)
    · rw [if_neg hb, if_neg hb, writeRun_maxRun_add, List.append_assoc]

/-- Giving out what is counted is writing the run. -/
theorem giveOut_eq (start : Octets) (run : UInt8) :
    giveOut start run = start ++ writeRun run.toNat := by
  have hlt := run.toNat_lt
  rw [giveOut]
  by_cases h0 : run = 0
  · rw [if_pos h0, h0]
    exact (List.append_nil start).symm
  · have hpos : run.toNat ≠ 0 := fun h ↦ h0 (UInt8.toNat_inj.1 h)
    rw [if_neg h0]
    by_cases hfull : run = 255
    · rw [hfull]
      rfl
    · have hne : run.toNat ≠ 255 := fun h ↦ hfull (UInt8.toNat_inj.1 h)
      have hdiv : run.toNat / maxRun = 0 := Nat.div_eq_of_lt (by rw [maxRun]; omega)
      have hmod : run.toNat % maxRun = run.toNat := Nat.mod_eq_of_lt (by rw [maxRun]; omega)
      rw [writeRun, hdiv, hmod, if_neg hpos, UInt8.ofNat_toNat]
      rfl

/-- Counting one more zero stays within the octet while the run is not full. -/
theorem countOctet_succ {run : UInt8} (h : run ≠ 255) :
    ∃ next, Octets.countOctet (run.toNat + 1) = .ok next ∧ next.toNat = run.toNat + 1 := by
  have hlt := run.toNat_lt
  have hne : run.toNat ≠ 255 := fun heq ↦ h (UInt8.toNat_inj.1 heq)
  refine ⟨UInt8.ofNat (run.toNat + 1), if_pos (by omega), ?_⟩
  rw [UInt8.toNat_ofNat']
  exact Nat.mod_eq_of_lt (by omega)

theorem writeAfter_eq (start : Octets) (run : UInt8) (s : Octets) :
    writeAfter start run s = .ok (start ++ encodeAfter run.toNat s) := by
  induction s generalizing start run with
  | nil => exact congrArg Except.ok (giveOut_eq start run)
  | cons b s ih =>
    rw [writeAfter, encodeAfter]
    by_cases hb : b = 0
    · rw [if_pos hb, if_pos hb]
      by_cases hfull : run = 255
      · -- the full run is given out, and the zero begins another one
        subst hfull
        show writeAfter (giveOut start 255) 1 s = _
        rw [ih, giveOut_eq, List.append_assoc]
        exact congrArg (fun e ↦ Except.ok (start ++ e)) (encodeAfter_maxRun_add 1 s).symm
      · obtain ⟨next, hnext, hcount⟩ := countOctet_succ hfull
        rw [if_neg hfull, ← hcount]
        show (Octets.countOctet (run.toNat + 1) >>= fun next ↦ writeAfter start next s) = _
        rw [hnext]
        exact ih start next
    · rw [if_neg hb, if_neg hb, ih, giveOut_eq, List.append_assoc, List.append_assoc]
      rfl

/-- **Writing in place is never at fault,** and adds the coded form to what is there. -/
theorem write_eq (start s : Octets) : write start s = .ok (start ++ encode s) :=
  writeAfter_eq start 0 s

/-! ### No shorter form -/

/-- Two runs take no fewer octets apart than as one. -/
theorem pieceCount_add_le (n k : Nat) :
    Octets.pieceCount maxRun (n + k) ≤ Octets.pieceCount maxRun n + Octets.pieceCount maxRun k := by
  simp only [Octets.pieceCount, maxRun]
  omega

/-- A run in front of what is counted adds no more than it takes alone. -/
theorem encodedLengthAfter_add_le (n run : Nat) (s : Octets) :
    encodedLengthAfter (n + run) s ≤
      2 * Octets.pieceCount maxRun n + encodedLengthAfter run s := by
  have hadd := pieceCount_add_le n run
  induction s generalizing run with
  | nil =>
    rw [encodedLengthAfter, encodedLengthAfter]
    omega
  | cons b s ih =>
    rw [encodedLengthAfter, encodedLengthAfter]
    by_cases hb : b = 0
    · rw [if_pos hb, if_pos hb, Nat.add_assoc]
      exact ih (run + 1) (pieceCount_add_le n (run + 1))
    · rw [if_neg hb, if_neg hb]
      omega

/-- Zeros in front are counted with those that are counted already. -/
theorem encodedLengthAfter_replicate (n run : Nat) (s : Octets) :
    encodedLengthAfter run (List.replicate n 0 ++ s) = encodedLengthAfter (n + run) s := by
  induction n generalizing run with
  | zero => rw [Nat.zero_add]; rfl
  | succ n ih =>
    rw [List.replicate_succ, List.cons_append, encodedLengthAfter, if_pos rfl, ih, Nat.add_assoc,
      Nat.add_comm 1]

/-- **What a token stands for adds no more than the token.** -/
theorem encodedLength_token_le (t : Token) (s : Octets) :
    encodedLength (t.expansion ++ s) ≤ t.octets.length + encodedLength s := by
  cases t with
  | literal b hb =>
    show encodedLengthAfter 0 (b :: s) ≤ 1 + encodedLengthAfter 0 s
    rw [encodedLengthAfter, if_neg hb]
    exact Nat.le_refl _
  | run n hn =>
    have hone : Octets.pieceCount maxRun n.toNat ≤ 1 := by
      have hlt := n.toNat_lt
      simp only [Octets.pieceCount, maxRun]
      omega
    have hadd := encodedLengthAfter_add_le n.toNat 0 s
    show encodedLengthAfter 0 (List.replicate n.toNat 0 ++ s) ≤ 2 + encodedLengthAfter 0 s
    rw [encodedLengthAfter_replicate]
    omega

/-- **No tokens are shorter than the coded form of what they stand for.** -/
theorem encodedLength_expanded_le (l : List Token) :
    encodedLength (expanded l) ≤ (written l).length := by
  induction l with
  | nil => exact Nat.le_refl _
  | cons t l ih =>
    have ht := encodedLength_token_le t (expanded l)
    rw [expanded_cons, written_cons, List.length_append]
    omega

/-- The coded form is tokens, and stands for what was coded. -/
theorem exists_written_eq_encode (s : Octets) : ∃ l, encode s = written l ∧ expanded l = s := by
  have hread := decode_encode (Nat.le_refl s.length)
  obtain ⟨l, hl, hfits⟩ := stopped_eq_none_iff.1 (congrArg Expansion.stopped hread)
  rw [hl, decode, decodeWithin_written hfits] at hread
  exact ⟨l, hl, congrArg Expansion.octets hread⟩

/-- **The coded form is read as what was coded, where there is room for that and nowhere else, and there
is no shorter one.** It is written behind whatever is there, in the length that is found without writing
it, and read behind whatever is there. -/
theorem encode_shortest (start b : Octets) :
    (encode b).length = encodedLength b ∧
      write start b = .ok (start ++ encode b) ∧
      (∀ limit, start.length + limit < UInt64.size → b.length ≤ limit →
        append start limit (encode b) = .ok ⟨start ++ b, none⟩) ∧
      (∀ limit, start.length + limit < UInt64.size → limit < b.length →
        ∃ e, append start limit (encode b) = .ok e ∧ e.stopped = some (.tooLong limit)) ∧
      ∀ limit s, append start limit s = .ok ⟨start ++ b, none⟩ → (encode b).length ≤ s.length := by
  refine ⟨length_encode b, write_eq start b, fun limit hplace hlimit ↦ ?_,
    fun limit hplace hlimit ↦ ?_, fun limit s happend ↦ ?_⟩
  · rw [append, within64, if_pos hplace, decode_encode hlimit]
    rfl
  · obtain ⟨l, hl, rfl⟩ := exists_written_eq_encode b
    rw [append, within64, if_pos hplace, hl, decode]
    exact ⟨_, rfl, stopped_written hlimit⟩
  · obtain ⟨place, -, hread⟩ := bind_eq_ok_iff.1 happend
    obtain ⟨octets, hdecode, hoctets⟩ := exists_of_prepend (Except.ok.inj hread)
    obtain rfl := List.append_cancel_left hoctets
    obtain ⟨l, rfl, hfits⟩ := stopped_eq_none_iff.1 (congrArg Expansion.stopped hdecode)
    rw [decode, decodeWithin_written hfits] at hdecode
    obtain rfl : expanded l = b := congrArg Expansion.octets hdecode
    rw [length_encode]
    exact encodedLength_expanded_le l

/-- Three hundred zeros are two runs, which can be divided in other ways but not be shorter. -/
theorem encode_shortest_two_runs :
    write [9] (List.replicate 300 0 ++ [7, 0, 0]) = .ok [9, 0, 255, 0, 45, 7, 0, 2] ∧
      append [9] 303 [0, 255, 0, 45, 7, 0, 2] = .ok ⟨[9] ++ (List.replicate 300 0 ++ [7, 0, 0]), none⟩ ∧
      append [9] 303 [0, 100, 0, 200, 7, 0, 1, 0, 1] =
        .ok ⟨[9] ++ (List.replicate 300 0 ++ [7, 0, 0]), none⟩ ∧
      (encode (List.replicate 300 0 ++ [7, 0, 0])).length ≤
        [0, 100, 0, 200, 7, 0, 1, 0, 1].length := by
  have hcode : encode (List.replicate 300 0 ++ [7, 0, 0]) = [0, 255, 0, 45, 7, 0, 2] := by
    decide +kernel
  have hother : append [9] 303 [0, 100, 0, 200, 7, 0, 1, 0, 1] =
      .ok ⟨[9] ++ (List.replicate 300 0 ++ [7, 0, 0]), none⟩ := by
    decide +kernel
  obtain ⟨-, hwrite, hread, -, hshortest⟩ := encode_shortest [9] (List.replicate 300 0 ++ [7, 0, 0])
  have hback := hread 303 (by decide) (by decide +kernel)
  rw [hcode] at hwrite hback
  exact ⟨hwrite, hback, hother, hshortest 303 _ hother⟩

end ZeroRuns

end DatagramCircuits
