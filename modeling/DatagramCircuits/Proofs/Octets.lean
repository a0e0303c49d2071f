import DatagramCircuits.Octets.Basic
import Mathlib.Data.List.Basic
import Mathlib.Tactic.Ring
/-!
# Numbers and pieces read back

Two laws of what is written in a datagram. A number that is written in a fixed width and read again is
the number modulo that width, most or least significant octet first. A list that is put together from
parts of one size is cut into these parts again.
-/

namespace DatagramCircuits

namespace Octets

/-! ### Numbers -/

/-- Reading goes on from what was read before, which moves up by the width of the rest. -/
theorem foldl_bigEndian (s : Octets) (n : Nat) :
    s.foldl (fun n b ↦ 256 * n + b.toNat) n = n * 256 ^ s.length + ofBigEndian s := by
  induction s generalizing n with
  | nil => simp [ofBigEndian]
  | cons b s ih =>
    have hfirst : ofBigEndian (b :: s) = b.toNat * 256 ^ s.length + ofBigEndian s := by
      rw [ofBigEndian, List.foldl_cons, ih]
      simp
    rw [List.foldl_cons, ih, hfirst, List.length_cons, pow_succ]
    ring

theorem ofBigEndian_cons (b : UInt8) (s : Octets) :
    ofBigEndian (b :: s) = b.toNat * 256 ^ s.length + ofBigEndian s := by
  rw [ofBigEndian, List.foldl_cons, foldl_bigEndian]
  simp

theorem bigEndian_succ (w n : Nat) :
    bigEndian (w + 1) n = UInt8.ofNat (n / 256 ^ w) :: bigEndian w n :=
  rfl

/-- **A number written in `w` octets is read back modulo their range.** -/
theorem ofBigEndian_bigEndian (w n : Nat) : ofBigEndian (bigEndian w n) = n % 256 ^ w := by
  induction w with
  | zero => simp [bigEndian, ofBigEndian, Nat.mod_one]
  | succ w ih =>
    have htop : (UInt8.ofNat (n / 256 ^ w)).toNat = n / 256 ^ w % 256 := by
      simp [UInt8.toNat_ofNat']
    rw [bigEndian_succ, ofBigEndian_cons, length_bigEndian, htop, ih, Nat.pow_succ, Nat.mod_mul]
    ring

theorem ofLittleEndian_littleEndian (w n : Nat) :
    ofLittleEndian (littleEndian w n) = n % 256 ^ w := by
  rw [ofLittleEndian, littleEndian, List.reverse_reverse, ofBigEndian_bigEndian]

/-- A sequence number fits into four octets. -/
theorem ofNat_ofBigEndian_bigEndian (n : UInt32) :
    UInt32.ofNat (ofBigEndian (bigEndian 4 n.toNat)) = n := by
  rw [ofBigEndian_bigEndian, Nat.mod_eq_of_lt (show n.toNat < 256 ^ 4 from n.toNat_lt)]
  exact UInt32.ofNat_toNat

theorem ofNat_ofLittleEndian_littleEndian (n : UInt32) :
    UInt32.ofNat (ofLittleEndian (littleEndian 4 n.toNat)) = n := by
  rw [ofLittleEndian_littleEndian, Nat.mod_eq_of_lt (show n.toNat < 256 ^ 4 from n.toNat_lt)]
  exact UInt32.ofNat_toNat

/-! ### Pieces -/

variable {α : Type}

@[simp] theorem pieces_nil (size : Nat) : pieces size ([] : List α) = [] := by
  have h : (size - 1) / size = 0 := by
    rcases Nat.eq_zero_or_pos size with rfl | hpos
    · rfl
    · exact Nat.div_eq_of_lt (by omega)
  simp [pieces, pieceCount, cut, h]

/-- The first piece is taken off in front of the others. -/
theorem pieces_append {size : Nat} (hsize : 0 < size) {l₁ l₂ : List α} (hlen : l₁.length = size) :
    pieces size (l₁ ++ l₂) = l₁ :: pieces size l₂ := by
  have hcount : pieceCount size (l₁ ++ l₂).length = pieceCount size l₂.length + 1 := by
    have harith : size + l₂.length + size - 1 = l₂.length + size - 1 + size := by omega
    rw [List.length_append, hlen, pieceCount, pieceCount, harith, Nat.add_div_right _ hsize]
  -- the pieces after the first one begin one size later
  rw [pieces, hcount, cut, List.range_succ_eq_map, List.map_cons, List.map_map]
  congr 1
  · simp [← hlen]
  · refine List.map_congr_left fun i _ ↦ ?_
    have hdrop : (i + 1) * size = l₁.length + i * size := by
      rw [hlen]
      ring
    simp only [Function.comp_apply, Nat.succ_eq_add_one, hdrop, List.drop_append,
      Nat.add_sub_cancel_left, List.drop_eq_nil_of_le (Nat.le_add_right ..), List.nil_append]

/-- **Parts of one size are found again.** -/
theorem pieces_flatten {size : Nat} (hsize : 0 < size) {parts : List (List α)}
    (h : ∀ s ∈ parts, s.length = size) : pieces size parts.flatten = parts := by
  induction parts with
  | nil => simp
  | cons s parts ih =>
    rw [List.flatten_cons, pieces_append hsize (h s List.mem_cons_self),
      ih fun t ht ↦ h t (List.mem_cons_of_mem _ ht)]

/-- **Nothing is lost by cutting.** -/
theorem flatten_pieces {size : Nat} (hsize : 0 < size) (l : List α) :
    (pieces size l).flatten = l := by
  induction hn : l.length using Nat.strong_induction_on generalizing l with
  | _ n ih =>
    rcases Nat.lt_or_ge l.length size with hshort | hlong
    · rcases Nat.eq_zero_or_pos l.length with h0 | hpos
      · simp [List.length_eq_zero_iff.1 h0]
      · -- a last piece that is shorter than the others
        have hone : pieceCount size l.length = 1 :=
          Nat.div_eq_of_lt_le (by omega) (by omega)
        rw [pieces, hone]
        simp [cut, List.take_of_length_le (Nat.le_of_lt hshort)]
    · have hcut : pieces size l = l.take size :: pieces size (l.drop size) := by
        rw [← pieces_append hsize (List.length_take_of_le hlong), List.take_append_drop]
      rw [hcut, List.flatten_cons, ih (l.drop size).length (by rw [List.length_drop]; omega) _ rfl,
        List.take_append_drop]

theorem length_le_of_mem_pieces {size : Nat} {l s : List α} (h : s ∈ pieces size l) :
    s.length ≤ size := by
  obtain ⟨i, -, rfl⟩ := List.mem_map.1 h
  exact List.length_take_le ..

end Octets

end DatagramCircuits
