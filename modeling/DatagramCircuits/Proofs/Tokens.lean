import DatagramCircuits.Octets.InPlace
import DatagramCircuits.Proofs.ZeroRuns
/-!
# The language of coded octets

Coded octets are a sequence of tokens. A token is an octet other than zero, which stands for itself, or a
zero with the length of a run that is not empty. No token begins another one, so octets are divided into
tokens in one way at most.

**What a reader accepts** is settled by that: whole tokens that expand to no more than it has room for.
Where it stops early it has read as many tokens as possible (`ZeroRuns.Leads`), and all the rest says is
why: there is nothing more, a token is incomplete or an empty run, or the next one is too long.

**Reading in place** compares lengths with the place where reading has to stop, and so with the room that is
left (`ZeroRuns.readUpTo_eq`).
-/

namespace DatagramCircuits

namespace ZeroRuns

/-! ### Tokens -/

/-- The smallest part of coded octets that expands to something. -/
inductive Token where
  /-- An octet that stands for itself. -/
  | literal (b : UInt8) (ne_zero : b ≠ 0)
  /-- A run of zeros, by its length. -/
  | run (n : UInt8) (ne_zero : n ≠ 0)
deriving DecidableEq

/-- The token as it is written. -/
def Token.octets : Token → Octets
  | literal b _ => [b]
  | run n _ => [0, n]

/-- What the token stands for. -/
def Token.expansion : Token → Octets
  | literal b _ => [b]
  | run n _ => List.replicate n.toNat 0

/-- Tokens as they are written. -/
def written (l : List Token) : Octets :=
  l.flatMap Token.octets

/-- What tokens stand for. -/
def expanded (l : List Token) : Octets :=
  l.flatMap Token.expansion

variable {limit room : Nat} {s s' rest : Octets} {t u : Token} {k l : List Token}

@[simp] theorem written_nil : written [] = [] := rfl

@[simp] theorem written_cons (t : Token) (l : List Token) : written (t :: l) = t.octets ++ written l :=
  rfl

@[simp] theorem expanded_nil : expanded [] = [] := rfl

@[simp] theorem expanded_cons (t : Token) (l : List Token) :
    expanded (t :: l) = t.expansion ++ expanded l :=
  rfl

theorem Token.octets_ne_nil (t : Token) : t.octets ≠ [] := by
  cases t <;> exact List.cons_ne_nil _ _

/-- **No token begins another one.** -/
theorem Token.eq_of_octets_append (h : t.octets ++ s = u.octets ++ s') : t = u ∧ s = s' := by
  cases t with
  | literal b hb =>
    cases u with
    | literal b' hb' =>
      obtain ⟨rfl, rfl⟩ := List.cons.inj h
      exact ⟨rfl, rfl⟩
    | run n hn => exact absurd (List.cons.inj h).1 hb
  | run n hn =>
    cases u with
    | literal b' hb' => exact absurd (List.cons.inj h).1.symm hb'
    | run n' hn' =>
      obtain ⟨rfl, rfl⟩ := List.cons.inj (List.cons.inj h).2
      exact ⟨rfl, rfl⟩

/-- Octets begin with a token, or there are none, or the token is incomplete or an empty run. -/
theorem exists_token (s : Octets) :
    s = [] ∨ (∃ t s', s = Token.octets t ++ s') ∨ s = [0] ∨ ∃ s', s = 0 :: 0 :: s' := by
  match s with
  | [] => exact .inl rfl
  | b :: s =>
    by_cases hb : b = 0
    · subst hb
      match s with
      | [] => exact .inr (.inr (.inl rfl))
      | n :: s =>
        by_cases hn : n = 0
        · subst hn
          exact .inr (.inr (.inr ⟨s, rfl⟩))
        · exact .inr (.inl ⟨.run n hn, s, rfl⟩)
    · exact .inr (.inl ⟨.literal b hb, s, rfl⟩)

/-! ### Reading tokens -/

/-- A token is read where there is room for what it stands for. -/
theorem decodeWithin_token (limit room : Nat) (t : Token) (s : Octets) :
    decodeWithin limit room (t.octets ++ s) =
      if t.expansion.length ≤ room then
        (decodeWithin limit (room - t.expansion.length) s).prepend t.expansion
      else ⟨[], some (.tooLong limit)⟩ := by
  cases t with
  | literal b hb =>
    rw [Token.octets, List.singleton_append, decodeWithin.eq_def]
    cases room <;> simp [hb, Token.expansion]
  | run n hn =>
    have hlength : (List.replicate n.toNat (0 : UInt8)).length = n.toNat := List.length_replicate
    rw [Token.octets, List.cons_append, List.singleton_append, decodeWithin.eq_def]
    simp only [if_true, if_neg hn, Token.expansion, hlength]
    by_cases hroom : room < n.toNat
    · rw [if_pos hroom, if_neg (Nat.not_le.2 hroom)]
    · rw [if_neg hroom, if_pos (Nat.le_of_not_lt hroom)]

/-- Tokens for which there is room are read to the end. -/
theorem decodeWithin_written (h : (expanded l).length ≤ room) :
    decodeWithin limit room (written l) = ⟨expanded l, none⟩ := by
  induction l generalizing room with
  | nil => rw [written_nil, decodeWithin.eq_def]; rfl
  | cons t l ih =>
    rw [expanded_cons, List.length_append] at h
    rw [written_cons, decodeWithin_token, if_pos (by omega), ih (by omega)]
    rfl

/-- Tokens for which there is no room are refused for that, and for nothing else. -/
theorem stopped_written (h : room < (expanded l).length) :
    (decodeWithin limit room (written l)).stopped = some (.tooLong limit) := by
  induction l generalizing room with
  | nil => exact absurd h (Nat.not_lt_zero _)
  | cons t l ih =>
    rw [expanded_cons, List.length_append] at h
    rw [written_cons, decodeWithin_token]
    by_cases hroom : t.expansion.length ≤ room
    · rw [if_pos hroom]
      exact ih (by omega)
    · rw [if_neg hroom]

/-- Why reading stops in front of the rest, with the given room left. -/
def Stops (limit room : Nat) (rest : Octets) : Option Error → Prop
  | none => rest = []
  | some .unfinishedRun => rest = [0]
  | some .emptyRun => ∃ s, rest = 0 :: 0 :: s
  | some (.tooLong n) => n = limit ∧ ∃ t s, rest = Token.octets t ++ s ∧ room < t.expansion.length

/-- The tokens are read from the octets, up to the rest. -/
structure Reads (limit room : Nat) (s : Octets) (l : List Token) (rest : Octets) : Prop where
  octets_eq : s = written l ++ rest
  fits : (expanded l).length ≤ room
  produced : (decodeWithin limit room s).octets = expanded l
  stops : Stops limit (room - (expanded l).length) rest (decodeWithin limit room s).stopped

/-- Nothing is read from octets that begin with no token for which there is room. -/
theorem reads_nil (stopped : Option Error) (h : decodeWithin limit room s = ⟨[], stopped⟩)
    (hstops : Stops limit room s stopped) : Reads limit room s [] s where
  octets_eq := rfl
  fits := Nat.zero_le _
  produced := by rw [h]; rfl
  stops := by rw [h]; exact hstops

/-- A token in front of what is read is read first. -/
theorem Reads.cons (h : Reads limit (room - t.expansion.length) s l rest)
    (hroom : t.expansion.length ≤ room) : Reads limit room (t.octets ++ s) (t :: l) rest := by
  have hlength : (expanded (t :: l)).length = t.expansion.length + (expanded l).length :=
    List.length_append
  have hread := decodeWithin_token limit room t s
  rw [if_pos hroom] at hread
  refine ⟨by rw [h.octets_eq, written_cons, List.append_assoc], ?_, ?_, ?_⟩
  · have hfits := h.fits
    omega
  · rw [hread, expanded_cons, ← h.produced]
    rfl
  · rw [hread, hlength, ← Nat.sub_sub]
    exact h.stops

/-- **Whatever octets are read, some tokens are read from them,** up to a rest that says why no more. -/
theorem exists_reads (limit room : Nat) (s : Octets) : ∃ l rest, Reads limit room s l rest := by
  -- a token has one octet or two, so the octets behind it are fewer but not always one fewer
  induction hn : s.length using Nat.strongRecOn generalizing s room with
  | ind n ih =>
    obtain rfl | ⟨t, s, rfl⟩ | rfl | ⟨s, rfl⟩ := exists_token s
    · exact ⟨[], [], reads_nil none (by rw [decodeWithin.eq_def]) rfl⟩
    · by_cases hroom : t.expansion.length ≤ room
      · have hpos := List.length_pos_iff.2 t.octets_ne_nil
        rw [List.length_append] at hn
        obtain ⟨l, rest, hreads⟩ := ih s.length (by omega) (room - t.expansion.length) s rfl
        exact ⟨t :: l, rest, hreads.cons hroom⟩
      · have hstop := decodeWithin_token limit room t s
        rw [if_neg hroom] at hstop
        exact ⟨[], _, reads_nil _ hstop ⟨rfl, t, s, rfl, Nat.lt_of_not_le hroom⟩⟩
    · exact ⟨[], [0], reads_nil (some .unfinishedRun) (by rw [decodeWithin.eq_def]; rfl) rfl⟩
    · exact ⟨[], _, reads_nil (some .emptyRun) (by rw [decodeWithin.eq_def]; rfl) ⟨s, rfl⟩⟩

/-- The octets begin with the tokens, for which there is room, and with no more that there is room
for. -/
structure Leads (room : Nat) (s : Octets) (l : List Token) : Prop where
  isPrefix : written l <+: s
  fits : (expanded l).length ≤ room
  longest : ∀ k, written k <+: s → (expanded k).length ≤ room → k <+: l

/-- Reading never stops in front of a token for which there is room. -/
theorem Stops.not_isPrefix {stopped : Option Error} (h : Stops limit room rest stopped)
    (hroom : t.expansion.length ≤ room) : ¬t.octets <+: rest := by
  rintro ⟨s, rfl⟩
  match stopped, h with
  | none, h => exact t.octets_ne_nil (List.append_eq_nil_iff.1 h).1
  | some .unfinishedRun, h =>
    cases t with
    | literal b hb => exact hb (List.cons.inj h).1
    | run n hn => cases (List.cons.inj h).2
  | some .emptyRun, ⟨s', h⟩ =>
    cases t with
    | literal b hb => exact hb (List.cons.inj h).1
    | run n hn => exact hn (List.cons.inj (List.cons.inj h).2).1
  | some (.tooLong _), ⟨_, u, s', h, hlong⟩ =>
    obtain ⟨rfl, -⟩ := Token.eq_of_octets_append h
    exact Nat.not_le.2 hlong hroom

/-- **The tokens that are read are as many as possible.** -/
theorem Reads.leads (h : Reads limit room s l rest) : Leads room s l := by
  obtain ⟨rfl, hfits, -, hstops⟩ := h
  refine ⟨List.prefix_append .., hfits, ?_⟩
  -- only what is left at the end matters from here on, not how reading got there
  generalize (decodeWithin limit room (written l ++ rest)).stopped = stopped at hstops
  induction l generalizing room with
  | nil =>
    rintro k hk hroom
    match k with
    | [] => exact List.nil_prefix
    | t :: k =>
      rw [expanded_cons, List.length_append] at hroom
      rw [written_cons] at hk
      exact absurd ((List.prefix_append ..).trans hk) (hstops.not_isPrefix (by simp; omega))
  | cons u l ih =>
    rintro k hk hroom
    match k with
    | [] => exact List.nil_prefix
    | t :: k =>
      obtain ⟨tail, htail⟩ := hk
      rw [written_cons, written_cons, List.append_assoc, List.append_assoc] at htail
      obtain ⟨rfl, hrest⟩ := Token.eq_of_octets_append htail
      rw [expanded_cons, List.length_append] at hfits hroom
      rw [expanded_cons, List.length_append, ← Nat.sub_sub] at hstops
      exact List.prefix_cons_inj .. |>.2 (ih (by omega) hstops k ⟨tail, hrest⟩ (by omega))

/-! ### Reading in place -/

/-- Reading up to a place that lies the room ahead is reading within that room. -/
theorem readUpTo_eq (start : Octets) :
    readUpTo limit (start.length + room) start s = (decodeWithin limit room s).prepend start := by
  induction room, s using decodeWithin.induct generalizing start with
  | case1 room => simp [readUpTo, decodeWithin, Expansion.prepend]
  | case2 room => simp [readUpTo, decodeWithin, Expansion.prepend]
  | case3 room s => simp [readUpTo, decodeWithin, Expansion.prepend]
  | case4 room n s hn hroom =>
    rw [readUpTo.eq_def, decodeWithin.eq_def]
    simp [hn, hroom, Expansion.prepend]
  | case5 room n s hn hroom ih =>
    have hplace : start.length + room =
        (start ++ List.replicate n.toNat 0).length + (room - n.toNat) := by
      rw [List.length_append, List.length_replicate]
      omega
    rw [readUpTo.eq_def, decodeWithin.eq_def]
    simp only [if_true, if_neg hn, if_neg hroom, Nat.add_lt_add_iff_left]
    rw [hplace, ih, prepend_prepend]
  | case6 b s hb =>
    rw [readUpTo.eq_def, decodeWithin.eq_def]
    simp [hb, Expansion.prepend]
  | case7 b s hb room ih =>
    have hplace : start.length + (room + 1) = (start ++ [b]).length + room := by
      rw [List.length_append, List.length_singleton]
      omega
    have hbefore : ¬start.length + (room + 1) ≤ start.length := by omega
    rw [readUpTo.eq_def, decodeWithin.eq_def]
    simp only [if_neg hb, if_neg hbefore]
    rw [hplace, ih, prepend_prepend]

/-- **Reading in place is reading apart and putting the result behind what is there.** -/
theorem read_eq_append (start : Octets) (limit : Nat) (s : Octets) :
    read start limit s = append start limit s := by
  rw [read, append]
  by_cases hplace : start.length + limit < UInt64.size
  · rw [within64, if_pos hplace]
    exact congrArg Except.ok (readUpTo_eq start)
  · rw [within64, if_neg hplace]
    rfl

/-! ### What a reader accepts -/

/-- **Reading ends without a complaint for tokens for which there is room, and for nothing else.** -/
theorem stopped_eq_none_iff :
    (decode limit s).stopped = none ↔ ∃ l, s = written l ∧ (expanded l).length ≤ limit := by
  refine ⟨fun h ↦ ?_, ?_⟩
  · obtain ⟨l, rest, hreads⟩ := exists_reads limit limit s
    have hrest := hreads.stops
    rw [show decodeWithin limit limit s = decode limit s from rfl, h] at hrest
    exact ⟨l, by rw [hreads.octets_eq, hrest, List.append_nil], hreads.fits⟩
  · rintro ⟨l, rfl, hfits⟩
    rw [decode, decodeWithin_written hfits]

/-- **What a reader accepts, and what it leaves behind.** Octets are accepted when they are tokens that
expand to no more than the limit, and then their expansion is all that is added to what is there; whether
or not they are accepted, the expansion of as many tokens as possible is. -/
theorem append_accepts (start : Octets) (limit : Nat) (h : start.length + limit < UInt64.size)
    (s : Octets) :
    ∃ e, append start limit s = .ok e ∧ read start limit s = .ok e ∧
      (e.stopped = none ↔ ∃ l, s = written l ∧ (expanded l).length ≤ limit) ∧
      (∀ l, s = written l → (expanded l).length ≤ limit → e = ⟨start ++ expanded l, none⟩) ∧
      (∃ l, Leads limit s l ∧ e.octets = start ++ expanded l) ∧
      start <+: e.octets ∧ e.octets.length ≤ start.length + limit := by
  have happend : append start limit s = .ok ((decode limit s).prepend start) := by
    rw [append, within64, if_pos h]
    rfl
  obtain ⟨l, rest, hreads⟩ := exists_reads limit limit s
  have hoctets : ((decode limit s).prepend start).octets = start ++ expanded l :=
    congrArg (start ++ ·) hreads.produced
  refine ⟨_, happend, (read_eq_append ..).trans happend, stopped_eq_none_iff, ?_,
    ⟨l, hreads.leads, hoctets⟩, List.prefix_append .., ?_⟩
  · rintro k rfl hfits
    rw [decode, decodeWithin_written hfits]
    rfl
  · rw [hoctets, List.length_append]
    exact Nat.add_le_add_left hreads.fits _

/-- The third token would be one zero too much, so the octet and the empty run behind it do not matter. -/
theorem append_accepts_two_tokens :
    append [1, 2] 4 [5, 0, 3, 0, 1, 7, 0, 0] = .ok ⟨[1, 2, 5, 0, 0, 0], some (.tooLong 4)⟩ ∧
      ¬∃ l, [5, 0, 3, 0, 1, 7, 0, 0] = written l ∧ (expanded l).length ≤ 4 := by
  obtain ⟨e, he, -, haccepts, -⟩ := append_accepts [1, 2] 4 (by decide)
    [5, 0, 3, 0, 1, 7, 0, 0]
  have hvalue : append [1, 2] 4 [5, 0, 3, 0, 1, 7, 0, 0] =
      .ok ⟨[1, 2, 5, 0, 0, 0], some (.tooLong 4)⟩ := by
    decide +kernel
  obtain rfl := Except.ok.inj (he.symm.trans hvalue)
  exact ⟨hvalue, fun hl ↦ by cases haccepts.2 hl⟩

end ZeroRuns

end DatagramCircuits
