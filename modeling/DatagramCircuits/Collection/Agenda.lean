import DatagramCircuits.Span
/-!
# Agendas

Things that are to happen at known instants. They come up in order of time, and those of the same
instant in the order in which they were entered, however long before.
-/

namespace DatagramCircuits

/-- Things to happen, with their instants, in the order in which they were entered. -/
abbrev Agenda (α : Type) := List (Instant × α)

namespace Agenda

variable {α : Type}

/-- Enters a thing. -/
def enter (time : Instant) (a : α) (g : Agenda α) : Agenda α :=
  g ++ [(time, a)]

/-- The first instant before the given one at which something comes up. -/
def nextTime? (before : Instant) (g : Agenda α) : Option Instant :=
  ((g.map Prod.fst).filter (· < before)).min?

/-- The things that come up at the given instant at the latest, and the agenda without them. -/
def due (now : Instant) (g : Agenda α) : List α × Agenda α :=
  ((g.filter (·.1 ≤ now)).map Prod.snd, g.filter (now < ·.1))

theorem lt_of_nextTime? {before time : Instant} {g : Agenda α} (h : nextTime? before g = some time) :
    time < before := by
  have := List.min?_mem h
  simp only [List.mem_filter, decide_eq_true_eq] at this
  exact this.2

theorem exists_of_nextTime? {before time : Instant} {g : Agenda α}
    (h : nextTime? before g = some time) : ∃ a, (time, a) ∈ g := by
  have := List.min?_mem h
  simp only [List.mem_filter, List.mem_map, Prod.exists, exists_and_right, exists_eq_right] at this
  exact this.1

theorem length_due (now : Instant) (g : Agenda α) :
    (due now g).1.length + (due now g).2.length = g.length := by
  induction g with
  | nil => rfl
  | cons e g ih =>
    simp only [due, List.length_map] at ih ⊢
    rcases Nat.lt_or_ge now e.1 with h | h
    · simpa [h, Nat.not_le.2 h, ← Nat.add_assoc] using ih
    · simp [h, Nat.not_lt.2 h]
      omega

theorem mem_due {now : Instant} {a : α} {g : Agenda α} :
    a ∈ (due now g).1 ↔ ∃ time ≤ now, (time, a) ∈ g := by
  simp only [due, List.mem_map, List.mem_filter, decide_eq_true_eq, Prod.exists, exists_eq_right]
  exact exists_congr fun time ↦ And.comm

theorem mem_due_rest {now : Instant} {e : Instant × α} {g : Agenda α} :
    e ∈ (due now g).2 ↔ e ∈ g ∧ now < e.1 := by
  simp [due]

end Agenda

end DatagramCircuits
