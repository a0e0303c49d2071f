import Mathlib.Data.List.Basic
/-!
# Chains of recorded steps

A step takes a state to another one and is recorded by a list of entries, possibly an empty one. A
**chain** is any number of steps, recorded by what their records make in a row. Two principles are
all that statements about chains rest on: what one step preserves, a chain preserves
(`Chain.preserves`), and each entry in the record of a chain was made by one step from a state on
the way (`Chain.exists_step`).
-/

namespace DatagramCircuits

variable {σ ε : Type} {R S : σ → List ε → σ → Prop}

/-- An entry of two records in a row is one of the second record or one of the first. -/
theorem append_eq_append_cons {k k' before after : List ε} {e : ε}
    (h : k ++ k' = before ++ e :: after) :
    (∃ middle, before = k ++ middle ∧ k' = middle ++ e :: after) ∨
      ∃ rest, k = before ++ e :: rest := by
  rcases List.append_eq_append_iff.1 h with ⟨middle, hbefore, hk'⟩ | ⟨rest, hk, hrest⟩
  · exact .inl ⟨middle, hbefore, hk'⟩
  · cases rest with
    | nil => exact .inl ⟨[], by simpa using hk.symm, by simpa using hrest.symm⟩
    | cons f rest =>
      obtain ⟨rfl, -⟩ := List.cons_eq_cons.1 hrest
      exact .inr ⟨rest, hk⟩

/-- Any number of steps, with their records in a row. -/
inductive Chain (R : σ → List ε → σ → Prop) (s : σ) : List ε → σ → Prop
  /-- No step. -/
  | refl : Chain R s [] s
  /-- One step more. -/
  | tail {l k : List ε} {t u : σ} : Chain R s l t → R t k u → Chain R s (l ++ k) u

namespace Chain

theorem single {s t : σ} {k : List ε} (h : R s k t) : Chain R s k t :=
  (List.nil_append k) ▸ refl.tail h

theorem trans {s t u : σ} {l k : List ε} (h₁ : Chain R s l t) (h₂ : Chain R t k u) :
    Chain R s (l ++ k) u := by
  induction h₂ with
  | refl => simpa using h₁
  | tail _ hstep ih => simpa using ih.tail hstep

theorem mono (hRS : ∀ {s k t}, R s k t → S s k t) {s t : σ} {l : List ε} (h : Chain R s l t) :
    Chain S s l t := by
  induction h with
  | refl => exact refl
  | tail _ hstep ih => exact ih.tail (hRS hstep)

/-- **What a step preserves, a chain preserves.** The property may speak about the whole record, to
which a step adds its own. -/
theorem preserves {motive : List ε → σ → Prop} {s t : σ} {k l : List ε} (h : Chain R s l t)
    (hstart : motive k s)
    (hstep : ∀ {l k : List ε} {s t : σ}, motive l s → R s k t → motive (l ++ k) t) :
    motive (k ++ l) t := by
  induction h with
  | refl => simpa using hstart
  | tail _ hlast ih =>
    rw [← List.append_assoc]
    exact hstep ih hlast

/-- **An entry comes from a step.** What stands before it was recorded on the way to that step, or
earlier in the step. -/
theorem exists_step {s t : σ} {l before after : List ε} {e : ε} (h : Chain R s l t)
    (hl : l = before ++ e :: after) :
    ∃ l' k₁ k₂ u v, Chain R s l' u ∧ R u (k₁ ++ e :: k₂) v ∧ before = l' ++ k₁ := by
  induction h generalizing after with
  | refl => simp at hl
  | @tail l' k u v hchain hstep ih =>
    rcases append_eq_append_cons hl with ⟨k₁, hbefore, rfl⟩ | ⟨rest, hl'⟩
    · exact ⟨l', k₁, after, u, v, hchain, hstep, hbefore⟩
    · exact ih hl'

end Chain

end DatagramCircuits
