import DatagramCircuits.Circuit.Operation
import DatagramCircuits.Traffic.Operation
/-!
# A circuit among others

A circuit draws from a forest that it shares with other circuits. Its history is told here together
with what all others do with the buckets meanwhile: `Circuit.coexist` does one thing after another,
each with the forest that comes of the one before.

**Such a history ends where a fault would be,** as a history of the circuit alone does. Only what is done
with the circuit itself can meet one.
-/

namespace DatagramCircuits

namespace Circuit

/-- Something that happens to a circuit or beside it. -/
inductive Happening where
  /-- Something is done with the circuit. -/
  | own (o : Operation)
  /-- Something is done with the buckets, by somebody else. -/
  | foreign (o : Forest.Operation)
deriving DecidableEq, Repr

/-- What is done with the circuit, if it is that. -/
def Happening.own? : Happening → Option Operation
  | own o => some o
  | foreign _ => none

/-- One thing happens. Nobody answers for what others do. -/
def meet (c : Circuit) (f : Forest) :
    Happening → Except Fault (Option Answer × Circuit × Forest)
  | .own o => do
    let (answer, c, f) ← c.apply o f
    return (some answer, c, f)
  | .foreign o => .ok (none, c, f.apply o)

/-- One thing happens after another. The answers are those of the circuit, in order. -/
def coexist : List Happening → Circuit → Forest → Except Fault (List Answer × Circuit × Forest)
  | [], c, f => .ok ([], c, f)
  | e :: rest, c, f => do
    let (answer, c, f) ← c.meet f e
    let (answers, c, f) ← coexist rest c f
    return (answer.toList ++ answers, c, f)

/-- What is done with the circuit, in order. -/
def owns (l : List Happening) : List Operation :=
  l.filterMap Happening.own?

theorem coexist_cons_eq_ok {e : Happening} {rest : List Happening} {c c' : Circuit} {f f' : Forest}
    {answers : List Answer} (h : coexist (e :: rest) c f = .ok (answers, c', f')) :
    ∃ answer next forest answers', c.meet f e = .ok (answer, next, forest) ∧
      coexist rest next forest = .ok (answers', c', f') ∧ answers = answer.toList ++ answers' := by
  obtain ⟨⟨answer, next, forest⟩, he, h⟩ := bind_eq_ok_iff.1 h
  obtain ⟨⟨answers', last, forest'⟩, hrest, h⟩ := bind_eq_ok_iff.1 h
  cases h
  exact ⟨answer, next, forest, answers', he, hrest, rfl⟩

/-- What happens is done with the circuit, or by somebody else. -/
theorem meet_eq_ok {e : Happening} {c c' : Circuit} {f f' : Forest} {answer : Option Answer}
    (h : c.meet f e = .ok (answer, c', f')) :
    (∃ o a, e = .own o ∧ answer = some a ∧ c.apply o f = .ok (a, c', f')) ∨
      ∃ o, e = .foreign o ∧ answer = none ∧ c' = c ∧ f' = f.apply o := by
  cases e with
  | own o =>
    obtain ⟨⟨a, next, forest⟩, ho, h⟩ := bind_eq_ok_iff.1 h
    cases h
    exact .inl ⟨o, a, rfl, rfl, ho⟩
  | foreign o =>
    cases h
    exact .inr ⟨o, rfl, rfl, rfl, rfl⟩

theorem coexist_foreign (o : Forest.Operation) (l : List Happening) (c : Circuit) (f : Forest) :
    coexist (.foreign o :: l) c f = coexist l c (f.apply o) := by
  rw [coexist, meet]
  cases h : coexist l c (f.apply o) <;> simp [h, bind, Except.bind, pure, Except.pure]

theorem coexist_own {o : Operation} {c c' : Circuit} {f f' : Forest} {answer : Answer}
    (h : c.apply o f = .ok (answer, c', f')) (l : List Happening) :
    coexist (.own o :: l) c f = (coexist l c' f').map fun r ↦ (answer :: r.1, r.2) := by
  rw [coexist, meet, h]
  cases hl : coexist l c' f' <;> simp [hl, bind, Except.bind, pure, Except.pure, Except.map]

theorem coexist_own_error {o : Operation} {c : Circuit} {f : Forest} {fault : Fault}
    (h : c.apply o f = .error fault) (l : List Happening) :
    coexist (.own o :: l) c f = .error fault := by
  rw [coexist, meet, h]
  rfl

end Circuit

end DatagramCircuits
