import DatagramCircuits.Traffic.Lane
/-!
# One value per lane

A table with an entry for each of the seven lanes. Every lane has an entry, so `get` is total and
needs no bound, and two tables are equal when they agree on every lane.
-/

namespace DatagramCircuits

/-- A table with one entry per lane. -/
structure PerLane (α : Type) where
  resend : α
  land : α
  wind : α
  cloud : α
  task : α
  texture : α
  asset : α
deriving DecidableEq, Repr

namespace PerLane

variable {α β : Type}

/-- The entry of a lane. -/
def get (t : PerLane α) : Lane → α
  | .resend => t.resend
  | .land => t.land
  | .wind => t.wind
  | .cloud => t.cloud
  | .task => t.task
  | .texture => t.texture
  | .asset => t.asset

/-- The table whose entries are given by a function. -/
def ofFn (f : Lane → α) : PerLane α where
  resend := f .resend
  land := f .land
  wind := f .wind
  cloud := f .cloud
  task := f .task
  texture := f .texture
  asset := f .asset

/-- The table with one entry replaced. -/
def set (t : PerLane α) (lane : Lane) (a : α) : PerLane α :=
  match lane with
  | .resend => { t with resend := a }
  | .land => { t with land := a }
  | .wind => { t with wind := a }
  | .cloud => { t with cloud := a }
  | .task => { t with task := a }
  | .texture => { t with texture := a }
  | .asset => { t with asset := a }

/-- The table with one entry changed. -/
def modify (t : PerLane α) (lane : Lane) (f : α → α) : PerLane α :=
  t.set lane (f (t.get lane))

/-- The table with the same entry everywhere. -/
def replicate (a : α) : PerLane α :=
  ofFn fun _ ↦ a

/-- The table of the images. -/
def map (f : α → β) (t : PerLane α) : PerLane β :=
  ofFn fun lane ↦ f (t.get lane)

/-- The entries in order of priority. -/
def toList (t : PerLane α) : List α :=
  Lane.all.map t.get

/-- The table with the given entries in order of priority, if there are seven of them. -/
def ofList? : List α → Option (PerLane α)
  | [a, b, c, d, e, f, g] => some ⟨a, b, c, d, e, f, g⟩
  | _ => none

@[simp] theorem get_ofFn (f : Lane → α) (lane : Lane) : (ofFn f).get lane = f lane := by
  cases lane <;> rfl

@[simp] theorem get_replicate (a : α) (lane : Lane) : (replicate a).get lane = a := by
  simp [replicate]

@[simp] theorem get_map (f : α → β) (t : PerLane α) (lane : Lane) :
    (t.map f).get lane = f (t.get lane) := by
  simp [map]

theorem get_set (t : PerLane α) (k l : Lane) (a : α) :
    (t.set k a).get l = if k = l then a else t.get l := by
  cases k <;> cases l <;> rfl

@[simp] theorem get_set_self (t : PerLane α) (lane : Lane) (a : α) : (t.set lane a).get lane = a := by
  simp [get_set]

/-- Putting the entry of a lane where it is changes nothing. -/
@[simp] theorem set_get_self (t : PerLane α) (lane : Lane) : t.set lane (t.get lane) = t := by
  cases lane <;> rfl

@[simp] theorem set_set_self (t : PerLane α) (lane : Lane) (a b : α) :
    (t.set lane a).set lane b = t.set lane b := by
  cases lane <;> rfl

theorem get_modify (t : PerLane α) (k l : Lane) (f : α → α) :
    (t.modify k f).get l = if k = l then f (t.get l) else t.get l := by
  by_cases h : k = l <;> simp [modify, get_set, h]

@[ext] theorem ext {s t : PerLane α} (h : ∀ lane, s.get lane = t.get lane) : s = t := by
  have := h .resend; have := h .land; have := h .wind; have := h .cloud
  have := h .task; have := h .texture; have := h .asset
  cases s; cases t; simp_all [get]

@[simp] theorem ofList?_toList (t : PerLane α) : ofList? t.toList = some t := rfl

end PerLane

end DatagramCircuits
