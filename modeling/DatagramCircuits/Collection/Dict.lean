/-!
# Dictionaries in order of insertion

A dictionary is a list of pairs of a key and a value, and looking up finds the first pair with the
key. Insertion replaces the value of a key that is there, in its place, and puts a new key at the
end, so no key occurs twice in a dictionary built by these operations and iteration follows the order
of insertion. Dictionaries are values: one that is kept is not affected by what happens to another.
-/

namespace DatagramCircuits

/-- A dictionary in order of insertion. -/
structure Dict (κ ν : Type) where
  /-- The pairs. -/
  entries : List (κ × ν) := []
deriving DecidableEq, Repr

namespace Dict

variable {κ ν : Type} [DecidableEq κ]

/-- The dictionary without keys. -/
def empty : Dict κ ν where
  entries := []

/-- The value of a key. -/
def get? (d : Dict κ ν) (k : κ) : Option ν :=
  (d.entries.find? (·.1 = k)).map Prod.snd

/-- Whether there is a value for the key. -/
def contains (d : Dict κ ν) (k : κ) : Bool :=
  (d.get? k).isSome

/-- The values, in order of insertion of their keys. -/
def values (d : Dict κ ν) : List ν :=
  d.entries.map Prod.snd

/-- The number of keys. -/
def size (d : Dict κ ν) : Nat :=
  d.entries.length

/-- Whether there is no key. -/
def isEmpty (d : Dict κ ν) : Bool :=
  d.entries.isEmpty

/-- Pairs with the value of a key replaced, or put at the end. -/
def insertInto (k : κ) (v : ν) : List (κ × ν) → List (κ × ν)
  | [] => [(k, v)]
  | (k', v') :: l => if k' = k then (k, v) :: l else (k', v') :: insertInto k v l

/-- The dictionary with a value for a key. -/
def insert (d : Dict κ ν) (k : κ) (v : ν) : Dict κ ν where
  entries := insertInto k v d.entries

/-- The dictionary without a key. -/
def erase (d : Dict κ ν) (k : κ) : Dict κ ν where
  entries := d.entries.filter (·.1 ≠ k)

/-- The dictionary with a value put in or taken out for a key. -/
def put (d : Dict κ ν) (k : κ) : Option ν → Dict κ ν
  | some v => d.insert k v
  | none => d.erase k

@[simp] theorem get?_empty (k : κ) : (empty : Dict κ ν).get? k = none := rfl

theorem get?_insert (d : Dict κ ν) (k k' : κ) (v : ν) :
    (d.insert k v).get? k' = if k = k' then some v else d.get? k' := by
  obtain ⟨l⟩ := d
  simp only [get?, insert]
  induction l with
  | nil => by_cases h : k = k' <;> simp [insertInto, h]
  | cons e l ih =>
    obtain ⟨k₀, v₀⟩ := e
    by_cases h₀ : k₀ = k
    · subst h₀
      by_cases h : k₀ = k' <;> simp [insertInto, h]
    · by_cases h : k₀ = k'
      · subst h
        simp [insertInto, h₀, Ne.symm h₀]
      · simpa [insertInto, h₀, h] using ih

theorem get?_erase (d : Dict κ ν) (k k' : κ) :
    (d.erase k).get? k' = if k = k' then none else d.get? k' := by
  obtain ⟨l⟩ := d
  simp only [get?, erase]
  induction l with
  | nil => simp
  | cons e l ih =>
    obtain ⟨k₀, v₀⟩ := e
    by_cases h₀ : k₀ = k
    · subst h₀
      by_cases h : k₀ = k' <;> simp_all
    · by_cases h : k₀ = k'
      · subst h
        simp [h₀, Ne.symm h₀]
      · simp_all

end Dict

end DatagramCircuits
