/-!
# Lanes and categories

Traffic is divided into seven **lanes**, each with a queue and an allowance of its own. Their order
is their priority: `Lane.all` lists them from first to last served, and `Lane.index` is the position
in that list.

A **category** is what a message is sent under: one of the lanes, or none of them for the traffic of
the protocol itself, which is never queued and never throttled. Categories have a number on the
interface, 0 to 6 for the lanes and 7 for the rest.
-/

namespace DatagramCircuits

/-- One of the seven classes of throttled traffic, in order of priority. -/
inductive Lane where
  | resend
  | land
  | wind
  | cloud
  | task
  | texture
  | asset
deriving DecidableEq, Repr

namespace Lane

/-- The lanes in order of priority. -/
def all : List Lane :=
  [resend, land, wind, cloud, task, texture, asset]

/-- The lanes that carry new traffic only, in order of priority. -/
def ordinary : List Lane :=
  [land, wind, cloud, task, texture, asset]

/-- The position in the order of priority. -/
def index : Lane → Nat
  | resend => 0
  | land => 1
  | wind => 2
  | cloud => 3
  | task => 4
  | texture => 5
  | asset => 6

/-- The name of the lane in texts. -/
def name : Lane → String
  | resend => "Resend"
  | land => "Land"
  | wind => "Wind"
  | cloud => "Cloud"
  | task => "Task"
  | texture => "Texture"
  | asset => "Asset"

/-- The lowest rate, in octets per second, that a lane can be given. Lanes that carry full-size
datagrams get roughly one of them per second. -/
def floor : Lane → Nat
  | land | wind | cloud => 50
  | resend | task | texture | asset => 1000

/-- The sum of all floors. -/
def floorTotal : Nat :=
  (all.map floor).foldl (· + ·) 0

theorem mem_all (l : Lane) : l ∈ all := by
  cases l <;> decide

theorem all_eq_cons : all = resend :: ordinary := rfl

@[simp] theorem floorTotal_eq : floorTotal = 4150 := rfl

theorem index_injective {k l : Lane} (h : k.index = l.index) : k = l := by
  cases k <;> cases l <;> simp_all [index]

end Lane

/-- What a message is sent under: a lane, or none of them. -/
inductive Category where
  /-- Traffic that is queued and throttled in a lane. -/
  | throttled (lane : Lane)
  /-- Acknowledgements, pings and other traffic of the protocol itself. -/
  | unthrottled
deriving DecidableEq, Repr

namespace Category

/-- All categories, in the order of their numbers. -/
def all : List Category :=
  Lane.all.map throttled ++ [unthrottled]

/-- The number of the category. -/
def number : Category → Nat
  | throttled lane => lane.index
  | unthrottled => 7

/-- The name of the category in texts. -/
def name : Category → String
  | throttled lane => lane.name
  | unthrottled => "Unknown"

/-- The lowest rate of the category, in octets per second; there is none without a lane. -/
def floor : Category → Nat
  | throttled lane => lane.floor
  | unthrottled => 0

/-- Whether the category has a queue and an allowance. -/
def isThrottled : Category → Bool
  | throttled _ => true
  | unthrottled => false

/-- The category with the given number. -/
def ofNumber? (n : Nat) : Option Category :=
  all.find? (·.number == n)

theorem ofNumber?_number (c : Category) : ofNumber? c.number = some c := by
  cases c with
  | throttled l => cases l <;> rfl
  | unthrottled => rfl

end Category

end DatagramCircuits
