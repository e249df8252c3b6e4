/- Vectors of four floats. The lanes are named `x`, `y`, `z` and `q`, and a lane
   is a type of its own, so reading or setting one never falls outside. A
   vector is told by its lanes: `Vec4.ofLanes` builds one from what each lane
   holds, and every lane-wise operation is stated through it. -/
namespace Shading

/-- One of the four lanes of a vector. -/
inductive Lane where
  | x | y | z | q
  deriving DecidableEq, Repr

namespace Lane

/-- The lanes in ascending order. -/
def all : List Lane := [.x, .y, .z, .q]

/-- The position of a lane in ascending order. -/
def index : Lane → Nat
  | .x => 0
  | .y => 1
  | .z => 2
  | .q => 3

/-- The lane at a position, of which there are four. -/
def ofIndex? : Nat → Option Lane
  | 0 => some .x
  | 1 => some .y
  | 2 => some .z
  | 3 => some .q
  | _ => none

theorem index_lt (l : Lane) : l.index < 4 := by cases l <;> decide

@[simp] theorem ofIndex?_index (l : Lane) : ofIndex? l.index = some l := by cases l <;> rfl

@[simp] theorem mem_all (l : Lane) : l ∈ all := by cases l <;> simp [all]

end Lane

/-- Four floats. -/
structure Vec4 where
  x : Float32
  y : Float32
  z : Float32
  q : Float32
  deriving DecidableEq, Repr

namespace Vec4

/-- The float in a lane. -/
def get (v : Vec4) : Lane → Float32
  | .x => v.x
  | .y => v.y
  | .z => v.z
  | .q => v.q

/-- The vector that holds `f l` in lane `l`. -/
def ofLanes (f : Lane → Float32) : Vec4 := ⟨f .x, f .y, f .z, f .q⟩

@[simp] theorem get_ofLanes (f : Lane → Float32) (l : Lane) : (ofLanes f).get l = f l := by
  cases l <;> rfl

@[simp] theorem ofLanes_get (v : Vec4) : ofLanes v.get = v := rfl

/-- Vectors with the same lanes are equal. -/
theorem ext_get {v w : Vec4} (h : ∀ l, v.get l = w.get l) : v = w := by
  rw [← ofLanes_get v, ← ofLanes_get w, funext h]

/-- The vector with one lane replaced. -/
def set (v : Vec4) (l : Lane) (s : Float32) : Vec4 :=
  ofLanes fun k => if k = l then s else v.get k

/-- Whether two vectors agree as numbers, lane by lane: zeros of both signs agree,
and what is not a number agrees with nothing. -/
def agrees (v w : Vec4) : Bool := Lane.all.all fun l => v.get l == w.get l

/-- The same float in every lane. -/
def splat (s : Float32) : Vec4 := ofLanes fun _ => s

/-- The zero vector. -/
def zero : Vec4 := splat 0

instance : Inhabited Vec4 := ⟨zero⟩

/-- The first four floats of a list, missing ones being zero. -/
def ofList (values : List Float32) : Vec4 :=
  ofLanes fun l => values[l.index]?.getD 0

/-- The lanes in ascending order. -/
def toList (v : Vec4) : List Float32 := Lane.all.map v.get

/-- A function applied to every lane. -/
def map (f : Float32 → Float32) (v : Vec4) : Vec4 := ofLanes fun l => f (v.get l)

/-- A function applied to the lanes of two vectors. -/
def zipWith (f : Float32 → Float32 → Float32) (v w : Vec4) : Vec4 :=
  ofLanes fun l => f (v.get l) (w.get l)

/-- The inner product of the first three lanes, added from the left. -/
def dot3 (v w : Vec4) : Float32 := v.x * w.x + v.y * w.y + v.z * w.z

/-- The length of the first three lanes. -/
def length3 (v : Vec4) : Float32 := (v.dot3 v).sqrt

/-- The cross product of the first three lanes; the last lane is kept. -/
def cross3 (v w : Vec4) : Vec4 :=
  ⟨v.y * w.z - v.z * w.y, v.z * w.x - v.x * w.z, v.x * w.y - v.y * w.x, v.q⟩

/-- The length of the lanes before position `n`, squares added from the left. -/
def lengthOf (v : Vec4) (n : Nat) : Float32 :=
  ((Lane.all.take n).foldl (fun sum l => sum + v.get l * v.get l) 0).sqrt

/-- The first lanes (at least one, at most three) scaled to length one. A vector
without length, or of one that is not finite, is left as it is. -/
def normalize (v : Vec4) (n : Nat) : Vec4 :=
  let n := max 1 (min n 3)
  let length := v.lengthOf n
  if 0 < length ∧ length.isFinite then
    ofLanes fun l => if l.index < n then v.get l / length else v.get l
  else v

end Vec4

end Shading
