import Shading.Vector

/- Swizzle masks: which lanes of a vector an operand reads or writes. A mask is a
   set of lanes, read in ascending order however it was written, and a lane in
   it has a rank: the number of smaller lanes in the mask.

   `Mask.parse?` reads the letters of a swizzle. Three families of letters name
   the lanes (`xyzq` with `w` for `q`, `rgba`, `stp`) and may be mixed, but no
   lane may be named twice. -/
namespace Shading

/-- A set of lanes. -/
structure Mask where
  x : Bool
  y : Bool
  z : Bool
  q : Bool
  deriving DecidableEq, Repr

namespace Mask

/-- Whether a lane is in the mask. -/
def has (m : Mask) : Lane → Bool
  | .x => m.x
  | .y => m.y
  | .z => m.z
  | .q => m.q

/-- The mask of the lanes that satisfy a test. -/
def ofLanes (f : Lane → Bool) : Mask := ⟨f .x, f .y, f .z, f .q⟩

@[simp] theorem has_ofLanes (f : Lane → Bool) (l : Lane) : (ofLanes f).has l = f l := by
  cases l <;> rfl

/-- Masks with the same lanes are equal. -/
theorem ext_has {m n : Mask} (h : ∀ l, m.has l = n.has l) : m = n := by
  have : ofLanes m.has = ofLanes n.has := by rw [funext h]
  exact this

/-- No lane. -/
def empty : Mask := ofLanes fun _ => false

/-- The first `n` lanes, at most four. -/
def first (n : Nat) : Mask := ofLanes fun l => l.index < n

/-- Lanes `x` and `y`. -/
def xy : Mask := first 2

/-- The three lanes of a color or a direction. -/
def xyz : Mask := first 3

/-- Every lane. -/
def xyzq : Mask := first 4

/-- The mask with a lane added. -/
def insert (m : Mask) (l : Lane) : Mask := ofLanes fun k => k = l || m.has k

/-- The lanes that two masks share. -/
def inter (m n : Mask) : Mask := ofLanes fun l => m.has l && n.has l

/-- The lanes of the mask in ascending order. -/
def lanes (m : Mask) : List Lane := Lane.all.filter m.has

@[simp] theorem mem_lanes {m : Mask} {l : Lane} : l ∈ m.lanes ↔ m.has l = true := by
  simp [lanes]

/-- How many lanes the mask has. -/
def count (m : Mask) : Nat := m.lanes.length

theorem count_le (m : Mask) : m.count ≤ 4 := List.length_filter_le ..

/-- Whether every lane is in the mask. -/
def isFull (m : Mask) : Bool := m == xyzq

/-- How many smaller lanes the mask has. -/
def rank (m : Mask) (l : Lane) : Nat := (Lane.all.take l.index).countP m.has

/-- The mask as a number: lane `l` is the bit of weight `2 ^ l.index`. -/
def bits (m : Mask) : Nat := m.lanes.foldl (fun n l => n ||| 1 <<< l.index) 0

/-- The lane that a swizzle letter names. -/
def laneOfLetter? : Char → Option Lane
  | 'x' | 'r' | 's' => some .x
  | 'y' | 'g' | 't' => some .y
  | 'z' | 'b' | 'p' => some .z
  | 'q' | 'w' | 'a' => some .q
  | _ => none

/-- The mask with the lanes of some letters added, if each letter names a lane
that is not there yet. -/
def insertLetters? (m : Mask) : List Char → Option Mask
  | [] => some m
  | c :: rest =>
    match laneOfLetter? c with
    | none => none
    | some l => if m.has l then none else (m.insert l).insertLetters? rest

/-- Reads a swizzle: at least one letter, each naming another lane. There are
four lanes, so no swizzle is longer than four letters. -/
def ofLetters? : List Char → Option Mask
  | [] => none
  | letters => empty.insertLetters? letters

/-- Reads the text of a swizzle. -/
def parse? (text : String) : Option Mask := ofLetters? text.toList

end Mask

end Shading
