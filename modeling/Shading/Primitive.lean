/- Primitives: a point, a line or a triangle, told by its corners. What is given
   per corner (weights, vertex indices, anchors) is a `Corners`, and a topology
   says how many of the three corners count. -/
namespace Shading

/-- The kind of program and of invocation. -/
inductive Stage where
  | fragment | vertex
  deriving DecidableEq, Repr

/-- A corner of a primitive. -/
inductive Corner where
  | first | second | third
  deriving DecidableEq, Repr

/-- The position of a corner. -/
def Corner.index : Corner → Nat
  | .first => 0
  | .second => 1
  | .third => 2

/-- Something for each corner. -/
structure Corners (α : Type) where
  first : α
  second : α
  third : α
  deriving DecidableEq, Repr

namespace Corners

variable {α : Type}

/-- What a corner holds. -/
def get (c : Corners α) : Corner → α
  | .first => c.first
  | .second => c.second
  | .third => c.third

/-- One corner replaced. -/
def set (c : Corners α) (k : Corner) (a : α) : Corners α :=
  match k with
  | .first => { c with first := a }
  | .second => { c with second := a }
  | .third => { c with third := a }

@[simp] theorem get_set (c : Corners α) (k j : Corner) (a : α) :
    (c.set k a).get j = if j = k then a else c.get j := by
  cases k <;> cases j <;> rfl

end Corners

/-- What a primitive is made of. -/
inductive Topology where
  | points | lines | triangles
  deriving DecidableEq, Repr

namespace Topology

/-- The corners that a primitive of the topology has. -/
def corners : Topology → List Corner
  | .points => [.first]
  | .lines => [.first, .second]
  | .triangles => [.first, .second, .third]

/-- How many corners there are. -/
def size (t : Topology) : Nat := t.corners.length

end Topology

end Shading
