import Shading.Error
import Shading.Mask
import Shading.Context

/- Attributes: a flat buffer of tuples of one to four floats, and the way a tuple
   is found for a corner of a primitive. `Attribute.read` reads the tuple of a
   vertex; the interpolation across a primitive is built on the same tuples. -/
namespace Shading

/-- How the tuples of a buffer are addressed. -/
inductive Addressing where
  /-- A tuple for each vertex of the vertex buffer. -/
  | perVertex
  /-- A tuple for each primitive. -/
  | perPrimitive
  /-- A tuple for each corner of each primitive, primitive after primitive. -/
  | perCorner
  deriving DecidableEq, Repr

/-- A flat buffer of tuples. -/
structure TupleBuffer where
  data : Array Float32
  components : Nat
  one_le_components : 1 ≤ components
  components_le_four : components ≤ 4

/-- The tuple at an index, if the buffer holds all of it. -/
def TupleBuffer.tuple? (b : TupleBuffer) (index : Nat) : Option Vec4 :=
  let start := index * b.components
  if start + b.components ≤ b.data.size then
    some (Vec4.ofList (b.data.extract start (start + b.components)).toList)
  else none

/-- A buffer with its addressing, and whether what is read is brought to length
one. -/
structure Attribute where
  buffer : TupleBuffer
  addressing : Addressing
  normalized : Bool

namespace Attribute

/-- An attribute over some data, refused unless its tuples have one to four
components. -/
def ofData (data : Array Float32) (components : Nat) (addressing : Addressing)
    (normalized : Bool) : Except ProgramError Attribute :=
  if h : 1 ≤ components ∧ components ≤ 4 then
    .ok ⟨⟨data, components, h.1, h.2⟩, addressing, normalized⟩
  else .error (.badComponentCount components)

/-- The lanes that the attribute fills. -/
def mask (a : Attribute) : Mask := Mask.first a.buffer.components

/-- The index of the tuple for a corner: `vertex` is its place in the vertex
buffer, `corner` its place in the primitive. -/
def index (a : Attribute) (topology : Topology) (primitive vertex corner : Nat) : Nat :=
  match a.addressing with
  | .perVertex => vertex
  | .perPrimitive => primitive
  | .perCorner => primitive * topology.size + corner

/-- A value as the attribute gives it out: brought to length one over at most
three lanes where that is asked for and there are two components or more. -/
def finish (a : Attribute) (v : Vec4) : Vec4 :=
  if a.normalized && decide (2 ≤ a.buffer.components) then
    v.normalize (min a.buffer.components 3)
  else v

/-- The attribute of a vertex, if the buffer reaches that far. -/
def read (a : Attribute) (v : Vertex) : Option Vec4 :=
  (a.buffer.tuple? (a.index v.topology v.primitive.toNat v.index.toNat v.corner.toNat)).map
    a.finish

end Attribute

end Shading
