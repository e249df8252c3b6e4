import Shading.Primitive
import Shading.Single
import Shading.Vector

/- What programs are run for. The rasterizer fills in a fragment, and a fragment
   program writes its color, the tag that says in which model the color is, and its
   depth. A vertex program writes the position that leaves its vertex, which starts
   as a copy of the one that comes in. -/
namespace Shading

/-- Whether a fragment has a color, and in which model. -/
inductive OutputTag where
  | invalid | rgb | yuv
  deriving DecidableEq, Repr

/-- One pixel of a primitive. -/
structure Fragment where
  /-- The position on the screen. -/
  x : Float32
  y : Float32
  /-- The depth in window space. -/
  z : Float32
  /-- The depth to store, which the program may replace. -/
  depth : Float32
  /-- The denominator of the perspective division. -/
  denominator : Float32
  /-- The perspective-corrected weights of the corners. -/
  weights : Corners Float32
  primitive : UInt32
  /-- The corners of the primitive in the vertex buffer. -/
  vertices : Corners UInt32
  topology : Topology
  /-- Whether the fragment lies on an odd line. -/
  odd : Bool
  color : Vec4
  output : OutputTag
  /-- The size of the target surface. -/
  width : UInt32
  height : UInt32
  deriving DecidableEq, Repr

namespace Fragment

/-- A fragment at a position, of the first triangle and weighted to its first
corner. It starts black, without an output tag. -/
def ofPosition (x y : Float32) : Fragment where
  x := x
  y := y
  z := 0
  depth := 0
  denominator := 1
  weights := ⟨1, 0, 0⟩
  primitive := 0
  vertices := ⟨0, 1, 2⟩
  topology := .triangles
  odd := Single.truncate y % 2 != 0
  color := ⟨0, 0, 0, 1⟩
  output := .invalid
  width := 1
  height := 1

/-- The fragment with the weights of its corners; the denominator is their sum
over the corners that the topology has. -/
def withWeights (f : Fragment) (w : Corners Float32) : Fragment :=
  { f with
    weights := w
    denominator := match f.topology with
      | .points => w.first
      | .lines => w.first + w.second
      | .triangles => w.first + w.second + w.third }

/-- The fragment as part of another primitive. -/
def withPrimitive (f : Fragment) (topology : Topology) (primitive : UInt32)
    (vertices : Corners UInt32) : Fragment :=
  { f with topology, primitive, vertices }

/-- The fragment on a surface of another size. -/
def withSurface (f : Fragment) (width height : UInt32) : Fragment := { f with width, height }

/-- Whether the fragment has a color. -/
def isValid (f : Fragment) : Bool := f.output != .invalid

/-- One lane of a color as a byte: held between zero and one, scaled and rounded,
a half going up. What is not a number is zero. -/
def quantize (s : Float32) : UInt8 :=
  if s.isNaN then 0
  else ((if s < 0 then 0 else if 1 < s then 1 else s) * 255).round.toUInt8

/-- The color as four bytes. -/
def bytes (f : Fragment) : List UInt8 := f.color.toList.map quantize

end Fragment

/-- One corner of one primitive. -/
structure Vertex where
  input : Vec4
  output : Vec4
  primitive : UInt32
  /-- The vertex in the vertex buffer. -/
  index : UInt32
  /-- The position of the vertex among the corners of its primitive. -/
  corner : UInt32
  topology : Topology
  deriving DecidableEq, Repr

namespace Vertex

/-- The first vertex of the first triangle, at a position. -/
def ofPosition (input : Vec4) : Vertex where
  input := input
  output := input
  primitive := 0
  index := 0
  corner := 0
  topology := .triangles

/-- The vertex in another place of the buffers. -/
def withIndex (v : Vertex) (primitive index corner : UInt32) : Vertex :=
  { v with primitive, index, corner }

end Vertex

end Shading
