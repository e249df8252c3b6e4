import Shading.Attribute.Interpolation
import Shading.Builtin
import Shading.Value

/- Invocations: what a program runs for, a fragment or a vertex. The class says how
   either answers to the built-in names, gives attributes and is given up; the
   machine knows no more of it. -/
namespace Shading

/-- Something that a program can run for. -/
class Invocation (ι : Type) where
  stage : Stage
  /-- The value of a built-in; those of the other stage read as zero. -/
  read : ι → Builtin → Value
  /-- Stores a value in a built-in; a read-only one stores nothing. -/
  store : ι → Builtin → Value → ι
  /-- Where reports place the invocation. -/
  position : ι → Float32 × Float32
  /-- An attribute across the primitive, with the anchor cache afterwards. -/
  interpolate : ι → Attribute → AnchorCache → Option Vec4 × AnchorCache
  /-- An attribute of the vertex. -/
  fetch : ι → Attribute → Option Vec4
  /-- The invocation given up. -/
  discard : ι → ι
  /-- Whether an invocation that ran to the end counts. -/
  isAccepted : ι → Bool

namespace Fragment

/-- The value of a built-in at a fragment. -/
def read (f : Fragment) : Builtin → Value
  | .rgbColor | .yuvColor => .vec f.color
  | .screenX => .float f.x
  | .screenY => .float f.y
  | .windowZ => .float f.z
  | .depth => .float f.depth
  | .denominator => .float f.denominator
  | .surfaceCoord =>
    .vec ⟨f.x / (max f.width 1).toFloat32, f.y / (max f.height 1).toFloat32, 0, 0⟩
  | .pixelCoord => .vec ⟨f.x, f.y, 0, 0⟩
  | .oddLine => .bool f.odd
  | .primitiveIndex => .int f.primitive.toInt32
  | .inputPosition | .outputPosition | .vertexIndex => default

/-- Stores a value in a built-in of a fragment. Writing a color decides its
model. -/
def store (f : Fragment) (b : Builtin) (value : Value) : Fragment :=
  match b with
  | .rgbColor => { f with color := value.toVec, output := .rgb }
  | .yuvColor => { f with color := value.toVec, output := .yuv }
  | .depth => { f with depth := value.toFloat }
  | _ => f

/-- The fragment without a color. -/
def discard (f : Fragment) : Fragment := { f with output := .invalid }

end Fragment

instance : Invocation Fragment where
  stage := .fragment
  read := Fragment.read
  store := Fragment.store
  position f := (f.x, f.y)
  interpolate f a cache := a.interpolate f cache
  fetch _ _ := none
  discard := Fragment.discard
  isAccepted := Fragment.isValid

namespace Vertex

/-- The value of a built-in at a vertex. -/
def read (v : Vertex) : Builtin → Value
  | .inputPosition => .vec v.input
  | .outputPosition => .vec v.output
  | .vertexIndex => .int v.index.toInt32
  | .primitiveIndex => .int v.primitive.toInt32
  | _ => default

/-- Stores a value in a built-in of a vertex. -/
def store (v : Vertex) (b : Builtin) (value : Value) : Vertex :=
  match b with
  | .outputPosition => { v with output := value.toVec }
  | _ => v

end Vertex

instance : Invocation Vertex where
  stage := .vertex
  read := Vertex.read
  store := Vertex.store
  position v := (v.input.x, v.input.y)
  interpolate _ _ cache := (none, cache)
  fetch v a := a.read v
  discard v := v
  isAccepted _ := true

end Shading
