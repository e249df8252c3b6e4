import Shading.Mask
import Shading.Primitive

/- Built-in names: the fields of a fragment or a vertex that programs can name. -/
namespace Shading

/-- A field of the invocation that a program can name. -/
inductive Builtin where
  /-- The color, written in the RGB model. -/
  | rgbColor
  /-- The color, written in the YUV model. -/
  | yuvColor
  | screenX
  | screenY
  | windowZ
  | depth
  /-- The denominator of the perspective division. -/
  | denominator
  /-- The screen position relative to the surface. -/
  | surfaceCoord
  /-- The screen position in pixels. -/
  | pixelCoord
  | oddLine
  | primitiveIndex
  /-- The position that comes in. -/
  | inputPosition
  /-- The position that leaves. -/
  | outputPosition
  | vertexIndex
  deriving DecidableEq, Repr

namespace Builtin

/-- The built-in that a name stands for. -/
def ofName? : String → Option Builtin
  | "fragColor" | "fragRGBA" => some .rgbColor
  | "fragYUVA" => some .yuvColor
  | "fragX" => some .screenX
  | "fragY" => some .screenY
  | "fragZ" => some .windowZ
  | "fragDepth" => some .depth
  | "fragW" => some .denominator
  | "txCoord" => some .surfaceCoord
  | "txCoordi" => some .pixelCoord
  | "fragOdd" => some .oddLine
  | "primIdx" => some .primitiveIndex
  | "vertex" => some .inputPosition
  | "vertexOut" => some .outputPosition
  | "vertexIdx" => some .vertexIndex
  | _ => none

/-- The stage that the built-in belongs to; one is shared. -/
def stage? : Builtin → Option Stage
  | .primitiveIndex => none
  | .inputPosition | .outputPosition | .vertexIndex => some .vertex
  | _ => some .fragment

/-- Whether programs of a stage may name the built-in. -/
def isOf (b : Builtin) (stage : Stage) : Bool := b.stage?.all (· == stage)

/-- Whether programs may write the built-in. -/
def isWritable : Builtin → Bool
  | .rgbColor | .yuvColor | .depth | .outputPosition => true
  | _ => false

/-- Whether the built-in is a vector. -/
def isVector : Builtin → Bool
  | .rgbColor | .yuvColor | .surfaceCoord | .pixelCoord | .inputPosition | .outputPosition => true
  | _ => false

/-- The lanes that a built-in shows when it is read without a swizzle. -/
def lanes : Builtin → Mask
  | .surfaceCoord | .pixelCoord => Mask.xy
  | _ => Mask.xyzq

end Builtin

end Shading
