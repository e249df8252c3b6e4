import Shading.Attribute.Basic
import Shading.Color

/- Resources that a host hands to a program: textures, matrices and attributes.
   The usual matrices have four columns and are applied to column vectors. A
   resource is one object with an identity of its own, so it comes as a `Handle`,
   and a program keeps each handle once, under the number of its first use. -/
namespace Shading

/-- A texture is whatever the host answers at a position. -/
structure Texture where
  sample : Float32 → Float32 → ColorModel → Vec4

/-- A texture of one color. -/
def Texture.solid (color : Vec4) : Texture := ⟨fun _ _ _ => color⟩

/-- A matrix, as a resource, is whatever it does to a vector. -/
structure Transform where
  apply : Vec4 → Vec4

/-- A matrix by its columns. -/
structure Matrix4 where
  x : Vec4
  y : Vec4
  z : Vec4
  q : Vec4
  deriving DecidableEq, Repr

namespace Matrix4

/-- The matrix that changes nothing. -/
def identity : Matrix4 := ⟨⟨1, 0, 0, 0⟩, ⟨0, 1, 0, 0⟩, ⟨0, 0, 1, 0⟩, ⟨0, 0, 0, 1⟩⟩

/-- The matrix that moves points. -/
def translation (x y z : Float32) : Matrix4 := { identity with q := ⟨x, y, z, 1⟩ }

/-- The matrix that stretches the axes. -/
def scale (x y z : Float32) : Matrix4 :=
  { identity with x := ⟨x, 0, 0, 0⟩, y := ⟨0, y, 0, 0⟩, z := ⟨0, 0, z, 0⟩ }

/-- The matrix times a vector: in each lane the products are added from the left. -/
def apply (m : Matrix4) (v : Vec4) : Vec4 :=
  Vec4.ofLanes fun l => m.x.get l * v.x + m.y.get l * v.y + m.z.get l * v.z + m.q.get l * v.q

/-- The entries, column after column. -/
def toList (m : Matrix4) : List Float32 := m.x.toList ++ m.y.toList ++ m.z.toList ++ m.q.toList

end Matrix4

/-- A resource together with what tells it from every other. -/
structure Handle (α : Type) where
  key : Nat
  resource : α

namespace Handle

variable {α : Type}

/-- The number of a handle in a table of handles. -/
def find? (table : Array (Handle α)) (h : Handle α) : Option Nat :=
  table.findIdx? fun other => other.key == h.key

end Handle

end Shading
