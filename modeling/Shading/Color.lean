import Shading.Vector

/- Color models and the passage between them. A color transform is any pair of
   functions on vectors; the usual ones are affine in the first three lanes and
   are given by a `ColorMatrix`, of which the two broadcast standards are
   named. -/
namespace Shading

/-- The color model of a texture read or of a fragment's output. -/
inductive ColorModel where
  | rgb | yuv
  deriving DecidableEq, Repr

/-- The two conversions of a color space. -/
structure ColorTransform where
  toYuv : Vec4 → Vec4
  toRgb : Vec4 → Vec4

/-- The conversion into a color model. -/
def ColorTransform.convert (t : ColorTransform) : ColorModel → Vec4 → Vec4
  | .yuv => t.toYuv
  | .rgb => t.toRgb

/-- Three rows of an affine map: the coefficients of the first three lanes, and
the offset in the last lane of the row. -/
structure AffineRows where
  x : Vec4
  y : Vec4
  z : Vec4

namespace AffineRows

/-- One row applied to a vector, added from the left. -/
def applyRow (row v : Vec4) : Float32 := row.x * v.x + row.y * v.y + row.z * v.z + row.q

/-- The map applied to the first three lanes; the last lane is kept. -/
def apply (rows : AffineRows) (v : Vec4) : Vec4 :=
  ⟨applyRow rows.x v, applyRow rows.y v, applyRow rows.z v, v.q⟩

end AffineRows

/-- A color transform given by two affine maps. -/
structure ColorMatrix where
  toYuv : AffineRows
  toRgb : AffineRows

namespace ColorMatrix

/-- The conversions that the matrices give. -/
def transform (m : ColorMatrix) : ColorTransform := ⟨m.toYuv.apply, m.toRgb.apply⟩

/-- BT.601 in full range. -/
def bt601 : ColorMatrix where
  toYuv := ⟨⟨0.299, 0.587, 0.114, 0⟩, ⟨-0.168736, -0.331264, 0.5, 0.5⟩,
    ⟨0.5, -0.418688, -0.081312, 0.5⟩⟩
  toRgb := ⟨⟨1, 0, 1.402, -0.701⟩, ⟨1, -0.344136, -0.714136, 0.529136⟩, ⟨1, 1.772, 0, -0.886⟩⟩

/-- BT.709 in full range. -/
def bt709 : ColorMatrix where
  toYuv := ⟨⟨0.2126, 0.7152, 0.0722, 0⟩, ⟨-0.114572, -0.385428, 0.5, 0.5⟩,
    ⟨0.5, -0.454153, -0.045847, 0.5⟩⟩
  toRgb := ⟨⟨1, 0, 1.5748, -0.7874⟩, ⟨1, -0.187324, -0.468124, 0.327724⟩,
    ⟨1, 1.8556, 0, -0.9278⟩⟩

end ColorMatrix

/-- Programs convert by BT.601 unless told otherwise. -/
instance : Inhabited ColorTransform := ⟨ColorMatrix.bt601.transform⟩

end Shading
