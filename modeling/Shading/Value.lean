import Shading.Mask
import Shading.Single

/- What a variable slot holds and what an instruction reads. A `Value` is a float,
   a 32-bit integer, a truth value or a vector; an `Operand` is a value as a
   source sees it, where a vector comes with the mask of the lanes that take
   part. `Operand.active` lists the floats an operand brings: one for a scalar,
   the lanes under the mask for a vector. -/
namespace Shading

/-- The content of a variable slot. -/
inductive Value where
  | float (s : Float32)
  | int (i : Int32)
  | bool (b : Bool)
  | vec (v : Vec4)
  deriving DecidableEq, Repr

/-- A value as a source: a vector is read under a mask. -/
inductive Operand where
  | float (s : Float32)
  | int (i : Int32)
  | bool (b : Bool)
  | vec (v : Vec4) (mask : Mask)
  deriving DecidableEq, Repr

namespace Value

/-- A slot that nothing was stored in holds the float zero. -/
instance : Inhabited Value := ⟨.float 0⟩

/-- The name of the value's type. -/
def typeName : Value → String
  | .float _ => "float"
  | .int _ => "int"
  | .bool _ => "bool"
  | .vec _ => "vec4"

/-- The value as a float: integers and truth values convert, a vector gives its
first lane. -/
def toFloat : Value → Float32
  | .float s => s
  | .int i => Single.ofInt i
  | .bool b => Single.ofBool b
  | .vec v => v.x

/-- The value as a vector: a scalar lands in `x`, the other lanes are zero. -/
def toVec : Value → Vec4
  | .vec v => v
  | value => ⟨value.toFloat, 0, 0, 0⟩

/-- The value as a source under a mask, which scalars ignore. -/
def operand (mask : Mask) : Value → Operand
  | .float s => .float s
  | .int i => .int i
  | .bool b => .bool b
  | .vec v => .vec v mask

/-- Whether the value is a vector. -/
def isVec : Value → Bool
  | .vec _ => true
  | _ => false

/-- Whether two values have one type and agree as numbers of it. -/
def agrees : Value → Value → Bool
  | .float a, .float b => a == b
  | .int a, .int b => a == b
  | .bool a, .bool b => a == b
  | .vec v, .vec w => v.agrees w
  | _, _ => false

end Value

namespace Operand

/-- The name of the operand's type. -/
def typeName : Operand → String
  | .float _ => "float"
  | .int _ => "int"
  | .bool _ => "bool"
  | .vec _ _ => "vector"

/-- Whether the operand is a scalar. -/
def isScalar : Operand → Bool
  | .vec _ _ => false
  | _ => true

/-- The operand as one float: integers and truth values convert, a vector gives
its first active lane, and zero if it has none. -/
def scalar : Operand → Float32
  | .float s => s
  | .int i => Single.ofInt i
  | .bool b => Single.ofBool b
  | .vec v mask => (mask.lanes.map v.get).headD 0

/-- The floats that take part: the active lanes in ascending order, and the one
float of a scalar. -/
def active : Operand → List Float32
  | .vec v mask => mask.lanes.map v.get
  | source => [source.scalar]

/-- How many floats take part. -/
def count (source : Operand) : Nat := source.active.length

/-- The active floats moved to the front of a vector, the rest being zero. A
scalar fills every lane. -/
def packed : Operand → Vec4
  | .vec v mask => Vec4.ofList (mask.lanes.map v.get)
  | source => Vec4.splat source.scalar

/-- The whole vector, whatever the mask. A scalar fills every lane. -/
def full : Operand → Vec4
  | .vec v _ => v
  | source => Vec4.splat source.scalar

/-- The float that meets the destination lane of rank `k`. A single float meets
every lane, and so does a zero where no lane is active; beyond the last of
several floats there is none. -/
def forRank (source : Operand) (k : Nat) : Option Float32 :=
  match source.active with
  | [] => some 0
  | [s] => some s
  | floats => floats[k]?

theorem scalar_eq_headD (source : Operand) : source.scalar = source.active.headD 0 := by
  cases source <;> rfl

theorem count_vec (v : Vec4) (mask : Mask) : (vec v mask).count = mask.count := by
  simp [count, active, Mask.count]

end Operand

end Shading
