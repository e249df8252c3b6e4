import Shading.Instruction

/- What is stored when a source meets a destination. A destination is stored as a
   whole value, so each rule gives the new value from the old one, the swizzle
   of the destination and the source.

   Under a swizzle the result is a vector: the lanes of the swizzle take the
   active floats of the source by rank, and a source with only one float gives
   it to all of them. Without one, an old vector takes the floats of a vector
   source from `x` on and a scalar in every lane, and an old scalar stays a
   scalar unless the source brings several floats. Storing alone (`Arith.assign`)
   also decides a scalar's type: integers and truth values bring theirs along,
   a float takes that of the old value. -/
namespace Shading

namespace Arith

/-- The operation on floats. -/
def float : Arith → Float32 → Float32 → Float32
  | .assign, _, b => b
  | .add, a, b => a + b
  | .sub, a, b => a - b
  | .mul, a, b => a * b
  | .div, a, b => a / b

/-- The operation on integers, which wraps around. A quotient that does not exist
or does not fit is zero. -/
def int : Arith → Int32 → Int32 → Int32
  | .assign, _, b => b
  | .add, a, b => a + b
  | .sub, a, b => a - b
  | .mul, a, b => a * b
  | .div, a, b => if b = 0 ∨ (a = Int32.minValue ∧ b = -1) then 0 else a / b

/-- A source combined into a whole vector. Storing fewer than four floats makes the
last lane one. -/
def ontoVec (op : Arith) (old : Vec4) (src : Operand) : Vec4 :=
  if src.isScalar then old.map fun s => op.float s src.scalar
  else
    let floats := src.active
    Vec4.ofLanes fun l =>
      match floats[l.index]? with
      | some t => op.float (old.get l) t
      | none => if op = .assign ∧ l = .q then 1 else old.get l

/-- A source combined into the lanes of a mask. -/
def ontoLanes (op : Arith) (old : Vec4) (mask : Mask) (src : Operand) : Vec4 :=
  Vec4.ofLanes fun l =>
    if mask.has l then
      match src.forRank (mask.rank l) with
      | some t => op.float (old.get l) t
      | none => old.get l
    else old.get l

/-- A scalar source combined into a scalar. -/
def scalars (op : Arith) (old : Value) (src : Operand) : Value :=
  match op, old, src with
  | .assign, .int _, .float s => .int (Single.toInt s)
  | .assign, .bool _, .float s => .bool (s != 0)
  | .assign, _, .int i => .int i
  | .assign, _, .bool b => .bool b
  | op, .int a, .int b => .int (op.int a b)
  | op, old, src => .float (op.float old.toFloat src.scalar)

/-- A source combined into a scalar. Several floats make a vector of it: from zero
when they are stored, from the scalar in every lane otherwise. -/
def ontoScalar (op : Arith) (old : Value) (src : Operand) : Value :=
  match src with
  | .vec _ mask =>
    if 1 < mask.count then
      .vec (op.ontoVec (if op = .assign then Vec4.zero else Vec4.splat old.toFloat) src)
    else op.scalars old (.float src.scalar)
  | _ => op.scalars old src

/-- The value to store when a source meets a destination. -/
def combine (op : Arith) (old : Value) (mask : Option Mask) (src : Operand) : Value :=
  match mask, old with
  | some mask, old => .vec (op.ontoLanes old.toVec mask src)
  | none, .vec v => .vec (op.ontoVec v src)
  | none, old => op.ontoScalar old src

end Arith

/-- Whether two operands stand in a relation: every pair of their floats does. -/
def Comparison.holds (cmp : Comparison) (a b : Operand) : Bool :=
  (a.pairs b).all fun p => cmp.test p.1 p.2

/-- A float held between the bounds that meet rank `k`. The lower bound goes first,
so where the bounds are crossed the upper one wins. -/
def hold (lower upper : Operand) (k : Nat) (s : Float32) : Float32 :=
  let raised := match lower.forRank k with
    | some bound => Single.maximum s bound
    | none => s
  match upper.forRank k with
  | some bound => Single.minimum raised bound
  | none => raised

namespace Value

/-- A value held in a range: the lanes of a swizzle, or all of a vector, or a
scalar. An integer stays one. -/
def clamp (lower upper : Operand) (mask : Option Mask) (old : Value) : Value :=
  match mask, old with
  | some mask, old =>
    let v := old.toVec
    .vec (Vec4.ofLanes fun l =>
      if mask.has l then hold lower upper (mask.rank l) (v.get l) else v.get l)
  | none, .vec v => .vec (Vec4.ofLanes fun l => hold lower upper l.index (v.get l))
  | none, .int i => .int (Single.toInt (hold lower upper 0 (Single.ofInt i)))
  | none, old => .float (hold lower upper 0 old.toFloat)

/-- A value mapped as a vector, of which a swizzle keeps only its lanes. -/
def transform (f : Vec4 → Vec4) (mask : Option Mask) (old : Value) : Value :=
  let v := old.toVec
  let image := f v
  match mask with
  | some mask => .vec (Vec4.ofLanes fun l => if mask.has l then image.get l else v.get l)
  | none => .vec image

end Value

end Shading
