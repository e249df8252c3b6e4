import Shading.Single
import Shading.Value

/- The mathematical functions that programs can call: their names, how many
   sources they take, and what they give.

   Functions of one float work lane by lane under the mask of their source.
   Functions of two floats meet the active lanes of their sources in order
   (`Operand.pairs`) and give as many lanes from `x` on. The geometric ones look
   at whole vectors. `clamp` is not here: it reads its destination, so it is a
   way of storing and not a value. -/
namespace Shading

/-- A function of one float. -/
inductive UnaryFunction where
  | sin | cos | tan | asin | acos | atan | exp | log | exp2 | log2
  | floor | ceil | fract | sign | abs | sqrt | inverseSqrt
  deriving DecidableEq, Repr

/-- A function of two floats. -/
inductive BinaryFunction where
  | pow | mod | min | max | atan2
  deriving DecidableEq, Repr

/-- A mathematical function. -/
inductive MathFunction where
  | unary (f : UnaryFunction)
  | binary (f : BinaryFunction)
  | normalize | length | clamp | distance | dot | cross
  deriving DecidableEq, Repr

/-- What a function of one float gives. -/
def UnaryFunction.apply : UnaryFunction → Float32 → Float32
  | .sin => Float32.sin
  | .cos => Float32.cos
  | .tan => Float32.tan
  | .asin => Float32.asin
  | .acos => Float32.acos
  | .atan => Float32.atan
  | .exp => Float32.exp
  | .log => Float32.log
  | .exp2 => Float32.exp2
  | .log2 => Float32.log2
  | .floor => Float32.floor
  | .ceil => Float32.ceil
  | .fract => Single.fraction
  | .sign => Single.sign
  | .abs => Float32.abs
  | .sqrt => Float32.sqrt
  | .inverseSqrt => Single.inverseSqrt

/-- What a function of two floats gives. -/
def BinaryFunction.apply : BinaryFunction → Float32 → Float32 → Float32
  | .pow => Float32.pow
  | .mod => Single.modulo
  | .min => Single.minimum
  | .max => Single.maximum
  | .atan2 => Float32.atan2

namespace Operand

/-- The operand with a function applied to its floats; a scalar becomes a float. -/
def map (f : Float32 → Float32) : Operand → Operand
  | .vec v mask => .vec (v.map f) mask
  | source => .float (f source.scalar)

/-- The active floats of two operands in pairs. A single float meets every float
of the other operand; otherwise they meet in order, as far as both go. -/
def pairs (a b : Operand) : List (Float32 × Float32) :=
  match a.active, b.active with
  | [s], floats => floats.map fun t => (s, t)
  | floats, [t] => floats.map fun s => (s, t)
  | floats, others => floats.zip others

/-- A function of two floats applied to the pairs. Two scalars give a scalar. -/
def zipWith (f : Float32 → Float32 → Float32) (a b : Operand) : Operand :=
  if a.isScalar && b.isScalar then .float (f a.scalar b.scalar)
  else
    let results := (a.pairs b).map fun p => f p.1 p.2
    .vec (Vec4.ofList results) (Mask.first results.length)

end Operand

namespace MathFunction

/-- The function that a name stands for. -/
def ofName? : String → Option MathFunction
  | "sin" => some (.unary .sin)
  | "cos" => some (.unary .cos)
  | "tan" => some (.unary .tan)
  | "asin" => some (.unary .asin)
  | "acos" => some (.unary .acos)
  | "atan" => some (.unary .atan)
  | "exp" => some (.unary .exp)
  | "log" => some (.unary .log)
  | "exp2" => some (.unary .exp2)
  | "log2" => some (.unary .log2)
  | "floor" => some (.unary .floor)
  | "ceil" => some (.unary .ceil)
  | "fract" => some (.unary .fract)
  | "sign" => some (.unary .sign)
  | "abs" => some (.unary .abs)
  | "sqrt" => some (.unary .sqrt)
  | "inversesqrt" => some (.unary .inverseSqrt)
  | "normalize" => some .normalize
  | "length" => some .length
  | "pow" => some (.binary .pow)
  | "mod" => some (.binary .mod)
  | "min" => some (.binary .min)
  | "max" => some (.binary .max)
  | "atan2" => some (.binary .atan2)
  | "clamp" => some .clamp
  | "distance" => some .distance
  | "dot" => some .dot
  | "cross" => some .cross
  | _ => none

/-- The name of a function. -/
def name : MathFunction → String
  | .unary .sin => "sin"
  | .unary .cos => "cos"
  | .unary .tan => "tan"
  | .unary .asin => "asin"
  | .unary .acos => "acos"
  | .unary .atan => "atan"
  | .unary .exp => "exp"
  | .unary .log => "log"
  | .unary .exp2 => "exp2"
  | .unary .log2 => "log2"
  | .unary .floor => "floor"
  | .unary .ceil => "ceil"
  | .unary .fract => "fract"
  | .unary .sign => "sign"
  | .unary .abs => "abs"
  | .unary .sqrt => "sqrt"
  | .unary .inverseSqrt => "inversesqrt"
  | .normalize => "normalize"
  | .length => "length"
  | .binary .pow => "pow"
  | .binary .mod => "mod"
  | .binary .min => "min"
  | .binary .max => "max"
  | .binary .atan2 => "atan2"
  | .clamp => "clamp"
  | .distance => "distance"
  | .dot => "dot"
  | .cross => "cross"

/-- How many sources a function takes. -/
def arity : MathFunction → Nat
  | .unary _ | .normalize | .length => 1
  | .binary _ | .clamp | .distance | .dot | .cross => 2

/-- Whether a function is about vectors and refuses scalars. -/
def isGeometric : MathFunction → Bool
  | .normalize | .length | .distance | .dot | .cross => true
  | _ => false

/-- A direction brought to length one over its active lanes, which are moved to
the front; a scalar gives its sign. -/
def normalizeOperand (source : Operand) : Operand :=
  match source with
  | .vec _ _ => .vec (source.packed.normalize (min source.count 3)) (Mask.first source.count)
  | _ => source.map Single.sign

/-- The value of a function. Without the second source that a function takes
there is none, and there is none for `clamp`. -/
def evaluate (f : MathFunction) (a : Operand) (second : Option Operand) : Option Operand :=
  match f, second with
  | .unary g, _ => some (a.map g.apply)
  | .normalize, _ => some (normalizeOperand a)
  | .length, _ => some (.float a.full.length3)
  | .binary g, some b => some (a.zipWith g.apply b)
  | .distance, some b => some (.float (a.full.zipWith (fun s t => s - t) b.full).length3)
  | .dot, some b => some (.float (a.full.dot3 b.full))
  | .cross, some b => some (.vec (a.full.cross3 b.full) Mask.xyz)
  | _, _ => none

end MathFunction

end Shading
