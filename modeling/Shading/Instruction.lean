import Shading.Builtin
import Shading.Color
import Shading.MathFunction

/- Instructions. An `Operation` reads its sources, stores in one destination (or
   prints) and goes on; the other instructions steer: they end the invocation,
   open, divide and close blocks, or jump. Variables, textures, matrices and
   attributes are named by number.

   Comparisons are of floats, and each is the float relation itself: none of the
   ordered ones holds of what is not a number, and zeros of both signs are
   equal. -/
namespace Shading

/-- A relation between two floats. -/
inductive Comparison where
  | lt | le | gt | ge | eq | ne
  deriving DecidableEq, Repr

namespace Comparison

/-- The comparison that a name stands for. -/
def ofName? : String → Option Comparison
  | "<" => some .lt
  | "<=" => some .le
  | ">" => some .gt
  | ">=" => some .ge
  | "==" => some .eq
  | "!=" => some .ne
  | _ => none

/-- Whether two floats stand in the relation. -/
def test : Comparison → Float32 → Float32 → Bool
  | .lt, a, b => a < b
  | .le, a, b => a ≤ b
  | .gt, a, b => b < a
  | .ge, a, b => b ≤ a
  | .eq, a, b => a == b
  | .ne, a, b => a != b

end Comparison

/-- What a name stands for: a field of the invocation or a variable slot. -/
inductive Place where
  | builtin (b : Builtin)
  | slot (i : Nat)
  deriving DecidableEq, Repr

/-- A place with the swizzle it was written with, if any. -/
structure Reference where
  place : Place
  mask : Option Mask
  deriving DecidableEq, Repr

/-- What a source reads from. -/
inductive Source where
  | name (r : Reference)
  | literal (value : Operand)
  | interpolated (id : Nat)
  | attribute (id : Nat)
  deriving DecidableEq, Repr

/-- The operations of arithmetic, storing among them. -/
inductive Arith where
  | assign | add | sub | mul | div
  deriving DecidableEq, Repr

/-- The name of an operation of arithmetic. -/
def Arith.name : Arith → String
  | .assign => "="
  | .add => "+="
  | .sub => "-="
  | .mul => "*="
  | .div => "/="

/-- An instruction that does its work and goes on to the next. -/
inductive Operation where
  /-- Combines the destination with a source. -/
  | arith (op : Arith) (dst : Reference) (src : Source)
  /-- Multiplies the destination by a matrix. -/
  | transform (matrix : Nat) (dst : Reference)
  /-- Stores whether two sources stand in a relation. -/
  | compare (cmp : Comparison) (dst : Reference) (lhs rhs : Source)
  /-- Stores what a texture holds at a position. -/
  | sample (texture : Nat) (model : ColorModel) (dst : Reference) (coords : Source)
  /-- Stores the value of a function; `clamp` holds the destination in a range. -/
  | call (f : MathFunction) (dst : Reference) (src : Source) (second : Option Source)
  /-- Stores a color converted into a model. -/
  | convert (model : ColorModel) (dst : Reference) (src : Source)
  /-- Reports what a source reads. -/
  | print (src : Source)
  deriving DecidableEq, Repr

/-- The condition of a block: a name in a relation with a source. -/
structure Condition where
  lhs : Reference
  cmp : Comparison
  rhs : Source
  deriving DecidableEq, Repr

/-- Where a jump goes: to an instruction counted from zero, or to the one whose
number, counted from one, a uniform holds. -/
inductive JumpTarget where
  | index (i : Nat)
  | uniform (slot : Nat)
  deriving DecidableEq, Repr

/-- One instruction of a program. -/
inductive Instruction where
  | operation (o : Operation)
  | discard
  | ifThen (c : Condition)
  | elseIf (c : Condition)
  | otherwise
  | endIf
  | goto (target : JumpTarget)
  deriving DecidableEq, Repr

namespace Operation

/-- The destination of an operation. -/
def destination? : Operation → Option Reference
  | .arith _ dst _ | .transform _ dst | .compare _ dst _ _ | .sample _ _ dst _
  | .call _ dst _ _ | .convert _ dst _ => some dst
  | .print _ => none

/-- The sources that an operation reads, in the order of reading. -/
def sources : Operation → List Source
  | .arith _ _ src | .convert _ _ src | .print src | .sample _ _ _ src => [src]
  | .transform _ _ => []
  | .compare _ _ lhs rhs => [lhs, rhs]
  | .call _ _ src second => src :: second.toList

/-- The name of an operation in messages. -/
def name : Operation → String
  | .arith op _ _ => op.name
  | .transform _ _ => Arith.mul.name
  | .compare _ _ _ _ => "compare"
  | .sample _ .rgb _ _ => "sampler"
  | .sample _ .yuv _ _ => "samplerYUV"
  | .call f _ _ _ => f.name
  | .convert .yuv _ _ => "toYUV"
  | .convert .rgb _ _ => "toRGB"
  | .print _ => "print"

/-- How many operands an operation is written with. -/
def operandCount : Operation → Nat
  | .arith _ _ _ | .transform _ _ | .convert _ _ _ => 2
  | .compare _ _ _ _ | .sample _ _ _ _ => 3
  | .call f _ _ _ => 1 + f.arity
  | .print _ => 1

end Operation

namespace Instruction

/-- The name of an instruction in messages. -/
def name : Instruction → String
  | .operation o => o.name
  | .discard => "discard"
  | .ifThen _ => "if"
  | .elseIf _ => "elseif"
  | .otherwise => "else"
  | .endIf => "end"
  | .goto _ => "goto"

/-- How many operands an instruction is written with. -/
def operandCount : Instruction → Nat
  | .operation o => o.operandCount
  | .discard | .otherwise | .endIf => 0
  | .ifThen _ | .elseIf _ => 3
  | .goto _ => 1

/-- Whether an instruction steers by blocks or jumps. -/
def isBranch : Instruction → Bool
  | .operation _ | .discard => false
  | _ => true

/-- The destination of an instruction. -/
def destination? : Instruction → Option Reference
  | .operation o => o.destination?
  | _ => none

end Instruction

end Shading
