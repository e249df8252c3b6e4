import Shading.Execution.State
import Shading.Storing

/- What an operation does to the state. Each reads its sources in order, and if one
   has no value nothing is stored. -/
namespace Shading

variable {ι : Type} [Invocation ι]

/-- Reads a source and goes on with its value; without one the state is left as it
is after the reading. -/
def Source.andThen (p : Program) (src : Source) (s : State ι)
    (use : Operand → State ι → State ι) : State ι :=
  match src.read p s with
  | (some value, s) => use value s
  | (none, s) => s

/-- The position at which a texture is read: the first two floats of a source, a
single one counting twice. -/
def Operand.position (coords : Operand) : Float32 × Float32 :=
  let v := coords.packed
  (v.x, if 1 < coords.count then v.y else v.x)

namespace Operation

/-- Stores the value of a function of one or two operands in a destination. -/
def storeCall (f : MathFunction) (dst : Reference) (a : Operand) (second : Option Operand)
    (s : State ι) : State ι :=
  match f, second with
  | .clamp, some b => s.update dst.place (Value.clamp a b dst.mask)
  | _, _ =>
    match f.evaluate a second with
    | some value => s.update dst.place fun old => Arith.assign.combine old dst.mask value
    | none => s

/-- What an operation does. -/
def run (p : Program) (o : Operation) (s : State ι) : State ι :=
  match o with
  | .arith op dst src =>
    src.andThen p s fun value s =>
      s.update dst.place fun old => op.combine old dst.mask value
  | .transform id dst =>
    match p.matrix? id with
    | some m => s.update dst.place (Value.transform m.apply dst.mask)
    | none => s
  | .compare cmp dst lhs rhs =>
    let (a, s) := lhs.read p s
    let (b, s) := rhs.read p s
    match a, b with
    | some a, some b =>
      s.update dst.place fun old => Arith.assign.combine old dst.mask (.bool (cmp.holds a b))
    | _, _ => s
  | .sample id model dst coords =>
    match p.texture? id with
    | some texture =>
      coords.andThen p s fun value s =>
        let (x, y) := value.position
        s.update dst.place fun old =>
          Arith.assign.combine old dst.mask (.vec (texture.sample x y model) Mask.xyzq)
    | none => s
  | .call f dst src second =>
    src.andThen p s fun a s =>
      match second with
      | none => storeCall f dst a none s
      | some src => src.andThen p s fun b s => storeCall f dst a (some b) s
  | .convert model dst src =>
    src.andThen p s fun value s =>
      let color := p.color.convert model value.full
      -- the last lane of a color is not converted
      let mask := (dst.mask.getD Mask.xyzq).inter Mask.xyz
      s.update dst.place fun old => Arith.assign.combine old (some mask) (.vec color Mask.xyz)
  | .print src =>
    let (x, y) := Invocation.position s.invocation
    let (value, s) := src.read p s
    s.report (.printed x y value)

end Operation

end Shading
