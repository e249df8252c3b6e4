import Shading.Error
import Shading.Instruction
import Shading.Registers
import Shading.Resource

/- Programs: a list of instructions with the variables and resources that they
   name by number, of which there are only so many. A program is built, sealed and
   then run; whatever goes wrong on the way makes it invalid, and only starting over
   mends that. -/
namespace Shading

/-- A named slot. The name of a uniform starts with a dot. -/
structure Declaration where
  name : String
  isUniform : Bool
  deriving DecidableEq, Repr

/-- A program for one stage. -/
structure Program where
  stage : Stage
  instructions : Array Instruction
  declarations : Array Declaration
  /-- The canonical register file. -/
  registers : Registers
  textures : Array (Handle Texture)
  matrices : Array (Handle Transform)
  interpolated : Array (Handle Attribute)
  attributes : Array (Handle Attribute)
  color : ColorTransform
  hasBranches : Bool
  /-- Whether the depth may be replaced, so that it cannot be tested beforehand. -/
  writesDepth : Bool
  isSealed : Bool
  isInvalid : Bool

namespace Program

/-- How many variables a program may have, and how many handles in each of its tables: they are
numbered in sixteen bits. -/
def capacity : Nat := 65536

/-- A program without instructions. -/
def new (stage : Stage) : Program where
  stage := stage
  instructions := #[]
  declarations := #[]
  registers := Registers.empty
  textures := #[]
  matrices := #[]
  interpolated := #[]
  attributes := #[]
  color := default
  hasBranches := false
  writesDepth := false
  isSealed := false
  isInvalid := false

/-- How many instructions there are. -/
def length (p : Program) : Nat := p.instructions.size

/-- Whether the program may run. -/
def isRunnable (p : Program) : Bool := p.isSealed && !p.isInvalid

/-- The slot of a name. -/
def slotOf? (p : Program) (name : String) : Option Nat :=
  p.declarations.findIdx? fun d => d.name == name

/-- The program with a variable declared behind the others. -/
def declare (p : Program) (name : String) (isUniform : Bool) : Program :=
  { p with
    declarations := p.declarations.push ⟨name, isUniform⟩
    registers := p.registers.addSlot }

/-- The canonical value of a name. -/
def value? (p : Program) (name : String) : Option Value :=
  (p.slotOf? name).bind p.registers.slot?

/-- A texture of the program. -/
def texture? (p : Program) (id : Nat) : Option Texture := p.textures[id]?.map Handle.resource

/-- A matrix of the program. -/
def matrix? (p : Program) (id : Nat) : Option Transform := p.matrices[id]?.map Handle.resource

/-- An attribute that the program interpolates. -/
def interpolated? (p : Program) (id : Nat) : Option Attribute :=
  p.interpolated[id]?.map Handle.resource

/-- An attribute that the program reads per vertex. -/
def attribute? (p : Program) (id : Nat) : Option Attribute :=
  p.attributes[id]?.map Handle.resource

/-- The program with other color conversions. -/
def withColor (p : Program) (color : ColorTransform) : Program := { p with color }

/-- The program started over: only its stage and its color conversions stay. -/
def reset (p : Program) : Program := (new p.stage).withColor p.color

/-- Marks the program invalid, which is reported the first time. -/
def invalidate (p : Program) (reason : ProgramError) : Program × Array Event :=
  if p.isInvalid then (p, #[])
  else ({ p with isInvalid := true }, #[.markedInvalid reason p.length])

end Program

/-- What became of an operation on a program: its result, the program
afterwards, and what was reported. -/
structure Outcome (α : Type) where
  result : Except ProgramError α
  program : Program
  events : Array Event

namespace Outcome

variable {α : Type}

/-- Success. -/
def ok (a : α) (p : Program) : Outcome α := ⟨.ok a, p, #[]⟩

/-- A refusal that leaves the program alone. -/
def refuse (e : ProgramError) (p : Program) : Outcome α := ⟨.error e, p, #[]⟩

/-- A failure, which makes the program invalid. -/
def fail (e : ProgramError) (p : Program) : Outcome α :=
  let marked := p.invalidate e
  ⟨.error e, marked.1, marked.2⟩

end Outcome

end Shading
