import Shading.Primitive
import Shading.Value

/- Why a program is refused, and what the machine reports while it works. Every cause of a
   refusal is a constructor that carries what the message names; the wording is in
   `ProgramError.message` alone. -/
namespace Shading

/-- The part an operand plays in an operation. -/
inductive Role where
  | destination | source | second | comparison | texture | target
  deriving DecidableEq, Repr

/-- The name of a role in messages. -/
def Role.name : Role → String
  | .destination => "destination"
  | .source => "source"
  | .second => "second"
  | .comparison => "comparison"
  | .texture => "texture"
  | .target => "target"

/-- Why the operands of an operation do not fit it. -/
inductive Misfit where
  | destinationNotAName
  | readOnlyBuiltin
  | readOnlyUniform
  | conditionNotAName
  | expectedTexture
  | textureOutsideSampler
  | secondNotAVariable
  | matrixOnlyMultiplies
  | matrixNeedsVector
  | matrixNotAllowed
  | vectorRequired
  | crossWritesVector
  | jumpTarget
  | tooMany
  | tooManyVariables
  | tooManyHandles
  deriving DecidableEq, Repr

/-- The wording of a misfit. -/
def Misfit.message : Misfit → String
  | .destinationNotAName => "destination must be a name"
  | .readOnlyBuiltin => "built-in is read-only"
  | .readOnlyUniform => "uniforms are read-only"
  | .conditionNotAName => "left side of a condition must be a name"
  | .expectedTexture => "expected a texture"
  | .textureOutsideSampler => "textures are only read through a sampler"
  | .secondNotAVariable => "second operand must be a variable"
  | .matrixOnlyMultiplies => "a matrix can only multiply a vector in place"
  | .matrixNeedsVector => "a matrix can only multiply a vector"
  | .matrixNotAllowed => "matrix operand not allowed here"
  | .vectorRequired => "vector operand required"
  | .crossWritesVector => "cross writes a vector"
  | .jumpTarget => "target must be an integer or a uniform"
  | .tooMany => "too many operands"
  | .tooManyVariables => "too many variables"
  | .tooManyHandles => "too many handles"

/-- Why a program, or a part of one, is refused. -/
inductive ProgramError where
  | unknownOperation (name : String)
  | unresolvedIdentifier (name : String)
  | invalidSwizzle (name : String)
  | missingOperand (op : String) (role : Role)
  | literalSecondOperand (op : String)
  | badJumpTarget (target : Int) (length : Nat)
  | unsupportedOperands (op : String) (reason : Misfit)
  | stageMismatch (op : String) (stage : Stage)
  | stepLimit (limit : Nat)
  | unbalancedBranches
  | unknownUniform (name : String)
  | badComponentCount (count : Nat)
  | invalidProgram
  deriving DecidableEq, Repr

/-- The name of a stage in messages. -/
def Stage.name : Stage → String
  | .fragment => "Fragment"
  | .vertex => "Vertex"

namespace ProgramError

/-- The wording of an error. -/
def message : ProgramError → String
  | unknownOperation name => s!"unknown operation `{name}`"
  | unresolvedIdentifier name => s!"unresolved identifier `{name}`"
  | invalidSwizzle name => s!"invalid swizzle in `{name}`"
  | missingOperand op role => s!"`{op}` is missing its {role.name} operand"
  | literalSecondOperand op =>
    s!"`{op}` takes its second operand from a named variable, not a literal"
  | badJumpTarget target length =>
    s!"jump target {target} is outside of the program (1..={length})"
  | unsupportedOperands op reason => s!"unsupported operands for `{op}`: {reason.message}"
  | stageMismatch op stage => s!"`{op}` is not allowed in a {stage.name} program"
  | stepLimit limit => s!"invocation ran past {limit} instructions"
  | unbalancedBranches => "if/else/end blocks are not balanced"
  | unknownUniform name => s!"no value supplied for uniform `{name}`"
  | badComponentCount count =>
    s!"attribute buffer must hold 1 to 4 components per tuple, got {count}"
  | invalidProgram => "program is invalid"

/-- There is no number left for one more variable. -/
def tooManyVariables : ProgramError := .unsupportedOperands "declare" .tooManyVariables

/-- There is no number left for one more handle. -/
def tooManyHandles : ProgramError := .unsupportedOperands "declare" .tooManyHandles

end ProgramError

/-- A report of the machine. -/
inductive Event where
  /-- A print instruction ran at a position; its source may have had no value. -/
  | printed (x y : Float32) (value : Option Operand)
  /-- A program with so many instructions became invalid. -/
  | markedInvalid (reason : ProgramError) (instructions : Nat)
  /-- A draw named no program. -/
  | unknownProgram
  /-- A draw named a program of this stage for invocations of the other. -/
  | wrongStage (stage : Stage)
  deriving DecidableEq, Repr

end Shading
