import Shading.Program.Basic
import Shading.Program.Name

/- Building programs. `Program.push` appends one instruction, written as a name and
   its operands, and answers its number, counted from one.

   The operands are taken in the order in which they are written, and the first
   that does not fit decides the error. A variable comes into being as the
   destination of an instruction, a uniform where it is first read, a resource
   where it is first handed in; all of them stay even if a later operand is
   refused, so the builder keeps its program through errors. None comes into being
   that would have no number. -/
namespace Shading

/-- An operand as it is written. -/
inductive Argument where
  | name (text : String)
  | literal (value : Operand)
  | texture (h : Handle Texture)
  | matrix (h : Handle Transform)
  | interpolated (h : Handle Attribute)
  | attribute (h : Handle Attribute)

/-- A vector literal of the first lanes, at least one of them. -/
def Argument.vector (v : Vec4) (lanes : Nat) : Argument :=
  .literal (.vec v (Mask.first (max 1 (min lanes 4))))

/-- What a source turns out to be: one that can be read, or a matrix. -/
inductive Supply where
  | source (s : Source)
  | matrix (id : Nat)
  deriving DecidableEq

/-- One of the tables of handles that a program has: where it is, and the program with a handle
entered behind the others. -/
structure HandleTable (α : Type) where
  handles : Program → Array (Handle α)
  enter : Program → Handle α → Program
  handles_enter : ∀ p h, handles (enter p h) = (handles p).push h

namespace HandleTable

/-- The textures. -/
def textures : HandleTable Texture where
  handles := Program.textures
  enter p h := { p with textures := p.textures.push h }
  handles_enter _ _ := rfl

/-- The matrices. -/
def matrices : HandleTable Transform where
  handles := Program.matrices
  enter p h := { p with matrices := p.matrices.push h }
  handles_enter _ _ := rfl

/-- The attributes to interpolate. Each gets an anchor cache. -/
def interpolated : HandleTable Attribute where
  handles := Program.interpolated
  enter p h := { p with
    interpolated := p.interpolated.push h
    registers := p.registers.addAnchor }
  handles_enter _ _ := rfl

/-- The attributes to read per vertex. -/
def attributes : HandleTable Attribute where
  handles := Program.attributes
  enter p h := { p with attributes := p.attributes.push h }
  handles_enter _ _ := rfl

end HandleTable

/-- A step of building: it may fail, and keeps the program either way. -/
abbrev Build (α : Type) : Type := ExceptT ProgramError (StateM Program) α

namespace Build

/-- Refuses operands. -/
def unsupported {α : Type} (op : String) (reason : Misfit) : Build α :=
  throw (.unsupportedOperands op reason)

/-- Goes on if a condition holds, and fails otherwise. -/
def require (holds : Bool) (otherwise : ProgramError) : Build Unit :=
  if holds then pure () else throw otherwise

/-- The new slot of a name, while there is a number for one more. -/
def declare (name : String) (isUniform : Bool) : Build Nat := do
  let p ← get
  require (p.declarations.size < Program.capacity) .tooManyVariables
  set (p.declare name isUniform)
  return p.declarations.size

/-- The slot of a name, a new one if the name is new. -/
def slot (name : String) (isUniform : Bool) : Build Nat := do
  match (← get).slotOf? name with
  | some i => return i
  | none => declare name isUniform

/-- The number of a handle in a table, a new one if the handle is new and there is a number for
one more. -/
def intern {α : Type} (t : HandleTable α) (h : Handle α) : Build Nat := do
  let p ← get
  match h.find? (t.handles p) with
  | some i => return i
  | none =>
    require ((t.handles p).size < Program.capacity) .tooManyHandles
    set (t.enter p h)
    return (t.handles p).size

/-- Refuses what belongs to another stage than the program. -/
def requireStage (op : String) (stage : Stage) : Build Unit := do
  let own := (← get).stage
  require (own == stage) (.stageMismatch op own)

/-- Refuses a built-in of the other stage. -/
def requireOwn (op : String) (b : Builtin) : Build Unit :=
  match b.stage? with
  | some stage => requireStage op stage
  | none => return ()

/-- A name taken apart. -/
def operandName (text : String) : Build OperandName :=
  match OperandName.parse? text with
  | some name => return name
  | none => throw (.invalidSwizzle text)

/-- Refuses a swizzle on a built-in that is a scalar. -/
def requireSwizzle (text : String) (b : Builtin) (mask : Option Mask) : Build Unit :=
  require (mask.isNone || b.isVector) (.invalidSwizzle text)

/-- Remembers that a built-in is written. -/
def noteWritten (b : Builtin) : Build Unit :=
  if b = .depth then modify fun p => { p with writesDepth := true } else return ()

/-- A destination by name: a built-in that may be written, or a variable. -/
def destinationName (op text : String) : Build Reference := do
  let name ← operandName text
  match Builtin.ofName? name.base with
  | some b =>
    requireOwn op b
    require b.isWritable (.unsupportedOperands op .readOnlyBuiltin)
    requireSwizzle text b name.mask
    noteWritten b
    return ⟨.builtin b, name.mask⟩
  | none =>
    require (!OperandName.hasDot name.base) (.unsupportedOperands op .readOnlyUniform)
    require (isIdentifier name.base.toList) (.unresolvedIdentifier text)
    return ⟨.slot (← slot name.base false), name.mask⟩

/-- A destination. -/
def destination (op : String) : Option Argument → Build Reference
  | some (.name text) => destinationName op text
  | some _ => unsupported op .destinationNotAName
  | none => throw (.missingOperand op .destination)

/-- A source by name: a built-in, a uniform, or a variable that is there. -/
def sourceName (op text : String) : Build Reference := do
  let name ← operandName text
  match Builtin.ofName? name.base with
  | some b =>
    requireOwn op b
    requireSwizzle text b name.mask
    return ⟨.builtin b, name.mask⟩
  | none =>
    if OperandName.hasDot name.base then
      require (OperandName.isUniform name.base) (.unresolvedIdentifier text)
      return ⟨.slot (← slot name.base true), name.mask⟩
    else
      match (← get).slotOf? name.base with
      | some i => return ⟨.slot i, name.mask⟩
      | none => throw (.unresolvedIdentifier text)

/-- A source, or a matrix in its place. -/
def supply (op : String) : Option Argument → Build Supply
  | none => throw (.missingOperand op .source)
  | some (.name text) => return .source (.name (← sourceName op text))
  | some (.literal value) => return .source (.literal value)
  | some (.texture _) => unsupported op .textureOutsideSampler
  | some (.matrix h) => return .matrix (← intern .matrices h)
  | some (.interpolated h) => do
    requireStage op .fragment
    return .source (.interpolated (← intern .interpolated h))
  | some (.attribute h) => do
    requireStage op .vertex
    return .source (.attribute (← intern .attributes h))

/-- Refuses a matrix. -/
def requireSource (op : String) : Supply → Build Source
  | .source s => return s
  | .matrix _ => unsupported op .matrixNotAllowed

/-- A source that can be read. -/
def source (op : String) (arg : Option Argument) : Build Source := do
  requireSource op (← supply op arg)

/-- The left side of a condition: a name. -/
def conditionName (op : String) (arg : Option Argument) : Build Reference := do
  match ← supply op arg with
  | .source (.name r) => return r
  | _ => unsupported op .conditionNotAName

/-- The second source of a function: the name of a variable or a uniform. -/
def secondSource (op : String) : Option Argument → Build Source
  | none => throw (.missingOperand op .second)
  | some (.literal _) => throw (.literalSecondOperand op)
  | some arg => do
    match ← supply op (some arg) with
    | .source (.name ⟨.slot i, mask⟩) => return .name ⟨.slot i, mask⟩
    | _ => unsupported op .secondNotAVariable

/-- Whether a source is known to be a scalar before anything runs. -/
def isScalarSource : Source → Bool
  | .literal value => value.isScalar
  | .name ⟨.builtin b, _⟩ => !b.isVector
  | _ => false

/-- Whether a destination can hold a vector. -/
def holdsVector (dst : Reference) : Bool :=
  match dst.place with
  | .builtin b => b.isVector
  | .slot _ => true

/-- Arithmetic: a destination and a source. A matrix multiplies a vector in place
and does nothing else. -/
def arith (op : Arith) (args : List Argument) : Build Instruction := do
  let dst ← destination op.name args[0]?
  match ← supply op.name args[1]? with
  | .source src => return .operation (.arith op dst src)
  | .matrix id =>
    require (op == .mul) (.unsupportedOperands op.name .matrixOnlyMultiplies)
    require (holdsVector dst) (.unsupportedOperands op.name .matrixNeedsVector)
    return .operation (.transform id dst)

/-- A comparison by name. -/
def comparison (op : String) : Option Argument → Build Comparison
  | some (.name text) =>
    match Comparison.ofName? text with
    | some cmp => return cmp
    | none => throw (.unknownOperation text)
  | _ => throw (.missingOperand op .comparison)

/-- A condition: a name, a comparison and a source. -/
def condition (op : String) (args : List Argument) : Build Condition := do
  let lhs ← conditionName op args[0]?
  let cmp ← comparison op args[1]?
  let rhs ← source op args[2]?
  return ⟨lhs, cmp, rhs⟩

/-- A comparison as an operation: a destination and two sources. -/
def compare (cmp : Comparison) (args : List Argument) : Build Instruction := do
  let dst ← destination "compare" args[0]?
  let lhs ← supply "compare" args[1]?
  let rhs ← supply "compare" args[2]?
  return .operation (.compare cmp dst (← requireSource "compare" lhs)
    (← requireSource "compare" rhs))

/-- A texture. -/
def textureArgument (op : String) : Option Argument → Build Nat
  | some (.texture h) => intern .textures h
  | some _ => unsupported op .expectedTexture
  | none => throw (.missingOperand op .texture)

/-- A texture read: a destination, a texture and a position. -/
def sample (model : ColorModel) (args : List Argument) : Build Instruction := do
  let op := match model with
    | .rgb => "sampler"
    | .yuv => "samplerYUV"
  let dst ← destination op args[0]?
  let id ← textureArgument op args[1]?
  let coords ← source op args[2]?
  return .operation (.sample id model dst coords)

/-- A color conversion: a destination and a color. -/
def convert (model : ColorModel) (args : List Argument) : Build Instruction := do
  let op := match model with
    | .yuv => "toYUV"
    | .rgb => "toRGB"
  let dst ← destination op args[0]?
  let src ← source op args[1]?
  require (!isScalarSource src) (.unsupportedOperands op .vectorRequired)
  return .operation (.convert model dst src)

/-- A function call: a destination and as many sources as the function takes. -/
def call (f : MathFunction) (args : List Argument) : Build Instruction := do
  let dst ← destination f.name args[0]?
  let src ← source f.name args[1]?
  let second ← if f.arity = 2 then some <$> secondSource f.name args[2]? else pure none
  require (!f.isGeometric || !isScalarSource src) (.unsupportedOperands f.name .vectorRequired)
  require (f != .cross || holdsVector dst) (.unsupportedOperands f.name .crossWritesVector)
  return .operation (.call f dst src second)

/-- A jump to a numbered instruction, of which there may be fewer so far. -/
def fixedTarget (number : Int) : Build JumpTarget := do
  require (1 ≤ number) (.badJumpTarget number (← get).length)
  return .index (number - 1).toNat

/-- A jump target: a whole number or a uniform. -/
def jumpTarget : Option Argument → Build JumpTarget
  | some (.literal (.int i)) => fixedTarget i.toInt
  | some (.literal (.float s)) =>
    if Single.isWhole s then fixedTarget (Single.truncate s) else unsupported "goto" .jumpTarget
  | some (.name text) => do
    require (OperandName.isUniform text) (.unsupportedOperands "goto" .jumpTarget)
    return .uniform (← slot text true)
  | some _ => unsupported "goto" .jumpTarget
  | none => throw (.missingOperand "goto" .target)

/-- The end of an invocation, which only fragments know. -/
def discard : Build Instruction := do
  requireStage "discard" .fragment
  return .discard

/-- An instruction by its name, without regard to operands too many. -/
def instructionOf (name : String) (args : List Argument) : Build Instruction := do
  match name with
  | "=" | "assign" => arith .assign args
  | "+=" | "add" => arith .add args
  | "-=" | "sub" => arith .sub args
  | "*=" | "mul" => arith .mul args
  | "/=" | "div" => arith .div args
  | "if" => return .ifThen (← condition "if" args)
  | "elseif" => return .elseIf (← condition "elseif" args)
  | "else" => return .otherwise
  | "end" => return .endIf
  | "discard" => discard
  | "goto" => return .goto (← jumpTarget args[0]?)
  | "sampler" => sample .rgb args
  | "samplerYUV" => sample .yuv args
  | "toYUV" => convert .yuv args
  | "toRGB" => convert .rgb args
  | "print" => return .operation (.print (← source "print" args[0]?))
  | _ =>
    match Comparison.ofName? name with
    | some cmp => compare cmp args
    | none =>
      match MathFunction.ofName? name with
      | some f => call f args
      | none => throw (.unknownOperation name)

/-- An instruction by its name and its operands. -/
def instruction (name : String) (args : List Argument) : Build Instruction := do
  let ins ← instructionOf name args
  require (args.length ≤ ins.operandCount) (.unsupportedOperands ins.name .tooMany)
  return ins

end Build

namespace Program

/-- The program with an instruction at its end. It has to be sealed again. -/
def append (p : Program) (ins : Instruction) : Program :=
  { p with
    instructions := p.instructions.push ins
    hasBranches := p.hasBranches || ins.isBranch
    isSealed := false }

/-- Appends an instruction and answers its number, counted from one. -/
def push (p : Program) (name : String) (args : List Argument) : Outcome Nat :=
  if p.isInvalid then .refuse .invalidProgram p
  else
    match (Build.instruction name args).run p with
    | (.ok ins, q) => .ok (q.length + 1) (q.append ins)
    | (.error e, q) => .fail e q

end Program

end Shading
