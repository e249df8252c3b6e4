import Shading.Program.Basic

/- What is checked before a program runs. Sealing checks in one pass, in the order of the
   program, that its blocks are balanced and its fixed jumps stay inside it, with
   the number of blocks that are open. Uniforms are slots that the host fills
   before a pass, in the order of their declaration, up to the first that the host
   has no value for; then every jump through a uniform has to stay inside the
   program. Programs count their instructions from one; the machine counts from
   zero. -/
namespace Shading

/-! ## Jump targets as values -/

/-- The whole number that a scalar holds, if it is an integer or a whole float. -/
def Value.whole? : Value → Option Int
  | .int i => some i.toInt
  | .float s => if Single.isWhole s then some (Single.truncate s) else none
  | _ => none

/-- The index of the instruction whose number a value holds, in a program of some
length. -/
def jumpIndex? (value : Value) (length : Nat) : Option Nat :=
  match value.whole? with
  | some target => if 1 ≤ target ∧ target ≤ length then some (target - 1).toNat else none
  | none => none

/-! ## Sealing -/

/-- Checks instructions that follow `depth` open blocks in a program of some
length. -/
def checkBlocks (length : Nat) : Nat → List Instruction → Except ProgramError Unit
  | 0, [] => .ok ()
  | _ + 1, [] => .error .unbalancedBranches
  | depth, .ifThen _ :: rest => checkBlocks length (depth + 1) rest
  | 0, .elseIf _ :: _ | 0, .otherwise :: _ | 0, .endIf :: _ => .error .unbalancedBranches
  | depth + 1, .elseIf _ :: rest | depth + 1, .otherwise :: rest =>
    checkBlocks length (depth + 1) rest
  | depth + 1, .endIf :: rest => checkBlocks length depth rest
  | depth, .goto (.index i) :: rest =>
    if i < length then checkBlocks length depth rest
    else .error (.badJumpTarget (i + 1) length)
  | depth, .goto (.uniform _) :: rest | depth, .operation _ :: rest | depth, .discard :: rest =>
    checkBlocks length depth rest

/-- Checks the whole program. -/
def Program.checkStructure (p : Program) : Except ProgramError Unit :=
  checkBlocks p.length 0 p.instructions.toList

/-- Checks the program and lets it run. -/
def Program.seal (p : Program) : Outcome Unit :=
  if p.isInvalid then .refuse .invalidProgram p
  else
    match p.checkStructure with
    | .error e => .fail e p
    | .ok () =>
      .ok () { p with
        hasBranches := p.instructions.any Instruction.isBranch
        isSealed := true }

/-! ## Uniforms -/

/-- Values by name, without the dot of a uniform. -/
abbrev UniformSource : Type := String → Option Value

namespace Declaration

/-- The name under which the host is asked. -/
def hostName (d : Declaration) : String := String.ofList (d.name.toList.dropWhile (· == '.'))

end Declaration

namespace Program

/-- Fills the slots of some declarations, each with its number, and names the
first uniform that has no value. -/
def fillUniforms (source : UniformSource) :
    List (Declaration × Nat) → Registers → Registers × Option String
  | [], r => (r, none)
  | (d, i) :: rest, r =>
    if d.isUniform then
      match source d.hostName with
      | some value => fillUniforms source rest (r.store i value)
      | none => (r, some d.name)
    else fillUniforms source rest r

/-- The error of the first jump through a uniform that leaves the program. -/
def badUniformJump? (p : Program) : List Instruction → Option ProgramError
  | [] => none
  | .goto (.uniform i) :: rest =>
    let value := (p.registers.slot? i).getD default
    if (jumpIndex? value p.length).isNone then
      some (.badJumpTarget (Single.truncate value.toFloat) p.length)
    else p.badUniformJump? rest
  | _ :: rest => p.badUniformJump? rest

/-- Fills every uniform from the host. -/
def updateUniforms (p : Program) (source : UniformSource) : Outcome Unit :=
  if p.isInvalid then .refuse .invalidProgram p
  else
    let filled := fillUniforms source p.declarations.toList.zipIdx p.registers
    let q := { p with registers := filled.1 }
    match filled.2 with
    | some name => .fail (.unknownUniform name) q
    | none =>
      match q.badUniformJump? q.instructions.toList with
      | some e => .fail e q
      | none => .ok () q

end Program

end Shading
