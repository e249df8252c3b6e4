import Shading.Execution.Nesting
import Shading.Execution.Operation
import Shading.Program.Checks

/- The machine. A program without branches runs from front to back (`runLinear`).
   Otherwise the machine fetches one instruction after the other (`advance`),
   which the nesting lets it do or skip. Jumps leave the nesting as it is.

   Each fetch uses up one unit of a budget, skipped instructions included, and a
   run that needs more is cut off. Only jumps backward can get there. -/
namespace Shading

/-- How a run ends. -/
inductive Ending where
  | completed
  | discarded
  | faulted (reason : ProgramError)
  deriving DecidableEq, Repr

/-- The state at the end of a run, and how it ended. -/
structure Run (ι : Type) where
  state : State ι
  ending : Ending

/-- The machine between two instructions. -/
structure Cursor (ι : Type) where
  /-- The next instruction. -/
  position : Nat
  nesting : Nesting
  state : State ι

/-- What one instruction leads to. -/
inductive Advance (ι : Type) where
  | next (c : Cursor ι)
  | stop (r : Run ι)

/-- Where a jump goes in a program of some length, if it stays inside. -/
def JumpTarget.resolve? (target : JumpTarget) (length : Nat) (r : Registers) : Option Nat :=
  match target with
  | .index i => if i < length then some i else none
  | .uniform slot => jumpIndex? ((r.slot? slot).getD default) length

/-- The number by which a jump that leaves the program is reported. -/
def JumpTarget.number (target : JumpTarget) (r : Registers) : Int :=
  match target with
  | .index i => i + 1
  | .uniform slot =>
    match r.slot? slot with
    | some value => Single.truncate value.toFloat
    | none => 0

variable {ι : Type} [Invocation ι]

/-- Whether a condition holds, and the state after reading its sides. One whose
right side has no value does not hold. -/
def Condition.test (p : Program) (c : Condition) (s : State ι) : Bool × State ι :=
  let a := s.readDestination c.lhs
  match c.rhs.read p s with
  | (some b, s) => (c.cmp.holds a b, s)
  | (none, s) => (false, s)

/-- Gives an invocation up for a fault of the program. -/
def Run.fault (s : State ι) (reason : ProgramError) : Run ι := ⟨s.discard, .faulted reason⟩

namespace Program

/-- Runs instructions from front to back. -/
def runLinear (p : Program) : List Instruction → State ι → Run ι
  | [], s => ⟨s, .completed⟩
  | .operation o :: rest, s => p.runLinear rest (o.run p s)
  | .discard :: _, s => ⟨s.discard, .discarded⟩
  | _ :: rest, s => p.runLinear rest s

/-- What one instruction does to the machine. -/
def advance (p : Program) (ins : Instruction) (c : Cursor ι) : Advance ι :=
  let s := c.state
  let n := c.nesting
  let next (n : Nesting) (s : State ι) : Advance ι := .next ⟨c.position + 1, n, s⟩
  match ins with
  | .ifThen cond =>
    if n.isSkipping then next n.deepen s
    else
      let (holds, s) := cond.test p s
      next (n.enter holds) s
  | .elseIf cond =>
    if !n.isSkipping then next n.close s
    else if n.isPending then
      let (holds, s) := cond.test p s
      next (if holds then n.take else n) s
    else next n s
  | .otherwise =>
    if !n.isSkipping then next n.close s
    else if n.isPending then next n.take s
    else next n s
  | .endIf => next n.leave s
  | .goto target =>
    if n.isSkipping then next n s
    else
      match target.resolve? p.length s.registers with
      | some i => .next { c with position := i }
      | none => .stop (.fault s (.badJumpTarget (target.number s.registers) p.length))
  | .discard =>
    if n.isSkipping then next n s else .stop ⟨s.discard, .discarded⟩
  | .operation o =>
    if n.isSkipping then next n s else next n (o.run p s)

/-- How many instructions a run may fetch. -/
def stepLimit (p : Program) : Nat := 1024 * p.length

/-- Runs the machine for as many fetches as the budget allows. -/
def runBranching (p : Program) : Nat → Cursor ι → Run ι
  | budget, c =>
    match p.instructions[c.position]? with
    | none => ⟨c.state, .completed⟩
    | some ins =>
      match budget with
      | 0 => .fault c.state (.stepLimit p.stepLimit)
      | budget + 1 =>
        match p.advance ins c with
        | .next c => p.runBranching budget c
        | .stop r => r

/-- Runs the program from its first instruction. -/
def run (p : Program) (s : State ι) : Run ι :=
  if p.hasBranches then p.runBranching p.stepLimit ⟨0, Nesting.start, s⟩
  else p.runLinear p.instructions.toList s

end Program

end Shading
