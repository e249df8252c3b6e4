import Shading.Execution.Machine

/- Running a program for one invocation: what is touched, what counts and what is
   reported. Only a program that is sealed and not invalid runs; a fault on the
   way makes it invalid. -/
namespace Shading

variable {ι : Type} [Invocation ι]

/-- What became of an invocation: whether it counts, the invocation and its
registers afterwards, the program, which a fault makes invalid, and the
reports. -/
structure Execution (ι : Type) where
  isValid : Bool
  invocation : ι
  registers : Registers
  program : Program
  events : Array Event

namespace Program

/-- Runs the program for an invocation on a register file. A program that may not
run touches nothing. -/
def execute (p : Program) (i : ι) (r : Registers) : Execution ι :=
  if p.isRunnable then
    let run := p.run ⟨i, r, #[]⟩
    let marked := match run.ending with
      | .faulted reason => p.invalidate reason
      | _ => (p, #[])
    { isValid := run.ending == .completed && Invocation.isAccepted run.state.invocation
      invocation := run.state.invocation
      registers := run.state.registers
      program := marked.1
      events := run.state.events ++ marked.2 }
  else ⟨false, i, r, p, #[]⟩

/-- Runs the program for an invocation on its canonical registers. -/
def executeInPlace (p : Program) (i : ι) : Execution ι :=
  let done := p.execute i p.registers
  { done with program := { done.program with registers := done.registers } }

end Program

end Shading
