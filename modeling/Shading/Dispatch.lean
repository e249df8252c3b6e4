import Shading.Execution
import Shading.ThreadStorage

/- Passes: one program run for a batch of items. The batch is cut into spans, and
   every span is worked off by one thread from front to back on the registers of
   that thread. Which thread takes which span, and when, is a schedule.

   One thread alone takes the spans from the last to the first, because the work
   that is queued last is taken first. -/
namespace Shading

/-- A stretch of a batch. -/
structure Span where
  start : Nat
  size : Nat
  deriving DecidableEq, Repr

/-- A batch of some length cut into spans of a size, at least one; the last may be
shorter. -/
def spans (length size : Nat) : List Span :=
  let size := max size 1
  (List.range ((length + size - 1) / size)).map fun i =>
    ⟨i * size, min size (length - i * size)⟩

/-- What a pass has done so far: the program, which a fault makes invalid, the
items, how many of them count, and the reports. -/
structure Pass (ι : Type) where
  program : Program
  items : Array ι
  valid : Nat
  events : Array Event

namespace Pass

variable {ι : Type} [Invocation ι]

/-- A pass that has not begun. -/
def start (p : Program) (items : Array ι) : Pass ι := ⟨p, items, 0, #[]⟩

/-- Runs the program for one item. -/
def runItem (state : Pass ι × Registers) (index : Nat) : Pass ι × Registers :=
  let (pass, r) := state
  match pass.items[index]? with
  | none => (pass, r)
  | some item =>
    let done := pass.program.execute item r
    ({ program := done.program
       items := pass.items.setIfInBounds index done.invocation
       valid := if done.isValid then pass.valid + 1 else pass.valid
       events := pass.events ++ done.events }, done.registers)

/-- Runs the program for the items of a span, in order. -/
def runSpan (pass : Pass ι) (span : Span) (r : Registers) : Pass ι × Registers :=
  (List.range' span.start span.size).foldl runItem (pass, r)

/-- Works off a schedule: spans, each with the thread that takes it. -/
def runSchedule (canonical : Registers) :
    List (Span × Nat) → Pass ι × ThreadStorage → Pass ι × ThreadStorage
  | [], state => state
  | (span, thread) :: rest, (pass, storage) =>
    runSchedule canonical rest (storage.span canonical thread (pass.runSpan span))

end Pass

/-- A finished pass with the storage it leaves. -/
structure Dispatched (ι : Type) where
  pass : Pass ι
  storage : ThreadStorage

namespace Program

variable {ι : Type} [Invocation ι]

/-- Runs the program for one invocation on the snapshot of a thread. -/
def executeOn (p : Program) (storage : ThreadStorage) (thread : Nat) (i : ι) :
    Execution ι × ThreadStorage :=
  storage.span p.registers thread fun r =>
    let done := p.execute i r
    (done, done.registers)

/-- Runs a pass by a schedule. The threads are readied before and cleared after. -/
def dispatchBy (p : Program) (storage : ThreadStorage) (threads : Nat)
    (schedule : List (Span × Nat)) (items : Array ι) : Dispatched ι :=
  let ready := (List.range threads).foldl (fun st t => st.ready p.registers t) storage
  let (pass, used) := Pass.runSchedule p.registers schedule (Pass.start p items, ready)
  ⟨pass, (List.range threads).foldl ThreadStorage.clear used⟩

/-- Runs a pass in which the first thread takes every span, the last one first. -/
def dispatch (p : Program) (storage : ThreadStorage) (threads size : Nat) (items : Array ι) :
    Dispatched ι :=
  p.dispatchBy storage (max threads 1)
    ((spans items.size size).reverse.map fun span => (span, 0)) items

end Program

end Shading
