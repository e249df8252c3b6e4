import Shading.Dispatch
import Shading.Program.Checks

/- The device: it keeps sealed programs under numbers that it never gives out twice,
   each with a thread storage of its own, and draws batches of fragments or
   vertices with them. A draw that names no program, a program of the other
   stage or one that may not run does nothing. -/
namespace Shading

/-- How many threads a device has, and how long its spans are. -/
structure DeviceConfig where
  threads : Nat
  span : Nat
  deriving DecidableEq, Repr

/-- The configuration with at least one thread and one item to a span. -/
def DeviceConfig.atLeastOne (c : DeviceConfig) : DeviceConfig := ⟨max c.threads 1, max c.span 1⟩

/-- Unless told otherwise, spans have 256 items. -/
instance : Inhabited DeviceConfig := ⟨1, 256⟩

/-- A program in the device. -/
structure DeviceEntry where
  program : Program
  storage : ThreadStorage

/-- A device: its entries by number, where a deleted one leaves a gap. -/
structure Device where
  config : DeviceConfig
  entries : Array (Option DeviceEntry)

/-- What became of creating a program: its number, the device, and the reports. -/
structure Creation where
  result : Except ProgramError Nat
  device : Device
  events : Array Event

/-- What became of a draw: how many items count, the items, the device, and the
reports. -/
structure Drawn (ι : Type) where
  count : Nat
  items : Array ι
  device : Device
  events : Array Event

namespace Device

/-- A device without programs. -/
def ofConfig (c : DeviceConfig) : Device := ⟨c.atLeastOne, #[]⟩

/-- The entry under a number. -/
def entry? (d : Device) (id : Nat) : Option DeviceEntry := d.entries[id]?.join

/-- The program under a number. -/
def program? (d : Device) (id : Nat) : Option Program := (d.entry? id).map DeviceEntry.program

/-- The device with an entry replaced. -/
def setEntry (d : Device) (id : Nat) (e : DeviceEntry) : Device :=
  { d with entries := d.entries.setIfInBounds id (some e) }

/-- The device with a program under a number replaced, if there is one. -/
def setProgram (d : Device) (id : Nat) (p : Program) : Device :=
  match d.entry? id with
  | some e => d.setEntry id { e with program := p }
  | none => d

/-- Takes a program in. One that is not sealed is sealed first, and is lost if that
fails. -/
def create (d : Device) (p : Program) : Creation :=
  let outcome := if p.isSealed then .ok () p else p.seal
  match outcome.result with
  | .ok () =>
    let e : DeviceEntry := ⟨outcome.program, ThreadStorage.ofThreads d.config.threads⟩
    ⟨.ok d.entries.size, { d with entries := d.entries.push (some e) }, outcome.events⟩
  | .error reason => ⟨.error reason, d, outcome.events⟩

/-- Deletes a program, and says whether there was one. -/
def delete (d : Device) (id : Nat) : Bool × Device :=
  ((d.entry? id).isSome, { d with entries := d.entries.setIfInBounds id none })

/-- Fills the uniforms of a program. -/
def updateUniforms (d : Device) (id : Nat) (source : UniformSource) :
    Except ProgramError Unit × Device × Array Event :=
  match d.program? id with
  | some p =>
    let outcome := p.updateUniforms source
    (outcome.result, d.setProgram id outcome.program, outcome.events)
  | none => (.error .invalidProgram, d, #[])

variable {ι : Type} [Invocation ι]

/-- Runs a pass over a batch with an entry. -/
def pass (d : Device) (id : Nat) (e : DeviceEntry) (items : Array ι) : Drawn ι :=
  let done := e.program.dispatch e.storage d.config.threads d.config.span items
  { count := done.pass.valid
    items := done.pass.items
    device := d.setEntry id ⟨done.pass.program, done.storage⟩
    events := done.pass.events }

/-- Draws a batch with a program of the stage of its items. -/
def draw (d : Device) (id : Nat) (items : Array ι) : Drawn ι :=
  match d.entry? id with
  | none => ⟨0, items, d, #[.unknownProgram]⟩
  | some e =>
    if e.program.stage ≠ Invocation.stage ι then
      ⟨0, items, d, #[.wrongStage e.program.stage]⟩
    else if e.program.isRunnable then d.pass id e items
    else ⟨0, items, d, #[]⟩

/-- Draws a batch of fragments on all processors. A program of the other stage is
not reported. -/
def drawParallel (d : Device) (id : Nat) (items : Array Fragment) : Drawn Fragment :=
  match d.entry? id with
  | none => ⟨0, items, d, #[.unknownProgram]⟩
  | some e =>
    if e.program.stage = .fragment ∧ e.program.isRunnable then d.pass id e items
    else ⟨0, items, d, #[]⟩

end Device

end Shading
