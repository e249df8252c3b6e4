import Shading.Invocation
import Shading.Program.Basic

/- The state of a running invocation, and the two ways to it: reading sources and
   storing in destinations.

   A source may have no value: a slot that the register file lacks, an
   attribute outside its buffer or under a degenerate denominator. A
   destination always has one, a missing slot counting as the float zero. -/
namespace Shading

/-- What an invocation works on, and what it has reported. -/
structure State (ι : Type) where
  invocation : ι
  registers : Registers
  events : Array Event

/-- The lanes that a place shows without a swizzle. -/
def Place.lanes : Place → Mask
  | .builtin b => b.lanes
  | .slot _ => Mask.xyzq

/-- The lanes that a reference stands for. -/
def Reference.lanes (r : Reference) : Mask := r.mask.getD r.place.lanes

namespace State

variable {ι : Type} [Invocation ι]

/-- The value in a place. -/
def current (s : State ι) : Place → Value
  | .builtin b => Invocation.read s.invocation b
  | .slot i => (s.registers.slot? i).getD default

/-- Stores a value in a place. -/
def store (s : State ι) (place : Place) (value : Value) : State ι :=
  match place with
  | .builtin b => { s with invocation := Invocation.store s.invocation b value }
  | .slot i => { s with registers := s.registers.store i value }

/-- Replaces the value in a place by another made from it. -/
def update (s : State ι) (place : Place) (f : Value → Value) : State ι :=
  s.store place (f (s.current place))

/-- What a name reads as a source. -/
def readName? (s : State ι) (r : Reference) : Option Operand :=
  match r.place with
  | .builtin b => some ((Invocation.read s.invocation b).operand r.lanes)
  | .slot i => (s.registers.slot? i).map (Value.operand r.lanes)

/-- What a name reads as the left side of a condition. -/
def readDestination (s : State ι) (r : Reference) : Operand := (s.current r.place).operand r.lanes

/-- Gives the invocation up. -/
def discard (s : State ι) : State ι := { s with invocation := Invocation.discard s.invocation }

/-- Adds a report. -/
def report (s : State ι) (e : Event) : State ι := { s with events := s.events.push e }

end State

/-- What a source reads, and the state afterwards: reading an interpolated
attribute gathers its anchors. -/
def Source.read {ι : Type} [Invocation ι] (p : Program) (src : Source) (s : State ι) :
    Option Operand × State ι :=
  match src with
  | .name r => (s.readName? r, s)
  | .literal value => (some value, s)
  | .interpolated id =>
    match p.interpolated? id, s.registers.anchor? id with
    | some a, some cache =>
      let (v, cache) := Invocation.interpolate s.invocation a cache
      (v.map fun v => .vec v a.mask,
        { s with registers := s.registers.storeAnchor id cache })
    | _, _ => (none, s)
  | .attribute id =>
    ((p.attribute? id).bind fun a =>
      (Invocation.fetch s.invocation a).map fun v => .vec v a.mask, s)

end Shading
