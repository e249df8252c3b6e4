import Shading.Execution

/- Instructions under other numbers. A program knows its variables by the numbers of their
   slots, and nothing that an operation does depends on which numbers those are: where
   reading a slot, and storing in it, does the same as with the slot that has its number
   in another program, the operation does the same in both (`Operation.Mirrors.run`). -/
namespace Shading

variable (number : Nat → Nat)

/-- A place whose slot has another number. -/
def Place.renumber : Place → Place
  | .builtin b => .builtin b
  | .slot i => .slot (number i)

/-- A reference to a place under another number. -/
def Reference.renumber (r : Reference) : Reference := ⟨r.place.renumber number, r.mask⟩

/-- A source that reads a slot under another number. -/
def Source.renumber : Source → Source
  | .name r => .name (r.renumber number)
  | .literal value => .literal value
  | .interpolated id => .interpolated id
  | .attribute id => .attribute id

/-- An operation on slots under other numbers. -/
def Operation.renumber : Operation → Operation
  | .arith op dst src => .arith op (dst.renumber number) (src.renumber number)
  | .transform id dst => .transform id (dst.renumber number)
  | .compare cmp dst lhs rhs =>
    .compare cmp (dst.renumber number) (lhs.renumber number) (rhs.renumber number)
  | .sample id model dst coords =>
    .sample id model (dst.renumber number) (coords.renumber number)
  | .call f dst src second =>
    .call f (dst.renumber number) (src.renumber number) (second.map (Source.renumber number))
  | .convert model dst src => .convert model (dst.renumber number) (src.renumber number)
  | .print src => .print (src.renumber number)

/-- A condition on slots under other numbers. -/
def Condition.renumber (c : Condition) : Condition :=
  ⟨c.lhs.renumber number, c.cmp, c.rhs.renumber number⟩

/-- A jump whose uniform has another number. What it jumps to does not. -/
def JumpTarget.renumber : JumpTarget → JumpTarget
  | .index i => .index i
  | .uniform slot => .uniform (number slot)

/-- An instruction on slots under other numbers. -/
def Instruction.renumber : Instruction → Instruction
  | .operation o => .operation (o.renumber number)
  | .discard => .discard
  | .ifThen c => .ifThen (c.renumber number)
  | .elseIf c => .elseIf (c.renumber number)
  | .otherwise => .otherwise
  | .endIf => .endIf
  | .goto target => .goto (target.renumber number)

/-! ## The same numbers -/

@[simp] theorem Place.renumber_id (place : Place) : place.renumber id = place := by
  cases place <;> rfl

@[simp] theorem Reference.renumber_id (r : Reference) : r.renumber id = r := by
  simp [renumber]

@[simp] theorem Source.renumber_id (src : Source) : src.renumber id = src := by
  cases src <;> simp [renumber]

@[simp] theorem Operation.renumber_id (o : Operation) : o.renumber id = o := by
  cases o with
  | call f dst src second => cases second <;> simp [renumber]
  | _ => simp [renumber]

@[simp] theorem Instruction.renumber_id (ins : Instruction) : ins.renumber id = ins := by
  cases ins with
  | goto target => cases target <;> rfl
  | _ => simp [renumber, Condition.renumber]

/-! ## Operations under other numbers -/

variable {number} {ι : Type} [Invocation ι] {p q : Program}

namespace Operation

/-- Reading the sources of an operation, storing in its destination and reporting take related
states to related states, and related states read the same, where the second program knows
the slots by other numbers. -/
structure Mirrors (p q : Program) (number : Nat → Nat) (o : Operation)
    (R : State ι → State ι → Prop) : Prop where
  texture? : ∀ id, q.texture? id = p.texture? id
  matrix? : ∀ id, q.matrix? id = p.matrix? id
  color : q.color = p.color
  invocation : ∀ {s t}, R s t → s.invocation = t.invocation
  read : ∀ src ∈ o.sources, ∀ {s t}, R s t →
    (src.read p s).1 = ((src.renumber number).read q t).1 ∧
      R (src.read p s).2 ((src.renumber number).read q t).2
  update : ∀ dst, o.destination? = some dst → ∀ g {s t}, R s t →
    R (s.update dst.place g) (t.update (dst.place.renumber number) g)
  report : ∀ x y value {s t}, R s t →
    R (s.report (.printed x y value)) (t.report (.printed x y value))

namespace Mirrors

variable {o : Operation} {R : State ι → State ι → Prop} {s t : State ι}

theorem andThen (h : o.Mirrors p q number R) {src : Source} (hsrc : src ∈ o.sources) (hs : R s t)
    {use use' : Operand → State ι → State ι}
    (huse : ∀ value {s t}, R s t → R (use value s) (use' value t)) :
    R (src.andThen p s use) ((src.renumber number).andThen q t use') := by
  obtain ⟨hvalue, hstate⟩ := h.read src hsrc hs
  unfold Source.andThen
  rcases hx : src.read p s with ⟨x, s'⟩
  rcases hy : (src.renumber number).read q t with ⟨y, t'⟩
  rw [hx, hy] at hvalue hstate
  obtain rfl : x = y := hvalue
  cases x with
  | none => exact hstate
  | some value => exact huse value hstate

theorem storeCall (h : o.Mirrors p q number R) {f : MathFunction} {dst : Reference}
    (hdst : o.destination? = some dst) {a : Operand} {second : Option Operand} (hs : R s t) :
    R (storeCall f dst a second s) (storeCall f (dst.renumber number) a second t) := by
  unfold Operation.storeCall
  split
  · exact h.update dst hdst _ hs
  · split
    · exact h.update dst hdst _ hs
    · exact hs

/-- An operation does the same under other numbers. -/
theorem run (h : o.Mirrors p q number R) (hs : R s t) :
    R (o.run p s) ((o.renumber number).run q t) := by
  cases o with
  | arith op dst src =>
    exact h.andThen (by simp [sources]) hs fun _ _ _ hs => h.update dst rfl _ hs
  | transform id dst =>
    simp only [Operation.run, renumber, h.matrix?]
    split
    · exact h.update dst rfl _ hs
    · exact hs
  | compare cmp dst lhs rhs =>
    obtain ⟨hlhs, hs'⟩ := h.read lhs (by simp [sources]) hs
    obtain ⟨hrhs, hs''⟩ := h.read rhs (by simp [sources]) hs'
    simp only [Operation.run, renumber, hlhs, hrhs]
    split
    · exact h.update dst rfl _ hs''
    · exact hs''
  | sample id model dst coords =>
    simp only [Operation.run, renumber, h.texture?]
    split
    · exact h.andThen (by simp [sources]) hs fun _ _ _ hs => h.update dst rfl _ hs
    · exact hs
  | call f dst src second =>
    refine h.andThen (by simp [sources]) hs fun a _ _ hs => ?_
    cases second with
    | none => exact h.storeCall rfl hs
    | some src' =>
      exact h.andThen (by simp [sources]) hs fun b _ _ hs => h.storeCall rfl hs
  | convert model dst src =>
    simp only [Operation.run, renumber, h.color]
    exact h.andThen (by simp [sources]) hs fun _ _ _ hs => h.update dst rfl _ hs
  | print src =>
    obtain ⟨hvalue, hs'⟩ := h.read src (by simp [sources]) hs
    simp only [Operation.run, renumber, h.invocation hs, hvalue]
    exact h.report _ _ _ hs'

end Mirrors

end Operation

end Shading
