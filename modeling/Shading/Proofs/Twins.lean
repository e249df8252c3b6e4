import Mathlib.Logic.Function.Defs
import Shading.Proofs.Wrapping

/- Programs that know their variables by other numbers. Two register files may hold the same
   values under different numbers, the second perhaps some more (`Registers.Renumbers`).
   States with such files cannot be told apart by an instruction and its image under the
   other numbers (`Instruction.inStep_renumber`), because the numbers are not confused
   with each other. Of the slots that the first program does not know the second may keep
   some as they are, which a jump may rely on (`Instruction.InStep.keeping`). So executions
   come to the same, but for the numbers (`Program.InStep.execute`). -/
namespace Shading

/-! ## Register files -/

/-- The second register file holds what the first does, under other numbers, and the same
caches. -/
structure Registers.Renumbers (number : Nat → Nat) (r r' : Registers) : Prop where
  slots : ∀ i, r'.slot? (number i) = r.slot? i
  anchors : r'.anchors = r.anchors

namespace Registers.Renumbers

variable {number : Nat → Nat} {r r' : Registers}

/-- Under the same numbers it is the same file. -/
theorem eq (h : r.Renumbers id r') : r' = r := by
  obtain ⟨slots, anchors⟩ := r
  obtain ⟨slots', anchors'⟩ := r'
  obtain rfl : slots' = slots := Array.ext_getElem? h.slots
  obtain rfl : anchors' = anchors := h.anchors
  rfl

theorem lt_iff (h : r.Renumbers number r') (i : Nat) :
    number i < r'.slots.size ↔ i < r.slots.size := by
  have hslot : r'.slots[number i]? = r.slots[i]? := h.slots i
  have hsize : r'.slots.size ≤ number i ↔ r.slots.size ≤ i := by
    rw [← Array.getElem?_eq_none_iff, hslot, Array.getElem?_eq_none_iff]
  omega

theorem store (h : r.Renumbers number r') (hnumber : Function.Injective number) (i : Nat)
    (value : Value) : (r.store i value).Renumbers number (r'.store (number i) value) where
  slots j := by
    simp only [Registers.slot?_store, hnumber.eq_iff, h.lt_iff, h.slots]
  anchors := h.anchors

theorem storeAnchor (h : r.Renumbers number r') (id : Nat) (cache : AnchorCache) :
    (r.storeAnchor id cache).Renumbers number (r'.storeAnchor id cache) where
  slots := h.slots
  anchors := by rw [Registers.storeAnchor, Registers.storeAnchor, h.anchors]

/-- A fresh slot at the end of each. -/
theorem addSlot (h : r.Renumbers number r') (hnumber : Function.Injective number)
    (hnext : number r.slots.size = r'.slots.size) :
    r.addSlot.Renumbers number r'.addSlot where
  slots i := by
    have hend : number i = r'.slots.size ↔ i = r.slots.size := by
      rw [← hnext, hnumber.eq_iff]
    simp only [slot?, Registers.addSlot, Array.getElem?_push, hend]
    split
    · rfl
    · exact h.slots i
  anchors := h.anchors

theorem addAnchor (h : r.Renumbers number r') : r.addAnchor.Renumbers number r'.addAnchor where
  slots := h.slots
  anchors := by rw [Registers.addAnchor, Registers.addAnchor, h.anchors]

end Registers.Renumbers

/-! ## States -/

variable {ι : Type} [Invocation ι] {p q : Program} {number : Nat → Nat}

/-- Two states that differ in the numbers of their slots. -/
structure State.Renumbers (number : Nat → Nat) (s t : State ι) : Prop where
  invocation : s.invocation = t.invocation
  registers : s.registers.Renumbers number t.registers
  events : s.events = t.events

namespace State.Renumbers

variable {s t : State ι}

theorem current (h : s.Renumbers number t) (place : Place) :
    t.current (place.renumber number) = s.current place := by
  cases place with
  | builtin b => simp only [Place.renumber, State.current, h.invocation]
  | slot i => simp only [Place.renumber, State.current, h.registers.slots]

theorem update (h : s.Renumbers number t) (hnumber : Function.Injective number) (place : Place)
    (g : Value → Value) :
    (s.update place g).Renumbers number (t.update (place.renumber number) g) := by
  rw [State.update, State.update, h.current]
  cases place with
  | builtin b => exact ⟨congrArg (Invocation.store · b _) h.invocation, h.registers, h.events⟩
  | slot i => exact ⟨h.invocation, h.registers.store hnumber i _, h.events⟩

theorem read (h : s.Renumbers number t) (hpq : p.SameResources q) (src : Source) :
    (src.read p s).1 = ((src.renumber number).read q t).1 ∧
      (src.read p s).2.Renumbers number ((src.renumber number).read q t).2 := by
  rw [Source.read_congr hpq]
  match src with
  | .literal value => exact ⟨rfl, h⟩
  | .attribute id =>
    refine ⟨?_, h⟩
    simp only [Source.renumber, Source.read, h.invocation]
  | .name ⟨.builtin b, mask⟩ =>
    refine ⟨?_, h⟩
    simp only [Source.renumber, Reference.renumber, Place.renumber, Source.read, readName?,
      h.invocation, Reference.lanes]
  | .name ⟨.slot i, mask⟩ =>
    refine ⟨?_, h⟩
    simp only [Source.renumber, Reference.renumber, Place.renumber, Source.read, readName?,
      h.registers.slots, Reference.lanes, Place.lanes]
  | .interpolated id =>
    have hcache : t.registers.anchor? id = s.registers.anchor? id := by
      rw [Registers.anchor?, Registers.anchor?, h.registers.anchors]
    simp only [Source.renumber, Source.read, hcache, h.invocation]
    split
    · exact ⟨rfl, rfl, h.registers.storeAnchor id _, h.events⟩
    · exact ⟨rfl, h⟩

theorem test (h : s.Renumbers number t) (hpq : p.SameResources q) (c : Condition) :
    (c.test p s).1 = ((c.renumber number).test q t).1 ∧
      (c.test p s).2.Renumbers number ((c.renumber number).test q t).2 := by
  obtain ⟨hvalue, hstate⟩ := h.read hpq c.rhs
  refine ⟨?_, ?_⟩
  · have hlhs : t.readDestination (c.lhs.renumber number) = s.readDestination c.lhs := by
      have hlanes : (c.lhs.renumber number).lanes = c.lhs.lanes := by
        obtain ⟨⟨place, mask⟩, _, _⟩ := c
        cases place <;> rfl
      rw [State.readDestination, State.readDestination, hlanes, Reference.renumber, h.current]
    unfold Condition.test
    rcases hx : c.rhs.read p s with ⟨x, s'⟩
    rcases hy : (c.rhs.renumber number).read q t with ⟨y, t'⟩
    rw [hx, hy] at hvalue
    obtain rfl : x = y := hvalue
    simp only [Condition.renumber, hy, hlhs]
    cases x <;> rfl
  · rwa [Condition.test_state, Condition.test_state]

end State.Renumbers

/-! ## Instructions -/

namespace Instruction

variable {ins ins' : Instruction}

/-- No instruction tells states apart that differ in the numbers of their slots, if it is given
those numbers. -/
theorem inStep_renumber (hpq : p.SameResources q) (hlength : q.length = p.length)
    (hnumber : Function.Injective number) (ins : Instruction) :
    ins.InStep p q (State.Renumbers (ι := ι) number) (ins.renumber number) := by
  cases ins with
  | operation o =>
    have hmirrors : o.Mirrors p q number (State.Renumbers (ι := ι) number) := {
      texture? id := by rw [Program.texture?, Program.texture?, hpq.textures]
      matrix? id := by rw [Program.matrix?, Program.matrix?, hpq.matrices]
      color := hpq.color
      invocation h := h.invocation
      read src _ _ _ h := h.read hpq src
      update dst _ g _ _ h := h.update hnumber dst.place g
      report _ _ _ _ _ h :=
        ⟨h.invocation, h.registers, congrArg (Array.push · _) h.events⟩ }
    intro s t h
    exact hmirrors.run h
  | ifThen c | elseIf c => exact fun h => h.test hpq c
  | goto target =>
    intro s t h
    cases target with
    | index i =>
      rw [hlength]
      exact ⟨rfl, fun _ => rfl⟩
    | uniform v =>
      rw [hlength]
      simp [JumpTarget.renumber, JumpTarget.resolve?, JumpTarget.number, h.registers.slots]
  | discard | otherwise | endIf => trivial

/-- Instructions that do the same go on doing so while something is known that the second
program keeps. -/
theorem InStep.keeping {R : State ι → State ι → Prop} {P : State ι → Prop}
    (h : ins.InStep p q R ins') (hkeeps : q.Keeps P) (hins : ins' ∈ q.instructions) :
    ins.InStep p q (fun s t => R s t ∧ P t) ins' := by
  cases ins <;> cases ins' <;> try exact h.elim
  case operation.operation o o' =>
    exact fun ⟨hs, ht⟩ => ⟨h hs, hkeeps.operation o' _ hins ht⟩
  case ifThen.ifThen c c' =>
    exact fun ⟨hs, ht⟩ => ⟨(h hs).1, (h hs).2, hkeeps.test c' _ (.inl hins) ht⟩
  case elseIf.elseIf c c' =>
    exact fun ⟨hs, ht⟩ => ⟨(h hs).1, (h hs).2, hkeeps.test c' _ (.inr hins) ht⟩
  case goto.goto target target' => exact fun ⟨hs, _⟩ => h hs
  all_goals trivial

end Instruction

/-! ## Executions -/

/-- Two executions that differ in the numbers of the slots, and in the program. -/
structure Execution.Renumbers (number : Nat → Nat) (x y : Execution ι) : Prop where
  isValid : x.isValid = y.isValid
  invocation : x.invocation = y.invocation
  registers : x.registers.Renumbers number y.registers
  isInvalid : x.program.isInvalid = y.program.isInvalid
  events : x.events = y.events

/-- Programs that do the same to states that differ in the numbers of their slots come to the
same with an invocation. -/
theorem Program.InStep.execute {R : State ι → State ι → Prop} (h : p.InStep q R)
    (hR : ∀ {s t}, R s t → s.Renumbers number t) (hsealed : q.isSealed = p.isSealed)
    (hinvalid : q.isInvalid = p.isInvalid) {i : ι} {r r' : Registers}
    (hstart : R ⟨i, r, #[]⟩ ⟨i, r', #[]⟩) :
    (p.execute i r).Renumbers number (q.execute i r') := by
  have hmarked (reason : ProgramError) : (q.invalidate reason).2 = (p.invalidate reason).2 := by
    unfold Program.invalidate
    rw [hinvalid, h.length]
    split <;> rfl
  unfold Program.execute Program.isRunnable
  rw [hsealed, hinvalid]
  split
  · obtain ⟨hstate, hending⟩ := h.run hstart
    have hsame := hR hstate
    dsimp only
    rw [hending, hsame.invocation, hsame.events]
    refine ⟨rfl, rfl, hsame.registers, ?_, ?_⟩
    · split
      · rw [invalidate_isInvalid, invalidate_isInvalid]
      · exact hinvalid.symm
    · split
      · rw [hmarked]
      · rfl
  · exact ⟨rfl, rfl, (hR hstart).registers, hinvalid.symm, rfl⟩

end Shading
