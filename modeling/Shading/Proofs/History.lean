import Shading.Program.Checks
import Shading.Proofs.Building
import Shading.Proofs.Frame

/- What a program can become. A host edits a program in any order and as often as
   it likes, runs it on its own registers in between, and goes on after errors.
   Whatever it does, the program stays well-formed (`Program.edit_wellFormed`),
   so the machine finds every slot, cache and resource that an instruction
   names. -/
namespace Shading

namespace Program

/-- What a host does to a program. -/
inductive Edit where
  | push (name : String) (args : List Argument)
  | seal
  | reset
  | withColor (color : ColorTransform)
  | updateUniforms (source : UniformSource)
  | invalidate (reason : ProgramError)
  | runFragment (f : Fragment)
  | runVertex (v : Vertex)

/-- The program after an edit, if it succeeded or failed. -/
def edit (p : Program) : Edit → Program
  | .push name args => (p.push name args).program
  | .seal => p.seal.program
  | .reset => p.reset
  | .withColor color => p.withColor color
  | .updateUniforms source => (p.updateUniforms source).program
  | .invalidate reason => (p.invalidate reason).1
  | .runFragment f => (p.executeInPlace f).program
  | .runVertex v => (p.executeInPlace v).program

/-- The programs that come of a new one by edits. -/
inductive Reachable : Program → Prop
  | new (stage : Stage) : Reachable (new stage)
  | edit {p : Program} (h : Reachable p) (e : Edit) : Reachable (p.edit e)

/-- A program whose tables keep step, whose instructions fit it, whose caches are
coherent, and whose flags tell the truth about its instructions. -/
structure WellFormed (p : Program) : Prop where
  tables : p.Tables
  fits : ∀ ins ∈ p.instructions, ins.Fits p
  coherent : ∀ id a c, p.interpolated? id = some a → p.registers.anchor? id = some c →
    a.Coherent c
  branches : p.hasBranches = p.instructions.any Instruction.isBranch
  structured : p.isSealed = true → p.checkStructure = .ok ()

variable {p q : Program}

theorem new_wellFormed (stage : Stage) : (new stage).WellFormed where
  tables := tables_new stage
  fits := by simp [new]
  coherent := by
    intro id a c ha
    simp [new, interpolated?] at ha
  branches := by simp [new]
  structured := by simp [new]

/-! ## Registers through runs and uniforms -/

theorem fillUniforms_suits (source : UniformSource) :
    ∀ (l : List (Declaration × Nat)) {r : Registers}, r.Suits p →
      (fillUniforms source l r).1.Suits p := by
  intro l
  induction l with
  | nil => exact fun h => h
  | cons head l ih =>
    obtain ⟨d, i⟩ := head
    intro r h
    simp only [fillUniforms]
    split
    · split
      · exact ih (h.store i _)
      · exact h
    · exact ih h

section

variable {ι : Type} [Invocation ι]

/-- A register file has as many slots and caches after an invocation as before, and the
caches are as coherent. -/
theorem execute_sound [CacheBlind ι] (i : ι) {r : Registers} {m n : Nat} (h : r.Sound p m n) :
    (p.execute i r).registers.Sound p m n := by
  unfold execute
  split
  · exact (keeps_sound m n).run (s := ⟨i, r, #[]⟩) h
  · exact h

theorem execute_suits [CacheBlind ι] (i : ι) {r : Registers} (h : r.Suits p) :
    (p.execute i r).registers.Suits p :=
  Registers.suits_iff.2 (execute_sound i (Registers.suits_iff.1 h))

/-- To mark a program invalid raises its flag and does nothing else to it. -/
theorem invalidate_program (p : Program) (reason : ProgramError) :
    (p.invalidate reason).1 = { p with isInvalid := true } := by
  unfold invalidate
  split
  · next hinvalid => rw [← hinvalid]
  · rfl

theorem invalidate_isInvalid (reason : ProgramError) :
    (p.invalidate reason).1.isInvalid = true := by
  rw [invalidate_program]

theorem invalidate_withRegisters (reason : ProgramError) (r : Registers) :
    { (p.invalidate reason).1 with registers := r } =
      (invalidate { p with registers := r } reason).1 := by
  rw [invalidate_program, invalidate_program]

/-- An invocation leaves the program alone, except that a fault makes it invalid. -/
theorem execute_program (i : ι) (r : Registers) :
    (p.execute i r).program = p ∨
      ∃ reason, (p.execute i r).program = (p.invalidate reason).1 := by
  unfold execute
  split
  · dsimp only
    split
    · next reason _ => exact .inr ⟨reason, rfl⟩
    · exact .inl rfl
  · exact .inl rfl

end

namespace WellFormed

/-- A slot that is not to be stored in is the destination of no instruction. -/
theorem place_ne (h : p.WellFormed) {v : Nat} (hv : ¬(Place.slot v).Writable p) :
    ∀ ins ∈ p.instructions, ∀ dst, ins.destination? = some dst → dst.place ≠ .slot v := by
  intro ins hins dst hdst hslot
  have hwritable := ((h.fits ins hins).isTarget hdst).writable
  exact hv (hslot ▸ hwritable)

theorem suits (h : p.WellFormed) : p.registers.Suits p where
  slots := h.tables.slots
  anchors := h.tables.anchors
  coherent := h.coherent

/-! ## Changes that keep a program well-formed -/

/-- New caches are empty, hence coherent. -/
theorem grow (h : p.WellFormed) (hq : p.Grows q) (ht : q.Tables) : q.WellFormed where
  tables := ht
  fits := by
    rw [hq.instructions]
    exact fun ins hins => (h.fits ins hins).mono hq.toOffers
  coherent := by
    intro id a c ha hc
    obtain ⟨n, hn⟩ := hq.anchors
    simp only [Registers.anchor?, hn, Array.getElem?_append] at hc
    split at hc
    -- an old cache, of an attribute that is still where it was
    · have hold : p.registers.Coherent q :=
        Registers.Coherent.mono h.coherent (Nat.le_of_eq h.tables.anchors) hq.interpolated
      exact hold id a c ha hc
    · rw [Array.getElem?_replicate] at hc
      split at hc
      · exact Option.some.inj hc ▸ Attribute.coherent_empty
      · simp at hc
  branches := by rw [hq.hasBranches, hq.instructions, h.branches]
  structured := by
    rw [hq.isSealed, checkStructure, length, hq.instructions]
    exact h.structured

/-- What happens to the flags and the colors of a program is of no account. -/
theorem invalidate (h : p.WellFormed) (reason : ProgramError) :
    (p.invalidate reason).1.WellFormed := by
  rw [invalidate_program]
  exact ⟨{ h.tables with }, fun ins hins => (h.fits ins hins).mono { Offers.refl p with },
    h.coherent, h.branches, h.structured⟩

theorem withColor (h : p.WellFormed) (color : ColorTransform) : (p.withColor color).WellFormed :=
  ⟨{ h.tables with }, fun ins hins => (h.fits ins hins).mono { Offers.refl p with },
    h.coherent, h.branches, h.structured⟩

theorem withRegisters (h : p.WellFormed) {r : Registers} (hr : r.Suits p) :
    WellFormed { p with registers := r } where
  tables := { h.tables with slots := hr.slots, anchors := hr.anchors }
  fits ins hins := (h.fits ins hins).mono { Offers.refl p with }
  coherent := hr.coherent
  branches := h.branches
  structured := h.structured

theorem append (h : p.WellFormed) {ins : Instruction} (hins : ins.Fits p) :
    (p.append ins).WellFormed where
  tables := { h.tables with }
  fits := by
    intro other hother
    have hp : p.Offers (p.append ins) := { Offers.refl p with }
    rcases Array.mem_push.1 hother with hold | rfl
    · exact (h.fits other hold).mono hp
    · exact hins.mono hp
  coherent := h.coherent
  branches := by rw [Program.append, h.branches, Array.any_push]
  structured := by simp [Program.append]

theorem fail {α : Type} (h : p.WellFormed) (e : ProgramError) :
    (Outcome.fail e p : Outcome α).program.WellFormed :=
  h.invalidate e

/-! ## The edits -/

/-- A pushed instruction fits. A refused one leaves behind what was declared for the
operands before the one that does not. -/
theorem push (h : p.WellFormed) (name : String) (args : List Argument) :
    (p.push name args).program.WellFormed := by
  unfold Program.push
  split
  · exact h
  · have hmeets : Build.Meets p (Build.instruction name args) fun ins q => ins.Fits q :=
      Build.instruction_meets
    obtain ⟨htables, hgrows, hfits⟩ := hmeets p (.refl p) h.tables
    rcases hrun : (Build.instruction name args).run p with ⟨result, q⟩
    rw [hrun] at htables hgrows hfits
    have hq := h.grow hgrows htables
    cases result with
    | error e => exact hq.fail e
    | ok ins => exact hq.append (hfits ins rfl)

theorem sealed (h : p.WellFormed) : p.seal.program.WellFormed := by
  unfold Program.seal
  split
  · exact h
  · split
    · next e _ => exact h.fail e
    · next hcheck =>
      exact ⟨{ h.tables with }, fun ins hins => (h.fits ins hins).mono { Offers.refl p with },
        h.coherent, rfl, fun _ => hcheck⟩

theorem updateUniforms (h : p.WellFormed) (source : UniformSource) :
    (p.updateUniforms source).program.WellFormed := by
  have hq := h.withRegisters (fillUniforms_suits source p.declarations.toList.zipIdx h.suits)
  unfold Program.updateUniforms
  split
  · exact h
  · dsimp only
    split
    · exact hq.fail _
    · split
      · exact hq.fail _
      · exact hq

theorem executeInPlace {ι : Type} [Invocation ι] [CacheBlind ι] (h : p.WellFormed) (i : ι) :
    (p.executeInPlace i).program.WellFormed := by
  have hr := h.withRegisters (execute_suits i h.suits)
  rcases execute_program i p.registers with hsame | ⟨reason, hmarked⟩
  · rw [Program.executeInPlace, hsame]
    exact hr
  · rw [Program.executeInPlace, hmarked, invalidate_withRegisters]
    exact hr.invalidate reason

end WellFormed

/-- One edit keeps a program well-formed. -/
theorem edit_wellFormed (h : p.WellFormed) (e : Edit) : (p.edit e).WellFormed := by
  match e with
  | .push name args => exact h.push name args
  | .seal => exact h.sealed
  | .reset => exact (new_wellFormed p.stage).withColor p.color
  | .withColor color => exact h.withColor color
  | .updateUniforms source => exact h.updateUniforms source
  | .invalidate reason => exact h.invalidate reason
  | .runFragment f => exact h.executeInPlace f
  | .runVertex v => exact h.executeInPlace v

/-! ## What is there stays -/

/-- What the second program is made of goes on where the first ends. -/
structure Continues (p q : Program) : Prop extends Offers p q where
  code : Longer p.instructions q.instructions

namespace Continues

theorem refl (p : Program) : p.Continues p := ⟨.refl p, .refl _⟩

theorem trans {r : Program} (h : p.Continues q) (h' : q.Continues r) : p.Continues r :=
  ⟨h.toOffers.trans h'.toOffers, h.code.trans h'.code⟩

theorem invalidate (h : p.Continues q) (reason : ProgramError) :
    p.Continues (q.invalidate reason).1 := by
  rw [invalidate_program]
  exact { h with }

theorem withRegisters (h : p.Continues q) (r : Registers) :
    p.Continues { q with registers := r } :=
  { h with }

theorem append (h : p.Continues q) (ins : Instruction) : p.Continues (q.append ins) :=
  { h with code := h.code.trans (.push _ ins) }

theorem getElem? (h : p.Continues q) {n : Nat} {ins : Instruction}
    (hins : p.instructions[n]? = some ins) : q.instructions[n]? = some ins :=
  h.code.getElem? hins

end Continues

theorem Grows.continues (h : p.Grows q) : p.Continues q :=
  ⟨h.toOffers, h.instructions ▸ .refl _⟩

theorem continues_executeInPlace {ι : Type} [Invocation ι] (i : ι) :
    p.Continues (p.executeInPlace i).program := by
  rcases execute_program i p.registers with h | ⟨reason, h⟩
  · rw [executeInPlace, h]
    exact (Continues.refl p).withRegisters _
  · rw [executeInPlace, h]
    exact ((Continues.refl p).invalidate reason).withRegisters _

/-- Unless it is started over, a program keeps its instructions, variables and resources where
they are. -/
theorem edit_continues (hp : p.WellFormed) {e : Edit} (he : e ≠ .reset) :
    p.Continues (p.edit e) := by
  match e with
  | .push name args =>
    simp only [edit, Program.push]
    split
    · exact .refl p
    · have hgrows := Build.grows_instruction hp.tables name args
      rcases hrun : (Build.instruction name args).run p with ⟨result, q⟩
      rw [hrun] at hgrows
      cases result with
      | error reason => exact hgrows.continues.invalidate reason
      | ok ins => exact hgrows.continues.append ins
  | .seal =>
    simp only [edit, Program.seal]
    split
    · exact .refl p
    · split
      · exact (Continues.refl p).invalidate _
      · exact { Continues.refl p with }
  | .reset => exact absurd rfl he
  | .withColor color => exact { Continues.refl p with }
  | .updateUniforms source =>
    have hfilled := (Continues.refl p).withRegisters
      (fillUniforms source p.declarations.toList.zipIdx p.registers).1
    simp only [edit, Program.updateUniforms]
    split
    · exact .refl p
    · split
      · exact hfilled.invalidate _
      · split
        · exact hfilled.invalidate _
        · exact hfilled
  | .invalidate reason => exact (Continues.refl p).invalidate reason
  | .runFragment f => exact continues_executeInPlace f
  | .runVertex v => exact continues_executeInPlace v

theorem edits_continue (hp : p.WellFormed) {edits : List Edit} (hedits : .reset ∉ edits) :
    p.Continues (edits.foldl Program.edit p) := by
  induction edits generalizing p with
  | nil => exact .refl p
  | cons e edits ih =>
    rw [List.mem_cons, not_or] at hedits
    have hstep := edit_continues hp (Ne.symm hedits.1)
    exact hstep.trans (ih (edit_wellFormed hp e) hedits.2)

theorem Reachable.wellFormed (h : p.Reachable) : p.WellFormed := by
  induction h with
  | new stage => exact new_wellFormed stage
  | edit _ e ih => exact edit_wellFormed ih e

theorem Reachable.foldl (h : p.Reachable) (edits : List Edit) :
    (edits.foldl Program.edit p).Reachable := by
  induction edits generalizing p with
  | nil => exact h
  | cons e edits ih => exact ih (h.edit e)

/-- A program is well-formed after any sequence of edits, whichever of them failed. -/
theorem edits_wellFormed (stage : Stage) (edits : List Edit) :
    (edits.foldl Program.edit (Program.new stage)).WellFormed :=
  ((Reachable.new stage).foldl edits).wellFormed

end Program

end Shading
