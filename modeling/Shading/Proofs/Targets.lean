import Shading.Proofs.Endings
import Shading.Proofs.Retargeting

/- Jumps to a fixed place and jumps through a uniform. A fixed target is checked in two parts,
   when it is pushed and when the program is sealed; the value of a uniform is checked as a
   whole when the host fills it, and looked at again with each jump. Both accept the same
   values, and then lead to the same place: two programs that differ in one jump run in
   step (`Program.Retargeted.inStep`), each with its variables under its own numbers, and
   the slot of the uniform is what no instruction stores in. The number that a push
   answers is where its instruction stays (`Program.push_number`). -/
namespace Shading

variable {p q : Program} {u : String} {m j : Nat} {k : Value} {ι : Type} [Invocation ι]

namespace Program

/-! ## Two runs -/

namespace Retargeted

/-- Nothing is stored in the uniform. -/
theorem keeps (h : Retargeted u m j p q) (k : Value) :
    q.Keeps fun t : State ι => t.registers.slot? m = some k :=
  keeps_slot (IsUniform.neverStored h.through.wellFormed ⟨_, h.through.declared, rfl⟩)

/-- While the uniform says where the first program jumps, the two programs do the same. -/
theorem inStep (h : Retargeted u m j p q) (hjump : jumpIndex? k p.length = some j) :
    p.InStep q fun s t : State ι =>
      s.Renumbers (Renaming.inserting u m).number t ∧ t.registers.slot? m = some k where
  branches := h.hasBranches
  discard := fun ⟨hs, ht⟩ =>
    ⟨⟨congrArg Invocation.discard hs.invocation, hs.registers, hs.events⟩, ht⟩
  code := by
    have hmem : ∀ ins ∈ q.instructions.toList, ins ∈ q.instructions :=
      fun ins hins => Array.mem_toList_iff.1 hins
    have hcode := h.code
    generalize p.instructions.toList = l at hcode
    generalize q.instructions.toList = l' at hcode hmem
    induction hcode with
    | nil => exact .nil
    | @cons ins ins' l l' hins _ ih =>
      rw [List.forall_mem_cons] at hmem
      refine .cons ?_ (ih hmem.2)
      cases hins with
      | same heq =>
        subst heq
        have hsame := ins.inStep_renumber (ι := ι) h.toSameResources h.length
          (Renaming.inserting u m).injective
        exact hsame.keeping (h.keeps k) hmem.1
      | goto =>
        -- here it matters that the uniform still holds what it was filled with
        have hj := jumpIndex?_lt hjump
        intro s t hst
        have hfixed : (JumpTarget.index j).resolve? p.length s.registers = some j := if_pos hj
        have hthrough : (JumpTarget.uniform m).resolve? q.length t.registers = some j := by
          rw [JumpTarget.resolve?, hst.2, Option.getD_some, h.length, hjump]
        rw [hfixed, hthrough]
        exact ⟨rfl, fun hnone => by cases hnone⟩

end Retargeted

end Program

/-- Two executions that come to the same but for the value of one name. -/
structure Execution.AgreeBut (u : String) (x y : Execution ι) : Prop where
  isValid : x.isValid = y.isValid
  invocation : x.invocation = y.invocation
  isInvalid : x.program.isInvalid = y.program.isInvalid
  value? : ∀ name, name ≠ u → x.program.value? name = y.program.value? name
  events : x.events = y.events

namespace Program

/-- An invocation on the canonical registers leaves its own values there. -/
theorem value?_executeInPlace (p : Program) (i : ι) (name : String) :
    (p.executeInPlace i).program.value? name =
      (p.slotOf? name).bind (p.execute i p.registers).registers.slot? := by
  have hnames : (p.execute i p.registers).program.declarations = p.declarations := by
    rcases execute_program i p.registers with h | ⟨reason, h⟩
    · rw [h]
    · rw [h, invalidate_program]
  simp only [executeInPlace, value?, slotOf?, hnames]

/-- While the uniform says where the first program jumps, no invocation tells the two apart. -/
theorem Retargeted.executeInPlace (h : Retargeted u m j p q)
    (hjump : jumpIndex? k p.length = some j) (hslot : q.registers.slot? m = some k) (i : ι) :
    (p.executeInPlace i).AgreeBut u (q.executeInPlace i) := by
  have hstart : (State.mk i p.registers #[]).Renumbers (Renaming.inserting u m).number
      ⟨i, q.registers, #[]⟩ := ⟨rfl, h.registers, rfl⟩
  have hsame := (h.inStep (ι := ι) hjump).execute And.left h.isSealed h.isInvalid
    ⟨hstart, hslot⟩
  refine ⟨hsame.isValid, hsame.invocation, hsame.isInvalid, fun name hne => ?_, hsame.events⟩
  have hnumber : q.slotOf? name = (p.slotOf? name).map (Renaming.inserting u m).number :=
    h.slotOf? ⟨rfl, hne⟩
  rw [value?_executeInPlace, value?_executeInPlace, hnumber, Option.bind_map]
  exact Option.bind_congr fun v _ => (hsame.registers.slots v).symm

/-! ## Where an instruction stays -/

section

variable {lines : List Line} {mask : Mask} {a b : Program} {source : UniformSource}

/-- Where both can be built and filled no invocation tells them apart. -/
theorem Retargeted.agree (h : Retargeted u m j a b) (hjump : jumpIndex? k a.length = some j)
    (hsource : source (Declaration.mk u true).hostName = some k)
    (hb : (b.updateUniforms source).result = .ok ()) (i : ι) :
    ((a.updateUniforms source).program.executeInPlace i).AgreeBut u
      ((b.updateUniforms source).program.executeInPlace i) := by
  have ha := (h.update_iff hsource hjump).1 hb
  have hsupplied := (updateUniforms_eq_ok_iff.1 ha).2.1
  rw [updateUniforms_of_ok ha, updateUniforms_of_ok hb]
  have hfilled := h.withFilled hsource hsupplied
  refine hfilled.executeInPlace (k := k) hjump ?_ i
  exact h.through.filled_slot hsource ((h.supplied_iff hsource).2 hsupplied)

end

end Program

end Shading
