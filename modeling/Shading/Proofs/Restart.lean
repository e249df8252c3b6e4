import Shading.Proofs.History

/- Jumps and blocks. A jump leaves the nesting as it is, so behind it the machine
   may count blocks as taken that it left without passing their end, or miss
   those it was thrown into. That does not show: the number of blocks taken
   decides nothing (`Program.runBranching_agrees`), and whenever nothing is skipped,
   no arm is remembered as run either (`Program.Reaches.settled`). So a machine that
   jumps goes on as one that starts at the target. -/
namespace Shading

variable {ι : Type} [Invocation ι] {p : Program}

/-! ## What the nesting decides -/

namespace Nesting

/-- Two standings that differ at most in the number of blocks taken. -/
def Agrees (n m : Nesting) : Prop := n.skipped = m.skipped ∧ n.done = m.done

/-- No arm is remembered as run while nothing is skipped. -/
def Settled (n : Nesting) : Prop := n.skipped = 0 → n.done = false

variable {n m : Nesting}

theorem settled_start : start.Settled := fun _ => rfl

theorem Settled.agrees_start (h : n.Settled) (hn : n.isSkipping = false) : n.Agrees start := by
  have h0 : n.skipped = 0 := by simpa [isSkipping] using hn
  exact ⟨h0, h h0⟩

theorem Agrees.isSkipping_eq (h : n.Agrees m) : n.isSkipping = m.isSkipping := by
  rw [isSkipping, isSkipping, h.1]

theorem Agrees.isPending_eq (h : n.Agrees m) : n.isPending = m.isPending := by
  rw [isPending, isPending, h.1, h.2]

theorem Agrees.enter (h : n.Agrees m) (holds : Bool) : (n.enter holds).Agrees (m.enter holds) := by
  cases holds
  · exact ⟨rfl, rfl⟩
  · exact h

theorem Agrees.deepen (h : n.Agrees m) : n.deepen.Agrees m.deepen :=
  ⟨congrArg (· + 1) h.1, h.2⟩

theorem Agrees.take (h : n.Agrees m) : n.take.Agrees m.take := ⟨rfl, h.2⟩

theorem Agrees.leave (h : n.Agrees m) : n.leave.Agrees m.leave := by
  obtain ⟨t, k, d⟩ := n
  obtain ⟨t', k', d'⟩ := m
  obtain ⟨rfl, rfl⟩ : k = k' ∧ d = d' := h
  match k with
  | 0 | 1 | _ + 2 => exact ⟨rfl, rfl⟩

theorem Settled.enter (h : n.Settled) (holds : Bool) : (n.enter holds).Settled := by
  cases holds
  · exact fun h => absurd h (by simp [Nesting.enter])
  · exact h

theorem Settled.take (hp : n.isPending = true) : n.take.Settled := by
  intro _
  simp only [isPending, Bool.and_eq_true, Bool.not_eq_true'] at hp
  exact hp.2

theorem Settled.leave (h : n.Settled) : n.leave.Settled := by
  obtain ⟨t, k, d⟩ := n
  match k with
  | 0 => exact fun _ => h rfl
  | 1 => exact fun _ => rfl
  | _ + 2 => exact fun h => absurd h (by simp [Nesting.leave])

end Nesting

/-! ## One step -/

/-- Two cursors that differ at most in the number of blocks taken. -/
structure Cursor.Agrees (c d : Cursor ι) : Prop where
  position : c.position = d.position
  nesting : c.nesting.Agrees d.nesting
  state : c.state = d.state

/-- Two steps that lead to such cursors, or to the same stop. -/
def Advance.Agrees : Advance ι → Advance ι → Prop
  | .next c, .next d => c.Agrees d
  | .stop r, .stop r' => r = r'
  | _, _ => False

theorem Program.advance_agrees {c d : Cursor ι} (h : c.Agrees d) (ins : Instruction) :
    (p.advance ins c).Agrees (p.advance ins d) := by
  obtain ⟨n, nesting, s⟩ := c
  obtain ⟨n', nesting', s'⟩ := d
  obtain ⟨rfl, hn, rfl⟩ : n = n' ∧ nesting.Agrees nesting' ∧ s = s' := ⟨h.1, h.2, h.3⟩
  cases ins with
  | ifThen cond =>
    simp only [advance, hn.isSkipping_eq]
    split
    · exact ⟨rfl, hn.deepen, rfl⟩
    · exact ⟨rfl, hn.enter _, rfl⟩
  | elseIf cond =>
    simp only [advance, hn.isSkipping_eq, hn.isPending_eq]
    split
    · exact ⟨rfl, ⟨rfl, rfl⟩, rfl⟩
    · split
      · refine ⟨rfl, ?_, rfl⟩
        split
        · exact hn.take
        · exact hn
      · exact ⟨rfl, hn, rfl⟩
  | otherwise =>
    simp only [advance, hn.isSkipping_eq, hn.isPending_eq]
    split
    · exact ⟨rfl, ⟨rfl, rfl⟩, rfl⟩
    · split
      · exact ⟨rfl, hn.take, rfl⟩
      · exact ⟨rfl, hn, rfl⟩
  | endIf => exact ⟨rfl, hn.leave, rfl⟩
  | goto target =>
    simp only [advance, hn.isSkipping_eq]
    split
    · exact ⟨rfl, hn, rfl⟩
    · split
      · exact ⟨rfl, hn, rfl⟩
      · rfl
  | discard =>
    simp only [advance, hn.isSkipping_eq]
    split
    · exact ⟨rfl, hn, rfl⟩
    · rfl
  | operation o =>
    simp only [advance, hn.isSkipping_eq]
    split
    · exact ⟨rfl, hn, rfl⟩
    · exact ⟨rfl, hn, rfl⟩

/-- A step into a settled nesting, or a stop. -/
def Advance.Settled : Advance ι → Prop
  | .next c => c.nesting.Settled
  | .stop _ => True

theorem Program.advance_settled {c : Cursor ι} (h : c.nesting.Settled) (ins : Instruction) :
    (p.advance ins c).Settled := by
  cases ins with
  | ifThen cond =>
    simp only [advance]
    split
    · exact fun hk => absurd hk (Nat.succ_ne_zero _)
    · exact h.enter _
  | elseIf cond =>
    simp only [advance]
    split
    · exact fun hk => absurd hk Nat.one_ne_zero
    · split
      · next hp =>
        show Nesting.Settled (if _ then _ else _)
        split
        · exact Nesting.Settled.take hp
        · exact h
      · exact h
  | otherwise =>
    simp only [advance]
    split
    · exact fun hk => absurd hk Nat.one_ne_zero
    · split
      · next hp => exact Nesting.Settled.take hp
      · exact h
  | endIf => exact h.leave
  | goto target =>
    simp only [advance]
    split
    · exact h
    · split
      · exact h
      · trivial
  | discard =>
    simp only [advance]
    split
    · exact h
    · trivial
  | operation o =>
    simp only [advance]
    split <;> exact h

/-! ## Whole runs -/

theorem Program.Reaches.settled {n : Nat} {c d : Cursor ι} (h : p.Reaches n c d)
    (hc : c.nesting.Settled) : d.nesting.Settled := by
  induction h with
  | refl c => exact hc
  | @step n c d e ins _ _ hadv ih =>
    have he := Program.advance_settled (p := p) (ih hc) ins
    rw [hadv] at he
    exact he

/-- Machines that differ at most in the number of blocks taken run alike. -/
theorem Program.runBranching_agrees : ∀ (budget : Nat) {c d : Cursor ι}, c.Agrees d →
    p.runBranching budget c = p.runBranching budget d := by
  intro budget
  induction budget with
  | zero =>
    intro c d h
    rw [runBranching, runBranching, h.position, h.state]
  | succ budget ih =>
    intro c d h
    cases hd : p.instructions[d.position]? with
    | none =>
      have hc : p.instructions[c.position]? = none := by rw [h.position, hd]
      rw [runBranching_end hc, runBranching_end hd, h.state]
    | some ins =>
      have hc : p.instructions[c.position]? = some ins := by rw [h.position, hd]
      have hstep := Program.advance_agrees (p := p) h ins
      cases hx : p.advance ins c <;> cases hy : p.advance ins d <;> rw [hx, hy] at hstep
      · rw [runBranching_next hc hx, runBranching_next hd hy]
        exact ih hstep
      · exact hstep.elim
      · exact hstep.elim
      · rw [runBranching_stop hc hx, runBranching_stop hd hy]
        exact hstep

/-- A jump that the machine makes leaves nothing of its nesting behind: the rest of
the run is that of a machine which starts at the target outside of every block,
with the state and the steps of the one that jumped. -/
theorem goto_restarts {n i : Nat} {s : State ι} {c : Cursor ι} {target : JumpTarget}
    (hreach : p.Reaches n ⟨0, Nesting.start, s⟩ c) (hn : n < p.stepLimit)
    (hgoto : p.instructions[c.position]? = some (.goto target))
    (hrun : c.nesting.isSkipping = false)
    (htarget : target.resolve? p.length c.state.registers = some i) :
    p.runBranching p.stepLimit ⟨0, Nesting.start, s⟩ =
        p.runBranching (p.stepLimit - n) c ∧
      p.runBranching (p.stepLimit - n) c =
        p.runBranching (p.stepLimit - (n + 1)) ⟨i, Nesting.start, c.state⟩ := by
  have hsettled := hreach.settled Nesting.settled_start
  have hadv : p.advance (.goto target) c = .next { c with position := i } := by
    simp only [Program.advance, hrun, htarget, Bool.false_eq_true, if_false]
  -- the jump is made outside of every skipped block, and there nothing is remembered
  constructor
  · rw [← hreach.runBranching_eq, Nat.add_sub_cancel' (Nat.le_of_lt hn)]
  · have hsteps : p.stepLimit - n = (p.stepLimit - (n + 1)) + 1 := by omega
    rw [hsteps, Program.runBranching_next hgoto hadv]
    exact Program.runBranching_agrees _ ⟨rfl, hsettled.agrees_start hrun, rfl⟩

/-- A jump out of a block, past its end. -/
def jumpOut : Program :=
  [.push "=" [.name "v", .literal (.float 1)],
    .push "if" [.name "v", .name ">", .literal (.float 0)],
    .push "goto" [.literal (.int 5)],
    .push "end" [],
    .push "+=" [.name "v", .literal (.float 1)],
    .seal].foldl Program.edit (Program.new .fragment)

/-- A fragment for which that program is about to run. -/
def jumpOutStart : State Fragment := ⟨.ofPosition 0 0, jumpOut.registers, #[]⟩

/-- The machine that jumps counts one block as taken, and that does not show. -/
theorem goto_restarts_jumpOut : jumpOut.isSealed = true ∧
    ∃ c, jumpOut.Reaches 2 ⟨0, Nesting.start, jumpOutStart⟩ c ∧ c.nesting.taken = 1 ∧
      jumpOut.runBranching (jumpOut.stepLimit - 2) c =
        jumpOut.runBranching (jumpOut.stepLimit - 3) ⟨4, Nesting.start, c.state⟩ := by
  have hassign : jumpOut.instructions[0]? =
      some (.operation (.arith .assign ⟨.slot 0, none⟩ (.literal (.float 1)))) := by
    decide +kernel
  have hif : jumpOut.instructions[1]? =
      some (.ifThen ⟨⟨.slot 0, none⟩, .gt, .literal (.float 0)⟩) := by
    decide +kernel
  have hgoto : jumpOut.instructions[2]? = some (.goto (.index 4)) := by decide +kernel
  have hreach := Program.Reaches.step (.step (.refl ⟨0, Nesting.start, jumpOutStart⟩) hassign rfl)
    hif rfl
  refine ⟨by decide +kernel, _, hreach, by decide +kernel, ?_⟩
  exact (goto_restarts hreach (by decide +kernel) hgoto (by decide +kernel)
    (by decide +kernel)).2

end Shading
