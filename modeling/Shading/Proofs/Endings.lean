import Shading.Proofs.Budget
import Shading.Proofs.Invalid
import Shading.Proofs.Wrapping

/- How runs end, in terms of what the machine does. It comes to the end of the program, to a
   discard or to a jump that leads out of the program, within its budget, or it is cut
   off at the fetch that is one too many (`Program.Finishes`). What a run gives as its
   ending is that (`Program.finishes_runBranching`), and no other ending fits
   (`Program.Finishes.eq`). A program without branches makes no difference here, since it
   runs as through the machine (`Program.run_finishes`). -/
namespace Shading

variable {ι : Type} [Invocation ι] {p : Program}

namespace Program

/-- While blocks are skipped the machine goes on to the next instruction. -/
theorem advance_of_skipping {c : Cursor ι} (h : c.nesting.isSkipping = true)
    (ins : Instruction) : ∃ n s, p.advance ins c = .next ⟨c.position + 1, n, s⟩ := by
  cases ins with
  | ifThen _ | goto _ | discard | operation _ =>
    simp only [advance, h, if_true]
    exact ⟨_, _, rfl⟩
  | elseIf _ | otherwise =>
    simp only [advance, h, Bool.not_true, Bool.false_eq_true, if_false]
    split <;> exact ⟨_, _, rfl⟩
  | endIf => exact ⟨_, _, rfl⟩

theorem not_skipping_of_stop {c : Cursor ι} {ins : Instruction} {r : Run ι}
    (h : p.advance ins c = .stop r) : c.nesting.isSkipping = false := by
  refine eq_false_of_ne_true fun hskip => ?_
  obtain ⟨n, s, hnext⟩ := advance_of_skipping (p := p) hskip ins
  rw [hnext] at h
  cases h

/-- How a run from a cursor ends on a budget: at the end of the program, at a discard or at a
jump that leads nowhere, or with the first fetch that the budget does not cover. -/
inductive Finishes (p : Program) (budget : Nat) (c : Cursor ι) : Run ι → Prop
  | completed {n : Nat} {d : Cursor ι} : p.Reaches n c d → n ≤ budget →
    p.instructions[d.position]? = none → Finishes p budget c ⟨d.state, .completed⟩
  | discarded {n : Nat} {d : Cursor ι} : p.Reaches n c d → n < budget →
    p.instructions[d.position]? = some .discard → d.nesting.isSkipping = false →
    Finishes p budget c ⟨d.state.discard, .discarded⟩
  | jumpedOut {n : Nat} {d : Cursor ι} {target : JumpTarget} : p.Reaches n c d → n < budget →
    p.instructions[d.position]? = some (.goto target) → d.nesting.isSkipping = false →
    target.resolve? p.length d.state.registers = none →
    Finishes p budget c
      (.fault d.state (.badJumpTarget (target.number d.state.registers) p.length))
  | cutOff {d : Cursor ι} {ins : Instruction} : p.Reaches budget c d →
    p.instructions[d.position]? = some ins →
    Finishes p budget c (.fault d.state (.stepLimit p.stepLimit))

variable {budget : Nat} {c d : Cursor ι} {ins : Instruction} {r : Run ι}

theorem Finishes.stop (hins : p.instructions[c.position]? = some ins)
    (hadv : p.advance ins c = .stop r) : p.Finishes (budget + 1) c r := by
  have hrun := not_skipping_of_stop hadv
  rcases advance_stop hadv with ⟨rfl, rfl⟩ | ⟨target, rfl, htarget, rfl⟩
  · exact .discarded (.refl c) (Nat.zero_lt_succ budget) hins hrun
  · exact .jumpedOut (.refl c) (Nat.zero_lt_succ budget) hins hrun htarget

theorem Finishes.cons (hins : p.instructions[c.position]? = some ins)
    (hadv : p.advance ins c = .next d) (h : p.Finishes budget d r) :
    p.Finishes (budget + 1) c r := by
  cases h with
  | completed hreach hn hend =>
    exact .completed (hreach.cons hins hadv) (Nat.succ_le_succ hn) hend
  | discarded hreach hn hd hrun =>
    exact .discarded (hreach.cons hins hadv) (Nat.succ_lt_succ hn) hd hrun
  | jumpedOut hreach hn hd hrun htarget =>
    exact .jumpedOut (hreach.cons hins hadv) (Nat.succ_lt_succ hn) hd hrun htarget
  | cutOff hreach hd => exact .cutOff (hreach.cons hins hadv) hd

/-- Every run ends in one of these ways. -/
theorem finishes_runBranching (budget : Nat) (c : Cursor ι) :
    p.Finishes budget c (p.runBranching budget c) := by
  induction budget generalizing c with
  | zero =>
    cases hins : p.instructions[c.position]? with
    | none =>
      rw [runBranching_end hins]
      exact .completed (.refl c) (Nat.le_refl 0) hins
    | some ins =>
      rw [runBranching_cut hins]
      exact .cutOff (.refl c) hins
  | succ budget ih =>
    cases hins : p.instructions[c.position]? with
    | none =>
      rw [runBranching_end hins]
      exact .completed (.refl c) (Nat.zero_le _) hins
    | some ins =>
      cases hadv : p.advance ins c with
      | stop r =>
        rw [runBranching_stop hins hadv]
        exact .stop hins hadv
      | next d =>
        rw [runBranching_next hins hadv]
        exact (ih d).cons hins hadv

/-- And in no other. -/
theorem Finishes.eq (h : p.Finishes budget c r) : p.runBranching budget c = r := by
  cases h with
  | @completed n d hreach hn hend =>
    obtain ⟨k, rfl⟩ := Nat.exists_eq_add_of_le hn
    calc p.runBranching (n + k) c
        = p.runBranching k d := hreach.runBranching_eq k
      _ = ⟨d.state, .completed⟩ := runBranching_end hend
  | @discarded n d hreach hn hd hrun =>
    obtain ⟨k, rfl⟩ := Nat.exists_eq_add_of_lt hn
    calc p.runBranching (n + (k + 1)) c
        = p.runBranching (k + 1) d := hreach.runBranching_eq (k + 1)
      _ = ⟨d.state.discard, .discarded⟩ := runBranching_stop hd (advance_discard hrun)
  | @jumpedOut n d target hreach hn hd hrun htarget =>
    obtain ⟨k, rfl⟩ := Nat.exists_eq_add_of_lt hn
    have hadv : p.advance (.goto target) d =
        .stop (.fault d.state (.badJumpTarget (target.number d.state.registers) p.length)) := by
      simp only [advance, hrun, htarget, Bool.false_eq_true, if_false]
    calc p.runBranching (n + (k + 1)) c
        = p.runBranching (k + 1) d := hreach.runBranching_eq (k + 1)
      _ = _ := runBranching_stop hd hadv
  | cutOff hreach hd => exact runBranching_of_reaches hreach hd

/-- A program without branches runs as through the machine. -/
theorem run_eq_runBranching (hp : p.WellFormed) (s : State ι) :
    p.run s = p.runBranching p.stepLimit ⟨0, Nesting.start, s⟩ := by
  cases hbranches : p.hasBranches with
  | true => rw [run, if_pos hbranches]
  | false =>
    rw [hp.branches, Array.any_eq_false'] at hbranches
    have hlinear : ∀ ins ∈ p.instructions, ins.isBranch = false :=
      fun ins hins => eq_false_of_ne_true (hbranches ins hins)
    calc p.run s
        = p.runLinear p.instructions.toList s := run_of_linear hp hlinear s
      _ = p.runBranching p.stepLimit ⟨0, Nesting.start, s⟩ :=
          (runBranching_of_linear hlinear s).symm

theorem run_finishes (hp : p.WellFormed) (s : State ι) :
    p.Finishes p.stepLimit ⟨0, Nesting.start, s⟩ (p.run s) := by
  rw [run_eq_runBranching hp]
  exact finishes_runBranching _ _

/-- An execution reports that its program became invalid for a reason only if the run
faulted for that reason. -/
theorem faulted_of_mem_events {i : ι} {r : Registers} {reason : ProgramError} {n : Nat}
    (h : .markedInvalid reason n ∈ (p.execute i r).events) :
    p.isRunnable = true ∧ (p.run ⟨i, r, #[]⟩).ending = .faulted reason := by
  have hprinted : .markedInvalid reason n ∉ (p.run ⟨i, r, #[]⟩).state.events := by
    have hmarks : marks (p.run ⟨i, r, #[]⟩).state.events = 0 :=
      keeps_unmarked.run (s := ⟨i, r, #[]⟩) rfl
    rw [marks, Array.countP_eq_zero] at hmarks
    exact fun hmem => hmarks _ hmem rfl
  cases hrun : p.isRunnable with
  | false =>
    rw [execute_of_not_runnable hrun] at h
    simp at h
  | true =>
    refine ⟨rfl, ?_⟩
    rw [execute, hrun, if_pos rfl] at h
    dsimp only at h
    have hmarked := (Array.mem_append.1 h).resolve_left hprinted
    split at hmarked
    · next reason' hending =>
      unfold invalidate at hmarked
      split at hmarked
      · simp at hmarked
      · obtain ⟨rfl, -⟩ : reason = reason' ∧ n = p.length := by simpa using hmarked
        exact hending
    · simp at hmarked

end Program

end Shading
