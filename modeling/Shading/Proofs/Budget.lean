import Shading.Proofs.History

/- The budget of the machine. Without it the machine would come to an end after some
   number of fetches, or never (`Program.Ends`); there is at most one such number. A
   run whose number the budget covers is that of the machine without it; any other
   is cut off behind the last fetch that was paid for. So every run ends, and only a
   jump backward can bring it to its limit, because otherwise each fetch leads
   further into the program. -/
namespace Shading

variable {ι : Type} [Invocation ι] {p : Program}

namespace Program

/-! ## The machine without a budget -/

/-- From a cursor the machine without a budget makes so many fetches, skipped
instructions included, and ends so. -/
inductive Ends (p : Program) : Nat → Cursor ι → Run ι → Prop
  | completed {c : Cursor ι} :
    p.instructions[c.position]? = none → Ends p 0 c ⟨c.state, .completed⟩
  | stopped {c : Cursor ι} {ins : Instruction} {r : Run ι} :
    p.instructions[c.position]? = some ins → p.advance ins c = .stop r → Ends p 1 c r
  | next {n : Nat} {c d : Cursor ι} {ins : Instruction} {r : Run ι} :
    p.instructions[c.position]? = some ins → p.advance ins c = .next d → Ends p n d r →
    Ends p (n + 1) c r

variable {n m budget : Nat} {c d e : Cursor ι} {ins : Instruction} {r r' : Run ι}

/-- The machine ends in one way at most. -/
theorem Ends.unique (h : p.Ends n c r) (h' : p.Ends m c r') : n = m ∧ r = r' := by
  induction h generalizing m with
  | completed hins =>
    cases h' with
    | completed _ => exact ⟨rfl, rfl⟩
    | stopped hins' _ | next hins' _ _ => rw [hins] at hins'; cases hins'
  | stopped hins hadv =>
    cases h' with
    | completed hins' => rw [hins] at hins'; cases hins'
    | stopped hins' hadv' =>
      cases hins.symm.trans hins'
      cases hadv.symm.trans hadv'
      exact ⟨rfl, rfl⟩
    | next hins' hadv' _ =>
      cases hins.symm.trans hins'
      cases hadv.symm.trans hadv'
  | next hins hadv _ ih =>
    cases h' with
    | completed hins' => rw [hins] at hins'; cases hins'
    | stopped hins' hadv' =>
      cases hins.symm.trans hins'
      cases hadv.symm.trans hadv'
    | next hins' hadv' h' =>
      cases hins.symm.trans hins'
      cases hadv.symm.trans hadv'
      obtain ⟨hn, hr⟩ := ih h'
      exact ⟨congrArg (· + 1) hn, hr⟩

/-- A budget that covers every fetch changes nothing. -/
theorem Ends.runBranching_eq (h : p.Ends n c r) (hbudget : n ≤ budget) :
    p.runBranching budget c = r := by
  induction h generalizing budget with
  | completed hins => exact runBranching_end hins
  | stopped hins hadv =>
    obtain ⟨budget, rfl⟩ := Nat.exists_eq_add_of_le' hbudget
    exact runBranching_stop hins hadv
  | next hins hadv _ ih =>
    obtain ⟨budget, rfl⟩ := Nat.exists_eq_add_of_le' (Nat.le_trans (Nat.le_add_left 1 _) hbudget)
    rw [runBranching_next hins hadv]
    exact ih (Nat.le_of_succ_le_succ hbudget)

/-- Without a budget no run is cut off. -/
theorem Ends.ending_ne (h : p.Ends n c r) (limit : Nat) :
    r.ending ≠ .faulted (.stepLimit limit) := by
  induction h with
  | completed _ => exact Ending.noConfusion
  | stopped _ hadv =>
    rcases advance_stop hadv with ⟨-, rfl⟩ | ⟨target, -, -, rfl⟩
    · exact Ending.noConfusion
    · exact fun hending => by cases hending
  | next _ _ _ ih => exact ih

theorem Reaches.cons (hins : p.instructions[c.position]? = some ins)
    (hadv : p.advance ins c = .next d) (h : p.Reaches n d e) : p.Reaches (n + 1) c e := by
  induction h with
  | refl d => exact .step (.refl c) hins hadv
  | step _ hins' hadv' ih => exact .step (ih hadv) hins' hadv'

/-- Either the machine ends within some number of fetches, or it makes them all and
comes to one more. -/
theorem ends_or_reaches : ∀ (budget : Nat) (c : Cursor ι),
    (∃ n r, n ≤ budget ∧ p.Ends n c r) ∨
      ∃ d ins, p.Reaches budget c d ∧ p.instructions[d.position]? = some ins := by
  intro budget
  induction budget with
  | zero =>
    intro c
    cases hins : p.instructions[c.position]? with
    | none => exact .inl ⟨0, _, Nat.le_refl 0, .completed hins⟩
    | some ins => exact .inr ⟨c, ins, .refl c, hins⟩
  | succ budget ih =>
    intro c
    cases hins : p.instructions[c.position]? with
    | none => exact .inl ⟨0, _, Nat.zero_le _, .completed hins⟩
    | some ins =>
      cases hadv : p.advance ins c with
      | stop r => exact .inl ⟨1, r, Nat.le_add_left 1 _, .stopped hins hadv⟩
      | next d =>
        rcases ih d with ⟨n, r, hn, hends⟩ | ⟨e, ins', hreach, hins'⟩
        · exact .inl ⟨n + 1, r, Nat.succ_le_succ hn, .next hins hadv hends⟩
        · exact .inr ⟨e, ins', hreach.cons hins hadv, hins'⟩

/-- A run that comes to one fetch too many is cut off there. -/
theorem runBranching_of_reaches (h : p.Reaches budget c d)
    (hins : p.instructions[d.position]? = some ins) :
    p.runBranching budget c = .fault d.state (.stepLimit p.stepLimit) := by
  rw [← Nat.add_zero budget, h.runBranching_eq, runBranching_cut hins]

/-! ## Jumps that lead further on -/

/-- Each jump that the machine makes, from a state at the front of the program on,
leads to a later instruction. -/
def JumpsForward (p : Program) (s : State ι) : Prop :=
  ∀ (n : Nat) (c : Cursor ι) (target : JumpTarget) (i : Nat),
    p.Reaches n ⟨0, Nesting.start, s⟩ c → p.instructions[c.position]? = some (.goto target) →
    c.nesting.isSkipping = false → target.resolve? p.length c.state.registers = some i →
    c.position < i

/-- Then each fetch leads further into the program. -/
theorem Reaches.le_position {s : State ι} (h : p.Reaches n ⟨0, Nesting.start, s⟩ c)
    (hforward : p.JumpsForward s) : n ≤ c.position ∧ c.position ≤ p.length := by
  generalize hstart : (⟨0, Nesting.start, s⟩ : Cursor ι) = start at h
  induction h with
  | refl c =>
    subst hstart
    exact ⟨Nat.le_refl 0, Nat.zero_le _⟩
  | step hreach hins hadv ih =>
    obtain ⟨hn, -⟩ := ih hstart
    obtain ⟨hlt, -⟩ := Array.getElem?_eq_some_iff.1 hins
    rcases advance_next hadv with hpos | ⟨target, rfl, hrun, htarget⟩
    · rw [hpos]
      exact ⟨Nat.succ_le_succ hn, hlt⟩
    · have hlater := hforward _ _ _ _ (hstart ▸ hreach) hins hrun htarget
      exact ⟨by omega, Nat.le_of_lt (JumpTarget.resolve?_lt htarget)⟩

/-- A run without a jump backward ends within one fetch for each instruction. -/
theorem JumpsForward.ends {s : State ι} (h : p.JumpsForward s) :
    ∃ n r, n ≤ p.length ∧ p.Ends n ⟨0, Nesting.start, s⟩ r := by
  rcases ends_or_reaches (p := p) p.length ⟨0, Nesting.start, s⟩ with hends | ⟨d, ins, hreach, hins⟩
  · exact hends
  · obtain ⟨hlt, -⟩ := Array.getElem?_eq_some_iff.1 hins
    obtain ⟨hle, -⟩ := hreach.le_position h
    exact absurd hlt (Nat.not_lt.2 hle)

/-! ## What a run leaves behind -/

/-- What becomes of an invocation that ran in such a way. -/
def finish (p : Program) (run : Run ι) : Execution ι :=
  let marked := match run.ending with
    | .faulted reason => p.invalidate reason
    | _ => (p, #[])
  { isValid := run.ending == .completed && Invocation.isAccepted run.state.invocation
    invocation := run.state.invocation
    registers := run.state.registers
    program := marked.1
    events := run.state.events ++ marked.2 }

theorem execute_eq_finish (hrun : p.isRunnable = true) (i : ι) (r : Registers) :
    p.execute i r = p.finish (p.run ⟨i, r, #[]⟩) := by
  rw [execute, if_pos hrun]
  rfl

/-- A run that is cut off gives the invocation up and makes the program invalid, which is
reported unless it was so before. -/
theorem finish_cut (s : State ι) :
    p.finish (.fault s (.stepLimit p.stepLimit)) =
      { isValid := false
        invocation := Invocation.discard s.invocation
        registers := s.registers
        program := { p with isInvalid := true }
        events := s.events ++
          if p.isInvalid then #[] else #[.markedInvalid (.stepLimit p.stepLimit) p.length] } := by
  have hevents : (p.invalidate (.stepLimit p.stepLimit)).2 =
      if p.isInvalid then #[] else #[.markedInvalid (.stepLimit p.stepLimit) p.length] := by
    unfold invalidate
    split <;> rfl
  rw [← invalidate_program p (.stepLimit p.stepLimit), ← hevents]
  rfl

end Program

/-- The budget is exact. There is at most one number of fetches after which the machine
without a budget ends. If it is within the limit, what becomes of an invocation is what
the machine without a budget makes of it, and nothing is cut off. If there is no such
number, or it is past the limit, then after as many fetches as the limit allows the
invocation is given up, everything else stays as it is then, and the program becomes
invalid. A run whose jumps all lead to later instructions makes at most one fetch for
each instruction. -/
theorem budget_exact (p : Program) (i : ι) (r : Registers) :
    let start : Cursor ι := ⟨0, Nesting.start, ⟨i, r, #[]⟩⟩
    let done := p.finish (p.runBranching p.stepLimit start)
    (p.isRunnable = true → p.hasBranches = true → p.execute i r = done) ∧
    (∀ N run N' run', p.Ends N start run → p.Ends N' start run' → N = N' ∧ run = run') ∧
    (∀ N run, p.Ends N start run → N ≤ p.stepLimit →
      done = p.finish run ∧ ∀ limit, run.ending ≠ .faulted (.stepLimit limit)) ∧
    ((∀ N run, p.Ends N start run → p.stepLimit < N) →
      ∃ c : Cursor ι, p.Reaches p.stepLimit start c ∧
        done =
          { isValid := false
            invocation := Invocation.discard c.state.invocation
            registers := c.state.registers
            program := { p with isInvalid := true }
            events := c.state.events ++
              if p.isInvalid then #[] else #[.markedInvalid (.stepLimit p.stepLimit) p.length] }) ∧
    (p.JumpsForward start.state → ∃ N run, p.Ends N start run ∧ N ≤ p.length) := by
  intro start done
  refine ⟨fun hrunnable hbranches => ?_, fun N run N' run' h h' => h.unique h',
    fun N run h hN => ?_, fun hlong => ?_, fun hforward => ?_⟩
  · rw [Program.execute_eq_finish hrunnable, Program.run, if_pos hbranches]
  · exact ⟨congrArg p.finish (h.runBranching_eq hN), h.ending_ne⟩
  · rcases Program.ends_or_reaches p.stepLimit start with ⟨N, run, hN, h⟩ | ⟨c, ins, hreach, hins⟩
    · exact absurd (hlong N run h) (Nat.not_lt.2 hN)
    · refine ⟨c, hreach, ?_⟩
      rw [← Program.finish_cut, ← Program.runBranching_of_reaches hreach hins]
  · obtain ⟨N, run, hN, h⟩ := hforward.ends
    exact ⟨N, run, h, hN⟩

/-- A program that counts on and never ends. -/
def endless : Program :=
  [.push "=" [.name "n", .literal (.float 0)],
    .push "+=" [.name "n", .literal (.float 1)],
    .push "goto" [.literal (.int 2)],
    .seal].foldl Program.edit (Program.new .fragment)

theorem endless_goes_on {c : Cursor Fragment} (hpos : c.position < 3)
    (hrun : c.nesting.isSkipping = false) :
    ∃ ins d, endless.instructions[c.position]? = some ins ∧ endless.advance ins c = .next d ∧
      d.position < 3 ∧ d.nesting.isSkipping = false := by
  have hcode : endless.instructions =
      #[.operation (.arith .assign ⟨.slot 0, none⟩ (.literal (.float 0))),
        .operation (.arith .add ⟨.slot 0, none⟩ (.literal (.float 1))), .goto (.index 1)] := by
    decide +kernel
  obtain hpos | hpos | hpos : c.position = 0 ∨ c.position = 1 ∨ c.position = 2 := by omega
  · refine ⟨_, _, by rw [hcode, hpos]; rfl, Program.advance_operation hrun _, ?_, hrun⟩
    simp [hpos]
  · refine ⟨_, _, by rw [hcode, hpos]; rfl, Program.advance_operation hrun _, ?_, hrun⟩
    simp [hpos]
  · have htarget : (JumpTarget.index 1).resolve? endless.length c.state.registers = some 1 := by
      rw [Program.length, hcode]
      rfl
    refine ⟨_, _, by rw [hcode, hpos]; rfl, Program.advance_goto hrun htarget, ?_, hrun⟩
    simp

theorem endless_not_ends {N : Nat} {c : Cursor Fragment} {run : Run Fragment}
    (h : endless.Ends N c run) (hpos : c.position < 3) (hrun : c.nesting.isSkipping = false) :
    False := by
  induction h with
  | completed hins =>
    obtain ⟨ins, d, hins', -⟩ := endless_goes_on hpos hrun
    cases hins.symm.trans hins'
  | stopped hins hadv =>
    obtain ⟨ins, d, hins', hadv', -⟩ := endless_goes_on hpos hrun
    cases hins.symm.trans hins'
    cases hadv.symm.trans hadv'
  | next hins hadv _ ih =>
    obtain ⟨ins, d, hins', hadv', hpos', hrun'⟩ := endless_goes_on hpos hrun
    cases hins.symm.trans hins'
    cases hadv.symm.trans hadv'
    exact ih hpos' hrun'

theorem budget_exact_endless :
    let f := Fragment.ofPosition 0 0
    let done := endless.execute f endless.registers
    done.isValid = false ∧ done.invocation.output = .invalid ∧ done.program.isInvalid = true ∧
      ∃ c, endless.Reaches 3072 ⟨0, Nesting.start, ⟨f, endless.registers, #[]⟩⟩ c ∧
        done.registers = c.state.registers := by
  intro f done
  obtain ⟨hexecute, -, -, hcut, -⟩ := budget_exact endless f endless.registers
  obtain ⟨c, hreach, hdone⟩ := hcut fun N run h => (endless_not_ends h (by decide) rfl).elim
  have hlimit : endless.stepLimit = 3072 := by decide +kernel
  rw [hlimit] at hreach
  have hdone : done = _ := (hexecute (by decide +kernel) (by decide +kernel)).trans hdone
  rw [hdone]
  exact ⟨rfl, rfl, rfl, c, hreach, rfl⟩

end Shading
