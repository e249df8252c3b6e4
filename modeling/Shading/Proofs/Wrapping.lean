import Shading.Proofs.History

/- Blocks that are always run. A program without branches runs from front to back
   and knows no nesting; the machine with its counters does the same on it. Blocks
   can be put around stretches of such a program (`Wrapped`), inside each other as
   well. If each condition holds whenever the machine comes to it, the machine
   never skips, so it comes through the same operations in the same order and ends
   as the program without the blocks does (`Program.runBranching_of_holds`). -/
namespace Shading

variable {ι : Type} {p q : Program}

/-! ## Code with blocks around it -/

/-- The second list of instructions is the first with blocks around stretches of it.
The condition of each block compares a built-in with a literal. -/
inductive Wrapped : List Instruction → List Instruction → Prop
  | nil : Wrapped [] []
  | keep {l w : List Instruction} (ins : Instruction) : Wrapped l w → Wrapped (ins :: l) (ins :: w)
  | block {l w l' w' : List Instruction} (b : Builtin) (mask : Option Mask) (cmp : Comparison)
    (value : Operand) : Wrapped l w → Wrapped l' w' →
    Wrapped (l ++ l') (.ifThen ⟨⟨.builtin b, mask⟩, cmp, .literal value⟩ :: (w ++ .endIf :: w'))

/-- A condition that compares a built-in with a literal. -/
def Condition.IsPlain (c : Condition) : Prop :=
  ∃ b mask cmp value, c = ⟨⟨.builtin b, mask⟩, cmp, .literal value⟩

/-- An instruction of a block with one arm under a plain condition, or no branch. -/
def Instruction.IsWrapping (ins : Instruction) : Prop :=
  ins.isBranch = false ∨ ins = .endIf ∨ ∃ c : Condition, c.IsPlain ∧ ins = .ifThen c

namespace Wrapped

variable {l w : List Instruction}

theorem isWrapping (h : Wrapped l w) (hl : ∀ ins ∈ l, ins.isBranch = false) :
    ∀ ins ∈ w, ins.IsWrapping := by
  induction h with
  | nil => simp
  | keep ins _ ih =>
    rw [List.forall_mem_cons] at hl ⊢
    exact ⟨.inl hl.1, ih hl.2⟩
  | block b mask cmp value _ _ ih ih' =>
    rw [List.forall_mem_append] at hl
    rw [List.forall_mem_cons, List.forall_mem_append, List.forall_mem_cons]
    exact ⟨.inr (.inr ⟨_, ⟨b, mask, cmp, value, rfl⟩, rfl⟩), ih hl.1, .inr (.inl rfl), ih' hl.2⟩

/-- What is no branch stays, in its order. -/
theorem filter_eq (h : Wrapped l w) (hl : ∀ ins ∈ l, ins.isBranch = false) :
    w.filter (fun ins => !ins.isBranch) = l := by
  induction h with
  | nil => rfl
  | keep ins _ ih =>
    rw [List.forall_mem_cons] at hl
    rw [List.filter_cons_of_pos (by simp [hl.1]), ih hl.2]
  | block b mask cmp value _ _ ih ih' =>
    rw [List.forall_mem_append] at hl
    rw [List.filter_cons_of_neg (by simp [Instruction.isBranch]), List.filter_append,
      List.filter_cons_of_neg (by simp [Instruction.isBranch]), ih hl.1, ih' hl.2]

theorem refl : ∀ l : List Instruction, Wrapped l l
  | [] => .nil
  | ins :: l => .keep ins (refl l)

/-- The check passes over balanced blocks, whatever is open around them. -/
theorem checkBlocks_append {length : Nat} (h : Wrapped l w)
    (hl : ∀ ins ∈ l, ins.isBranch = false) (depth : Nat) (rest : List Instruction) :
    checkBlocks length depth (w ++ rest) = checkBlocks length depth rest := by
  induction h generalizing depth rest with
  | nil => rfl
  | keep ins _ ih =>
    rw [List.forall_mem_cons] at hl
    rw [← ih hl.2 depth rest]
    cases ins with
    | operation o => rw [List.cons_append, checkBlocks]
    | discard => rw [List.cons_append, checkBlocks]
    | ifThen _ | elseIf _ | otherwise | endIf | goto _ => simp [Instruction.isBranch] at hl
  | block b mask cmp value _ _ ih ih' =>
    rw [List.forall_mem_append] at hl
    rw [List.cons_append, List.append_assoc, checkBlocks, ih hl.1, List.cons_append, checkBlocks,
      ih' hl.2]

end Wrapped

/-! ## Programs that offer the same -/

/-- Two programs with the same resources and the same colors. Their instructions and
variables may differ. -/
structure Program.SameResources (p q : Program) : Prop where
  textures : q.textures = p.textures
  matrices : q.matrices = p.matrices
  interpolated : q.interpolated = p.interpolated
  attributes : q.attributes = p.attributes
  color : q.color = p.color

/-- The second program is the first with blocks around stretches of its code. -/
structure Program.Wraps (p q : Program) : Prop extends SameResources p q where
  code : Wrapped p.instructions.toList q.instructions.toList

variable [Invocation ι]

theorem Source.read_congr (h : p.SameResources q) (src : Source) (s : State ι) :
    src.read q s = src.read p s := by
  match src with
  | .name _ | .literal _ => rfl
  | .interpolated id => simp only [read, Program.interpolated?, h.interpolated]
  | .attribute id => simp only [read, Program.attribute?, h.attributes]

theorem Operation.run_congr (h : p.SameResources q) (o : Operation) (s : State ι) :
    o.run q s = o.run p s := by
  cases o with
  | transform id dst => simp only [run, Program.matrix?, h.matrices]
  | sample id model dst coords =>
    simp only [run, Source.andThen, Source.read_congr h, Program.texture?, h.textures]
  | convert model dst src => simp only [run, Source.andThen, Source.read_congr h, h.color]
  | arith _ _ _ | compare _ _ _ _ | call _ _ _ _ | print _ =>
    simp only [run, Source.andThen, Source.read_congr h]

theorem Condition.test_congr (h : p.SameResources q) (c : Condition) (s : State ι) :
    c.test q s = c.test p s := by
  rw [test, test, Source.read_congr h]

/-- An instruction does the same in programs that offer the same. -/
theorem Instruction.inStep_congr (h : p.SameResources q) (hlength : q.length = p.length)
    (ins : Instruction) : ins.InStep p q (Eq : State ι → State ι → Prop) ins := by
  cases ins with
  | operation o =>
    rintro s _ rfl
    exact (Operation.run_congr h o s).symm
  | ifThen c | elseIf c =>
    rintro s _ rfl
    rw [Condition.test_congr h]
    exact ⟨rfl, rfl⟩
  | goto target =>
    rintro s _ rfl
    rw [hlength]
    exact ⟨rfl, fun _ => rfl⟩
  | discard | otherwise | endIf => trivial

theorem Condition.IsPlain.test_state {cond : Condition} (h : cond.IsPlain) (s : State ι) :
    (cond.test p s).2 = s := by
  obtain ⟨b, mask, cmp, value, rfl⟩ := h
  rfl

namespace Program

/-- Programs with the same code and resources run alike, whatever else they have. -/
theorem run_congr (h : p.SameResources q) (hcode : q.instructions = p.instructions)
    (hbranches : q.hasBranches = p.hasBranches) (s : State ι) : q.run s = p.run s := by
  have hsame : p.InStep q (Eq : State ι → State ι → Prop) := {
    code := by
      rw [hcode]
      exact List.forall₂_same.2 fun ins _ => ins.inStep_congr h (congrArg Array.size hcode)
    branches := hbranches
    discard := fun hs => congrArg State.discard hs }
  exact (hsame.run (rfl : s = s)).eq.symm

theorem runLinear_congr (h : p.SameResources q) :
    ∀ (l : List Instruction) (s : State ι), q.runLinear l s = p.runLinear l s := by
  intro l
  induction l with
  | nil => exact fun _ => rfl
  | cons ins l ih =>
    intro s
    cases ins with
    | operation o => rw [runLinear, runLinear, Operation.run_congr h, ih]
    | discard => rfl
    | ifThen _ | elseIf _ | otherwise | endIf | goto _ => exact ih s

/-- From front to back, branches are passed over. -/
theorem runLinear_filter : ∀ (l : List Instruction) (s : State ι),
    p.runLinear (l.filter fun ins => !ins.isBranch) s = p.runLinear l s := by
  intro l
  induction l with
  | nil => exact fun _ => rfl
  | cons ins l ih =>
    intro s
    cases ins with
    | operation o => exact ih (o.run p s)
    | discard => rfl
    | ifThen _ | elseIf _ | otherwise | endIf | goto _ => exact ih s

theorem runLinear_ending (reason : ProgramError) : ∀ (l : List Instruction) (s : State ι),
    (p.runLinear l s).ending ≠ .faulted reason := by
  intro l
  induction l with
  | nil => exact fun _ => Ending.noConfusion
  | cons ins l ih =>
    intro s
    cases ins with
    | operation o => exact ih (o.run p s)
    | discard => exact Ending.noConfusion
    | ifThen _ | elseIf _ | otherwise | endIf | goto _ => exact ih s

/-! ## The machine that never skips -/

/-- Every condition that the machine comes to, from a state at the front of the
program on, holds there. -/
def ConditionsHold (q : Program) (s : State ι) : Prop :=
  ∀ (n : Nat) (c : Cursor ι) (cond : Condition), q.Reaches n ⟨0, Nesting.start, s⟩ c →
    q.instructions[c.position]? = some (.ifThen cond) → c.nesting.isSkipping = false →
    (cond.test q c.state).1 = true

/-- Where nothing but wrapping is ahead and nothing is skipped, the machine runs from
front to back. -/
theorem runBranching_of_holds {s₀ : State ι} (hholds : q.ConditionsHold s₀) :
    ∀ (l : List Instruction) {n budget : Nat} {c : Cursor ι},
      q.Reaches n ⟨0, Nesting.start, s₀⟩ c → c.nesting.skipped = 0 →
      q.instructions.toList.drop c.position = l → (∀ ins ∈ l, ins.IsWrapping) →
      l.length ≤ budget → q.runBranching budget c = q.runLinear l c.state := by
  intro l
  induction l with
  | nil =>
    intro n budget c _ _ hl _ _
    exact runBranching_end (getElem?_of_drop_nil hl)
  | cons ins l ih =>
    intro n budget c hreach hskip hl hwrap hbudget
    obtain ⟨hins, hrest⟩ := getElem?_of_drop hl
    rw [List.forall_mem_cons] at hwrap
    obtain ⟨budget, rfl⟩ := Nat.exists_eq_add_of_le' (Nat.le_trans (Nat.le_add_left 1 _) hbudget)
    have hbudget : l.length ≤ budget := Nat.le_of_succ_le_succ hbudget
    have hrun : c.nesting.isSkipping = false := by simp [Nesting.isSkipping, hskip]
    -- after one more fetch the machine stands one further, and still skips nothing
    have hnext : ∀ d : Cursor ι, q.advance ins c = .next d → d.position = c.position + 1 →
        d.nesting.skipped = 0 → q.runBranching (budget + 1) c = q.runLinear l d.state := by
      intro d hadv hpos hd
      rw [runBranching_next hins hadv]
      exact ih (hreach.step hins hadv) hd (hpos ▸ hrest) hwrap.2 hbudget
    cases ins with
    | operation o => exact hnext _ (advance_operation hrun o) rfl hskip
    | discard =>
      rw [runBranching_stop hins (advance_discard hrun)]
      rfl
    | ifThen cond =>
      have hplain : cond.IsPlain := by
        simpa [Instruction.IsWrapping, Instruction.isBranch] using hwrap.1
      have htest : cond.test q c.state = (true, c.state) :=
        Prod.ext (hholds n c cond hreach hins hrun) (hplain.test_state c.state)
      refine hnext ⟨c.position + 1, c.nesting.enter true, c.state⟩ ?_ rfl hskip
      rw [advance_ifThen hrun, htest]
    | endIf =>
      refine hnext ⟨c.position + 1, c.nesting.leave, c.state⟩ rfl rfl ?_
      simp only [Nesting.leave, hskip]
    | elseIf _ | otherwise | goto _ =>
      simp [Instruction.IsWrapping, Instruction.isBranch] at hwrap

/-! ## Whole programs -/

theorem runBranching_of_linear (hlinear : ∀ ins ∈ p.instructions, ins.isBranch = false)
    (s : State ι) : p.runBranching p.stepLimit ⟨0, Nesting.start, s⟩ =
      p.runLinear p.instructions.toList s := by
  have hwrap : ∀ ins ∈ p.instructions.toList, ins.IsWrapping :=
    fun ins hins => .inl (hlinear ins (Array.mem_toList_iff.1 hins))
  have hholds : p.ConditionsHold s := by
    intro n c cond _ hcond _
    have := hlinear _ (Array.mem_of_getElem? hcond)
    simp [Instruction.isBranch] at this
  exact runBranching_of_holds hholds _ (.refl _) rfl rfl hwrap length_le_stepLimit

theorem run_of_linear (hp : p.WellFormed) (hlinear : ∀ ins ∈ p.instructions, ins.isBranch = false)
    (s : State ι) : p.run s = p.runLinear p.instructions.toList s := by
  have hbranches : p.hasBranches = false := by
    rw [hp.branches, Array.any_eq_false']
    exact fun ins hins => ne_true_of_eq_false (hlinear ins hins)
  rw [run, hbranches]
  rfl

theorem execute_program_of_ending {i : ι} {r : Registers}
    (h : ∀ reason, (p.run ⟨i, r, #[]⟩).ending ≠ .faulted reason) :
    (p.execute i r).program = p := by
  unfold execute
  split
  · dsimp only
    split
    · next reason hreason => exact absurd hreason (h reason)
    · rfl
  · rfl

/-- Programs that may both run, or both not, and that run alike without a fault, do the
same for an invocation. -/
theorem execute_congr {i : ι} {r : Registers} (hrunnable : q.isRunnable = p.isRunnable)
    (hrun : q.run ⟨i, r, #[]⟩ = p.run ⟨i, r, #[]⟩)
    (h : ∀ reason, (p.run ⟨i, r, #[]⟩).ending ≠ .faulted reason) :
    q.execute i r = { p.execute i r with program := q } := by
  unfold execute
  rw [hrunnable, hrun]
  split
  · dsimp only
    split
    · next reason hreason => exact absurd hreason (h reason)
    · rfl
  · rfl

namespace Wraps

theorem isWrapping (h : p.Wraps q) (hlinear : ∀ ins ∈ p.instructions, ins.isBranch = false) :
    ∀ ins ∈ q.instructions.toList, ins.IsWrapping :=
  h.code.isWrapping fun ins hins => hlinear ins (Array.mem_toList_iff.1 hins)

theorem filter_eq (h : p.Wraps q) (hlinear : ∀ ins ∈ p.instructions, ins.isBranch = false) :
    q.instructions.toList.filter (fun ins => !ins.isBranch) = p.instructions.toList :=
  h.code.filter_eq fun ins hins => hlinear ins (Array.mem_toList_iff.1 hins)

theorem checkStructure (h : p.Wraps q) (hlinear : ∀ ins ∈ p.instructions, ins.isBranch = false) :
    q.checkStructure = .ok () := by
  have hcheck : checkBlocks q.length 0 (q.instructions.toList ++ []) =
      checkBlocks q.length 0 [] :=
    h.code.checkBlocks_append (fun ins hins => hlinear ins (Array.mem_toList_iff.1 hins)) 0 []
  rw [List.append_nil] at hcheck
  exact hcheck

/-- A block was put in exactly if some instruction is a branch. -/
theorem hasBranches_iff (h : p.Wraps q) (hq : q.WellFormed)
    (hlinear : ∀ ins ∈ p.instructions, ins.isBranch = false) :
    q.hasBranches = true ↔ q.instructions ≠ p.instructions := by
  rw [hq.branches, Array.any_eq_true']
  constructor
  · rintro ⟨ins, hins, hbranch⟩ heq
    rw [heq] at hins
    simp [hlinear ins hins] at hbranch
  · intro hne
    by_contra hnone
    have hall : ∀ ins ∈ q.instructions.toList, (!ins.isBranch) = true := by
      intro ins hins
      rw [Bool.not_eq_true', ← Bool.not_eq_true]
      exact fun hbranch => hnone ⟨ins, Array.mem_toList_iff.1 hins, hbranch⟩
    have hsame := h.filter_eq hlinear
    rw [List.filter_eq_self.2 hall] at hsame
    exact hne (Array.toList_inj.1 hsame)

/-- With blocks around its code that are always run, a program runs as without. -/
theorem run_eq (h : p.Wraps q) (hp : p.WellFormed)
    (hlinear : ∀ ins ∈ p.instructions, ins.isBranch = false) {s : State ι}
    (hholds : q.ConditionsHold s) : q.run s = p.run s := by
  have hlinearRun : q.runLinear q.instructions.toList s = p.run s := by
    rw [run_of_linear hp hlinear, ← runLinear_filter, h.filter_eq hlinear,
      runLinear_congr h.toSameResources]
  rw [← hlinearRun, run]
  split
  · exact runBranching_of_holds hholds _ (.refl _) rfl rfl (h.isWrapping hlinear)
      length_le_stepLimit
  · rfl

end Wraps

end Program

/-- A program without branches does the same from front to back as through the machine,
and never faults. With blocks put around stretches of its code, each under a
condition on a built-in, it is accepted by the check and takes the machine; and where
each condition holds when the machine comes to it, the same comes of an invocation
as without the blocks. -/
theorem execute_wrapped (hp : p.Reachable)
    (hlinear : ∀ ins ∈ p.instructions, ins.isBranch = false) :
    (∀ s : State ι,
      p.runBranching p.stepLimit ⟨0, Nesting.start, s⟩ = p.runLinear p.instructions.toList s ∧
        p.run s = p.runLinear p.instructions.toList s ∧
        ∀ reason, (p.run s).ending ≠ .faulted reason) ∧
    (∀ (i : ι) (r : Registers), (p.execute i r).program = p) ∧
    ∀ q : Program, q.Reachable → p.Wraps q →
      q.checkStructure = .ok () ∧
        (q.hasBranches = true ↔ q.instructions ≠ p.instructions) ∧
        ∀ (i : ι) (r : Registers), q.ConditionsHold ⟨i, r, #[]⟩ →
          q.run ⟨i, r, #[]⟩ = p.run ⟨i, r, #[]⟩ ∧
            (q.isRunnable = p.isRunnable →
              q.execute i r = { p.execute i r with program := q }) := by
  have hwell := hp.wellFormed
  have hrun : ∀ s : State ι, p.run s = p.runLinear p.instructions.toList s :=
    Program.run_of_linear hwell hlinear
  have hending : ∀ (s : State ι) (reason : ProgramError), (p.run s).ending ≠ .faulted reason := by
    intro s reason
    rw [hrun]
    exact Program.runLinear_ending reason _ s
  refine ⟨fun s => ⟨?_, hrun s, hending s⟩, fun i r => ?_, fun q hq hwraps => ⟨?_, ?_, ?_⟩⟩
  · exact Program.runBranching_of_linear hlinear s
  · exact Program.execute_program_of_ending (hending _)
  · exact hwraps.checkStructure hlinear
  · exact hwraps.hasBranches_iff hq.wellFormed hlinear
  · intro i r hholds
    have hsame := hwraps.run_eq hwell hlinear hholds
    exact ⟨hsame, fun hrunnable => Program.execute_congr hrunnable hsame (hending _)⟩

/-- Where each condition is on a built-in that cannot be written and holds at the front
of the program, each holds whenever the machine comes to it. -/
theorem Program.conditionsHold_of_readOnly {s : State Fragment}
    (h : ∀ cond : Condition, .ifThen cond ∈ q.instructions.toList → ∃ b mask cmp value,
      cond = ⟨⟨.builtin b, mask⟩, cmp, .literal value⟩ ∧ b.isWritable = false ∧
        (cond.test q s).1 = true) : q.ConditionsHold s := by
  intro n c cond hreach hcond _
  have hmem := Array.mem_toList_iff.2 (Array.mem_of_getElem? hcond)
  obtain ⟨b, mask, cmp, value, rfl, hb, htest⟩ := h cond hmem
  have hsame : c.state.invocation.read b = s.invocation.read b :=
    (keeps_builtin hb).reaches hreach rfl
  rw [← htest]
  exact congrArg (fun v : Value => cmp.holds (v.operand _) value) hsame

/-- A program without branches. -/
def tinting : Program :=
  [.push "=" [.name "c", .name "txCoordi"],
    .push "*=" [.name "c.xy", .literal (.float 0.125)],
    .push "+=" [.name "c.z", .name "fragY"],
    .push "=" [.name "fragColor", .name "c"],
    .seal].foldl Program.edit (Program.new .fragment)

/-- The same with one block around its first three instructions and another inside,
around the second. -/
def tintingWrapped : Program :=
  [.push "if" [.name "fragX", .name ">=", .literal (.float (-1))],
    .push "=" [.name "c", .name "txCoordi"],
    .push "if" [.name "fragY", .name "<", .literal (.float 8)],
    .push "*=" [.name "c.xy", .literal (.float 0.125)],
    .push "end" [],
    .push "+=" [.name "c.z", .name "fragY"],
    .push "end" [],
    .push "=" [.name "fragColor", .name "c"],
    .seal].foldl Program.edit (Program.new .fragment)

theorem tintingWrapped_code : tintingWrapped.instructions.toList =
    .ifThen ⟨⟨.builtin .screenX, none⟩, .ge, .literal (.float (-1))⟩ ::
      (.operation (.arith .assign ⟨.slot 0, none⟩ (.name ⟨.builtin .pixelCoord, none⟩)) ::
        .ifThen ⟨⟨.builtin .screenY, none⟩, .lt, .literal (.float 8)⟩ ::
          ([.operation (.arith .mul ⟨.slot 0, some Mask.xy⟩ (.literal (.float 0.125)))] ++ .endIf ::
            [.operation (.arith .add ⟨.slot 0, Mask.parse? "z"⟩
              (.name ⟨.builtin .screenY, none⟩))]) ++ .endIf ::
        [.operation (.arith .assign ⟨.builtin .rgbColor, none⟩ (.name ⟨.slot 0, none⟩))]) := by
  decide +kernel

theorem tinting_wraps : tinting.Wraps tintingWrapped where
  textures := by with_unfolding_all rfl
  matrices := by with_unfolding_all rfl
  interpolated := by with_unfolding_all rfl
  attributes := by with_unfolding_all rfl
  color := by with_unfolding_all rfl
  code := by
    have hcode : tinting.instructions.toList =
        [.operation (.arith .assign ⟨.slot 0, none⟩ (.name ⟨.builtin .pixelCoord, none⟩)),
          .operation (.arith .mul ⟨.slot 0, some Mask.xy⟩ (.literal (.float 0.125))),
          .operation (.arith .add ⟨.slot 0, Mask.parse? "z"⟩ (.name ⟨.builtin .screenY, none⟩))] ++
          [.operation (.arith .assign ⟨.builtin .rgbColor, none⟩ (.name ⟨.slot 0, none⟩))] := by
      decide +kernel
    rw [hcode, tintingWrapped_code]
    refine .block _ _ _ _ (.keep _ ?_) (.refl _)
    exact .block (l := [_]) _ _ _ _ (.refl _) (.refl _)

theorem execute_wrapped_tinting :
    let f := Fragment.ofPosition 3 2
    let done := tintingWrapped.execute f tinting.registers
    tintingWrapped.hasBranches = true ∧ done.isValid = true ∧
      done = { tinting.execute f tinting.registers with program := tintingWrapped } := by
  intro f done
  have hlinear : ∀ ins ∈ tinting.instructions, ins.isBranch = false := by decide +kernel
  have hholds : tintingWrapped.ConditionsHold ⟨f, tinting.registers, #[]⟩ := by
    refine Program.conditionsHold_of_readOnly fun cond hcond => ?_
    have hcond : cond = ⟨⟨.builtin .screenX, none⟩, .ge, .literal (.float (-1))⟩ ∨
        cond = ⟨⟨.builtin .screenY, none⟩, .lt, .literal (.float 8)⟩ := by
      simpa [tintingWrapped_code] using hcond
    rcases hcond with rfl | rfl
    · exact ⟨_, _, _, _, rfl, rfl, by decide +kernel⟩
    · exact ⟨_, _, _, _, rfl, rfl, by decide +kernel⟩
  obtain ⟨-, -, hwrapped⟩ := execute_wrapped (ι := Fragment)
    ((Program.Reachable.new .fragment).foldl _) hlinear
  obtain ⟨-, -, hexecute⟩ := hwrapped tintingWrapped ((Program.Reachable.new .fragment).foldl _)
    tinting_wraps
  exact ⟨by decide +kernel, by decide +kernel,
    (hexecute f tinting.registers hholds).2 (by decide +kernel)⟩

end Shading
