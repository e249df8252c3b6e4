import Shading.Proofs.Block
import Shading.Proofs.History

/- The machine follows the tree. Between two instructions it stands in front of an
   `Outlook`, and there are two ways to stand: running, where what lies ahead
   is the rest of the block and of every chain around it (`Outlook.run`), or
   skipping some blocks, where it is what the outermost of them still may do
   (`Outlook.skip`). One induction over the instructions ahead, from the end of
   the program, shows that the counters do either (`follows_read`); how many
   blocks count as taken plays no part. What a sealed program without jumps
   consists of can be read (`Outlook.read?_of_checkBlocks`), so such a program runs
   as its tree. -/
namespace Shading

variable {ι : Type}

namespace Run

theorem andThen_assoc (r : Run ι) (f g : State ι → Run ι) :
    (r.andThen f).andThen g = r.andThen fun s => (f s).andThen g := by
  obtain ⟨s, ending⟩ := r
  cases ending <;> rfl

theorem andThen_id (r : Run ι) : r.andThen (fun s => ⟨s, .completed⟩) = r := by
  obtain ⟨s, ending⟩ := r
  cases ending <;> rfl

theorem andThen_ending {r : Run ι} {next : State ι → Run ι} {reason : ProgramError}
    (hr : r.ending ≠ .faulted reason) (hnext : ∀ s, (next s).ending ≠ .faulted reason) :
    (r.andThen next).ending ≠ .faulted reason := by
  unfold andThen
  split
  · exact hnext _
  · exact hr

end Run

variable [Invocation ι] {p : Program}

/-! ## What lies ahead, as a meaning -/

namespace Outlook

/-- Goes on behind the innermost chain, the rest of which is passed over. -/
def leave (p : Program) : List (Arms × Block) → State ι → Run ι
  | [], s => ⟨s, .completed⟩
  | (_, after) :: chains, s => (after.run p s).andThen (leave p chains)

/-- Runs what lies ahead. -/
def run (p : Program) (o : Outlook) (s : State ι) : Run ι :=
  (o.block.run p s).andThen (leave p o.chains)

/-- Passes over the rest of the innermost `k` chains and comes to the one around
them, whose arms are tried unless one was run. -/
def skip (p : Program) : Nat → Bool → List (Arms × Block) → State ι → Run ι
  | 0, true, chains, s => leave p chains s
  | 0, false, (arms, after) :: chains, s =>
    (arms.run p s).andThen (leave p ((arms, after) :: chains))
  | k + 1, done, _ :: chains, s => skip p k done chains s
  | _, _, [], s => ⟨s, .completed⟩

theorem skip_nil (k : Nat) (done : Bool) (s : State ι) : skip p k done [] s = ⟨s, .completed⟩ := by
  cases k <;> cases done <;> rfl

theorem skip_deeper (k : Nat) (done : Bool) (chain : Arms × Block)
    (chains : List (Arms × Block)) (s : State ι) :
    skip p (k + 1) done (chain :: chains) s = skip p k done chains s := by
  cases done <;> rfl

end Outlook

/-! ## The machine against the tree -/

/-- In front of instruction `n` the machine does what lies ahead, running or
skipping. -/
structure Follows (ι : Type) [Invocation ι] (p : Program) (budget n : Nat) (o : Outlook) :
    Prop where
  runs : ∀ taken (s : State ι), p.runBranching budget ⟨n, ⟨taken, 0, false⟩, s⟩ = o.run p s
  skips : ∀ taken k done (s : State ι),
    p.runBranching budget ⟨n, ⟨taken, k + 1, done⟩, s⟩ = Outlook.skip p k done o.chains s

namespace Follows

variable {n budget : Nat} {b after : Block} {arms : Arms} {chains : List (Arms × Block)}

theorem last (h : p.instructions[n]? = none) : Follows ι p budget n ⟨.done, []⟩ where
  runs taken s := by
    rw [Program.runBranching_end h]
    rfl
  skips taken k done s := by
    rw [Program.runBranching_end h, Outlook.skip_nil]

theorem operation {op : Operation} (hn : p.instructions[n]? = some (.operation op))
    (h : Follows ι p budget (n + 1) ⟨b, chains⟩) :
    Follows ι p (budget + 1) n ⟨.operation op b, chains⟩ where
  runs taken s := by
    rw [Program.runBranching_succ hn]
    exact h.runs taken (op.run p s)
  skips taken k done s := by
    rw [Program.runBranching_succ hn]
    exact h.skips taken k done s

theorem discard (hn : p.instructions[n]? = some .discard)
    (h : Follows ι p budget (n + 1) ⟨b, chains⟩) :
    Follows ι p (budget + 1) n ⟨.discard b, chains⟩ where
  runs taken s := by
    rw [Program.runBranching_succ hn]
    rfl
  skips taken k done s := by
    rw [Program.runBranching_succ hn]
    exact h.skips taken k done s

/-- The end of a chain closes one skipped block; behind that of the outermost the
machine runs again. -/
theorem endIf (hn : p.instructions[n]? = some .endIf)
    (h : Follows ι p budget (n + 1) ⟨b, chains⟩) :
    Follows ι p (budget + 1) n ⟨.done, (.none, b) :: chains⟩ where
  runs taken s := by
    rw [Program.runBranching_succ hn]
    exact h.runs (taken - 1) s
  skips taken k done s := by
    rw [Program.runBranching_succ hn]
    cases k with
    | zero =>
      cases done
      · exact h.runs taken s
      · exact h.runs taken s
    | succ k =>
      rw [Outlook.skip_deeper]
      exact h.skips taken k done s

/-- A new arm ends the one that runs. It is run itself if its chain is the one
skipped block and none of its arms was run. -/
theorem otherwise (hn : p.instructions[n]? = some .otherwise)
    (h : Follows ι p budget (n + 1) ⟨b, (arms, after) :: chains⟩) :
    Follows ι p (budget + 1) n ⟨.done, (.otherwise b arms, after) :: chains⟩ where
  runs taken s := by
    rw [Program.runBranching_succ hn]
    exact h.skips (taken - 1) 0 true s
  skips taken k done s := by
    rw [Program.runBranching_succ hn]
    match k, done with
    | 0, true => exact h.skips taken 0 true s
    | 0, false => exact h.runs (taken + 1) s
    | k + 1, done => exact h.skips taken (k + 1) done s

theorem elseIf {cond : Condition} (hn : p.instructions[n]? = some (.elseIf cond))
    (h : Follows ι p budget (n + 1) ⟨b, (arms, after) :: chains⟩) :
    Follows ι p (budget + 1) n ⟨.done, (.elseIf cond b arms, after) :: chains⟩ where
  runs taken s := by
    rw [Program.runBranching_succ hn]
    exact h.skips (taken - 1) 0 true s
  skips taken k done s := by
    rw [Program.runBranching_succ hn]
    match k, done with
    | 0, true => exact h.skips taken 0 true s
    | 0, false =>
      rcases ht : cond.test p s with ⟨holds, s'⟩
      simp only [Program.advance, Nesting.isSkipping, Nesting.isPending, Nat.zero_add,
        Nat.lt_add_one, decide_true, Bool.not_true, Bool.not_false, Bool.false_eq_true,
        BEq.rfl, Bool.and_self, if_true, if_false, Outlook.skip, Arms.run, ht]
      cases holds
      · exact h.skips taken 0 false s'
      · exact h.runs (taken + 1) s'
    | k + 1, done => exact h.skips taken (k + 1) done s

theorem ifThen {cond : Condition} (hn : p.instructions[n]? = some (.ifThen cond))
    (h : Follows ι p budget (n + 1) ⟨b, (arms, after) :: chains⟩) :
    Follows ι p (budget + 1) n ⟨.chain cond b arms after, chains⟩ where
  runs taken s := by
    rw [Program.runBranching_succ hn]
    rcases ht : cond.test p s with ⟨holds, s'⟩
    simp only [Program.advance, Nesting.isSkipping, Nat.lt_irrefl, decide_false,
      Bool.false_eq_true, if_false, Outlook.run, Block.run, Run.andThen_assoc, ht]
    cases holds
    · exact h.skips taken 0 false s'
    · exact h.runs (taken + 1) s'
  skips taken k done s := by
    rw [Program.runBranching_succ hn, ← Outlook.skip_deeper k done (arms, after)]
    exact h.skips taken (k + 1) done s

end Follows

/-- The machine follows what it can read ahead, on any budget that covers the
instructions ahead. -/
theorem follows_read : ∀ (l : List Instruction) {o : Outlook} {n budget : Nat},
    Outlook.read? l = some o → p.instructions.toList.drop n = l → l.length ≤ budget →
    Follows ι p budget n o := by
  intro l
  induction l with
  | nil =>
    intro o n budget hread hl _
    simp only [Outlook.read?, Option.some.injEq] at hread
    subst hread
    exact Follows.last (Program.getElem?_of_drop_nil hl)
  | cons ins l ih =>
    intro o n budget hread hl hlen
    obtain ⟨hn, hrest⟩ := Program.getElem?_of_drop hl
    obtain ⟨budget, rfl⟩ := Nat.exists_eq_add_of_le' (Nat.le_trans (Nat.le_add_left 1 _) hlen)
    have hbudget : l.length ≤ budget := Nat.le_of_succ_le_succ hlen
    simp only [Outlook.read?] at hread
    -- one lemma for each way in which the instruction is read
    split at hread <;> simp only [reduceCtorEq, Option.some.injEq] at hread <;> subst hread
    · next hr => exact Follows.operation hn (ih hr hrest hbudget)
    · next hr => exact Follows.discard hn (ih hr hrest hbudget)
    · next hr => exact Follows.endIf hn (ih hr hrest hbudget)
    · next hr => exact Follows.elseIf hn (ih hr hrest hbudget)
    · next hr => exact Follows.otherwise hn (ih hr hrest hbudget)
    · next hr => exact Follows.ifThen hn (ih hr hrest hbudget)

/-! ## Sealed programs have a tree -/

/-- Whether an instruction is a jump. -/
def Instruction.isJump : Instruction → Bool
  | .goto _ => true
  | _ => false

/-- What passes the check with so many open blocks can be read, and so many chains
are around it. -/
theorem Outlook.read?_of_checkBlocks {length : Nat} : ∀ {l : List Instruction} {depth : Nat},
    checkBlocks length depth l = .ok () → (∀ ins ∈ l, ins.isJump = false) →
    ∃ o, Outlook.read? l = some o ∧ o.chains.length = depth := by
  intro l
  induction l with
  | nil =>
    intro depth hcheck _
    cases depth with
    | zero => exact ⟨_, rfl, rfl⟩
    | succ depth => simp [checkBlocks] at hcheck
  | cons ins l ih =>
    intro depth hcheck hjump
    have hins := hjump ins List.mem_cons_self
    have hl : ∀ ins ∈ l, ins.isJump = false := fun x hx => hjump x (List.mem_cons_of_mem ins hx)
    cases ins with
    | operation op =>
      obtain ⟨⟨b, chains⟩, hread, hlen⟩ := ih (by simpa [checkBlocks] using hcheck) hl
      exact ⟨⟨.operation op b, chains⟩, by simp only [read?, hread], hlen⟩
    | discard =>
      obtain ⟨⟨b, chains⟩, hread, hlen⟩ := ih (by simpa [checkBlocks] using hcheck) hl
      exact ⟨⟨.discard b, chains⟩, by simp only [read?, hread], hlen⟩
    | ifThen cond =>
      obtain ⟨⟨b, chains⟩, hread, hlen⟩ := ih (by simpa [checkBlocks] using hcheck) hl
      -- the innermost chain behind the `if` is the one that it opens
      obtain ⟨⟨arms, after⟩, chains, rfl⟩ := List.exists_cons_of_length_eq_add_one hlen
      exact ⟨⟨.chain cond b arms after, chains⟩, by simp only [read?, hread],
        Nat.succ.inj hlen⟩
    | endIf =>
      cases depth with
      | zero => simp [checkBlocks] at hcheck
      | succ depth =>
        obtain ⟨⟨b, chains⟩, hread, hlen⟩ := ih (by simpa [checkBlocks] using hcheck) hl
        exact ⟨⟨.done, (.none, b) :: chains⟩, by simp only [read?, hread], congrArg (· + 1) hlen⟩
    | elseIf cond =>
      cases depth with
      | zero => simp [checkBlocks] at hcheck
      | succ depth =>
        obtain ⟨⟨b, chains⟩, hread, hlen⟩ := ih (by simpa [checkBlocks] using hcheck) hl
        obtain ⟨⟨arms, after⟩, chains, rfl⟩ := List.exists_cons_of_length_eq_add_one hlen
        exact ⟨⟨.done, (.elseIf cond b arms, after) :: chains⟩, by simp only [read?, hread], hlen⟩
    | otherwise =>
      cases depth with
      | zero => simp [checkBlocks] at hcheck
      | succ depth =>
        obtain ⟨⟨b, chains⟩, hread, hlen⟩ := ih (by simpa [checkBlocks] using hcheck) hl
        obtain ⟨⟨arms, after⟩, chains, rfl⟩ := List.exists_cons_of_length_eq_add_one hlen
        exact ⟨⟨.done, (.otherwise b arms, after) :: chains⟩, by simp only [read?, hread], hlen⟩
    | goto target => simp [Instruction.isJump] at hins

theorem Block.exists_parse? (hcheck : p.checkStructure = .ok ())
    (hjump : ∀ ins ∈ p.instructions, ins.isJump = false) :
    ∃ b, Block.parse? p.instructions.toList = some b := by
  obtain ⟨⟨b, chains⟩, hread, hlen⟩ := Outlook.read?_of_checkBlocks hcheck
    fun ins hins => hjump ins (Array.mem_toList_iff.1 hins)
  obtain rfl := List.length_eq_zero_iff.1 hlen
  exact ⟨b, by simp only [Block.parse?, hread]⟩

/-! ## Runs of a tree -/

theorem Block.runBranching_eq {b : Block} (hb : Block.parse? p.instructions.toList = some b)
    (s : State ι) : p.runBranching p.stepLimit ⟨0, Nesting.start, s⟩ = b.run p s := by
  have hfollows : Follows ι p p.stepLimit 0 ⟨b, []⟩ :=
    follows_read p.instructions.toList (Block.read?_of_parse? hb) rfl Program.length_le_stepLimit
  have hrun := hfollows.runs 0 s
  rw [Outlook.run] at hrun
  exact hrun.trans (Run.andThen_id _)

/-- Without branches, running from front to back is running the tree. -/
theorem Block.runLinear_code : ∀ (b : Block) (s : State ι),
    (∀ ins ∈ b.code, ins.isBranch = false) → p.runLinear b.code s = b.run p s
  | .done, _, _ => rfl
  | .operation o rest, s, h =>
    Block.runLinear_code rest (o.run p s) fun x hx => h x (List.mem_cons_of_mem _ hx)
  | .discard _, _, _ => rfl
  | .chain cond _ _ _, _, h => by
    have hcond := h (.ifThen cond) List.mem_cons_self
    simp [Instruction.isBranch] at hcond

mutual

/-- A block never faults. -/
theorem Block.run_ending (reason : ProgramError) : ∀ (b : Block) (s : State ι),
    (b.run p s).ending ≠ .faulted reason
  | .done, _ => Ending.noConfusion
  | .operation o rest, s => Block.run_ending reason rest (o.run p s)
  | .discard _, _ => Ending.noConfusion
  | .chain cond body others rest, s => by
    unfold Block.run
    dsimp only
    refine Run.andThen_ending ?_ (Block.run_ending reason rest)
    split
    · exact Block.run_ending reason body _
    · exact Arms.run_ending reason others _

theorem Arms.run_ending (reason : ProgramError) : ∀ (arms : Arms) (s : State ι),
    (arms.run p s).ending ≠ .faulted reason
  | .none, _ => Ending.noConfusion
  | .elseIf cond body others, s => by
    unfold Arms.run
    dsimp only
    split
    · exact Block.run_ending reason body _
    · exact Arms.run_ending reason others _
  | .otherwise body _, s => Block.run_ending reason body s

end

theorem Program.run_eq (hp : p.WellFormed) {b : Block}
    (hb : Block.parse? p.instructions.toList = some b) (s : State ι) : p.run s = b.run p s := by
  unfold Program.run
  split
  · exact Block.runBranching_eq hb s
  · next hbranches =>
    have hcode := Block.parse?_eq_some_iff.1 hb
    rw [← hcode]
    refine Block.runLinear_code b s fun ins hins => ?_
    rw [hp.branches, Bool.not_eq_true, Array.any_eq_false'] at hbranches
    rw [hcode, Array.mem_toList_iff] at hins
    exact eq_false_of_ne_true (hbranches ins hins)

theorem Block.execute_eq (hrun : p.isRunnable = true) {b : Block} {i : ι} {r : Registers}
    (hb : p.run ⟨i, r, #[]⟩ = b.run p ⟨i, r, #[]⟩) : p.execute i r = b.execute p i r := by
  unfold Program.execute Block.execute
  rw [if_pos hrun, hb]
  dsimp only
  split
  · next reason h => exact absurd h (Block.run_ending reason b _)
  · rw [Array.append_empty]

/-- A sealed program without jumps has exactly one tree, and running it is running
that tree, for every invocation and every register file. No such run is cut off
or faults, so the program stays as it is. -/
theorem execute_structured (hp : p.Reachable) (hsealed : p.isSealed = true)
    (hjump : ∀ ins ∈ p.instructions, ins.isJump = false) :
    ∃ b : Block, Block.parse? p.instructions.toList = some b ∧
      (∀ b' : Block, b'.code = p.instructions.toList ↔ b' = b) ∧
      (∀ s : State ι, p.runBranching p.stepLimit ⟨0, Nesting.start, s⟩ = b.run p s ∧
        p.run s = b.run p s ∧ ∀ reason, (b.run p s).ending ≠ .faulted reason) ∧
      (p.isInvalid = false → ∀ (i : ι) (r : Registers), p.execute i r = b.execute p i r) := by
  have hwell := hp.wellFormed
  obtain ⟨b, hb⟩ := Block.exists_parse? (hwell.structured hsealed) hjump
  have hrun : ∀ s : State ι, p.run s = b.run p s := p.run_eq hwell hb
  refine ⟨b, hb, fun b' => ?_, fun s => ⟨?_, hrun s, fun reason => ?_⟩, fun hvalid i r => ?_⟩
  · rw [← Block.parse?_eq_some_iff, hb, Option.some.injEq, eq_comm]
  · exact Block.runBranching_eq hb s
  · exact Block.run_ending reason b s
  · have hrunnable : p.isRunnable = true := by simp [Program.isRunnable, hsealed, hvalid]
    exact Block.execute_eq hrunnable (hrun _)

/-- Two chains, one inside the other, the inner with an arm behind its `else`. -/
def nestedChains : Program :=
  [.push "=" [.name "v", .literal (.float 1)],
    .push "if" [.name "v", .name ">", .literal (.float 0)],
    .push "if" [.name "v", .name "<", .literal (.float 0)],
    .push "else" [],
    .push "+=" [.name "v", .literal (.float 1)],
    .push "elseif" [.name "v", .name ">", .literal (.float 0)],
    .push "end" [],
    .push "else" [],
    .push "discard" [],
    .push "end" [],
    .seal].foldl Program.edit (Program.new .fragment)

theorem execute_nestedChains : ∃ b : Block,
    Block.parse? nestedChains.instructions.toList = some b ∧
      ∀ (f : Fragment) (r : Registers), nestedChains.execute f r = b.execute nestedChains f r := by
  have hreach : nestedChains.Reachable := (Program.Reachable.new .fragment).foldl _
  have hsealed : nestedChains.isSealed = true := by decide +kernel
  have hjump : ∀ ins ∈ nestedChains.instructions, ins.isJump = false := by decide +kernel
  obtain ⟨b, hb, -, -, hexecute⟩ := execute_structured (ι := Fragment) hreach hsealed hjump
  exact ⟨b, hb, hexecute (by decide +kernel)⟩

end Shading
