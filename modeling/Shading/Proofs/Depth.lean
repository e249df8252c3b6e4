import Shading.Proofs.Admission
import Shading.Proofs.Restart
import Shading.Proofs.Structured

/- Counters and open blocks. How many blocks are open at an instruction can be read off the
   program: those that begin before it less those that end (`Program.depth`). What a fetch may
   do to the nesting is said once (`Nesting.Next`). As long as the machine goes from one
   instruction to the next, the blocks that are taken and those that are skipped are together
   as many as are open (`Next.tracks`); and since a program that passes the check ends no arm
   where no block is open (`Program.depth_pos`), there always is one to take away.

   A jump leaves the counters as they are, so behind it the number of blocks taken says
   nothing. But it is only made while nothing is skipped, and so no more is ever skipped than
   is open (`Reaches.within`). -/
namespace Shading

namespace Instruction

/-- Whether a block begins at an instruction. -/
def begins : Instruction → Bool
  | .ifThen _ => true
  | _ => false

/-- Whether a block ends at an instruction. -/
def ends : Instruction → Bool
  | .endIf => true
  | _ => false

/-- Whether an arm of a block ends at an instruction, and perhaps the block with it. If that arm
is running, one is subtracted from the number of blocks taken, and nowhere else. -/
def endsArm : Instruction → Bool
  | .elseIf _ | .otherwise | .endIf => true
  | _ => false

end Instruction

/-- How many blocks some instructions leave open: those that they begin less those that they
end. -/
def openBlocks (l : List Instruction) : Int :=
  l.countP Instruction.begins - l.countP Instruction.ends

/-- How many blocks are open at a position of a program. -/
def Program.depth (p : Program) (n : Nat) : Int := openBlocks (p.instructions.toList.take n)

/-! ## Open blocks in a program that passes the check -/

section

variable {length depth : Nat} {ins : Instruction} {l : List Instruction}

theorem openBlocks_append (l l' : List Instruction) :
    openBlocks (l ++ l') = openBlocks l + openBlocks l' := by
  simp only [openBlocks, List.countP_append]
  omega

theorem openBlocks_ifThen (cond : Condition) : openBlocks [.ifThen cond] = 1 := rfl

theorem openBlocks_endIf : openBlocks [.endIf] = -1 := rfl

theorem openBlocks_other (hbegins : ins.begins = false) (hends : ins.ends = false) :
    openBlocks [ins] = 0 := by
  cases ins with
  | ifThen _ => cases hbegins
  | endIf => cases hends
  | operation _ | discard | elseIf _ | otherwise | goto _ => rfl

/-- What passes the check passes it behind its first instruction, with the blocks that are open
there; and one is open where an arm ends. -/
theorem checkBlocks_next (h : checkBlocks length depth (ins :: l) = .ok ()) :
    (ins.endsArm = true → 0 < depth) ∧ ∃ depth' : Nat, checkBlocks length depth' l = .ok () ∧
      (depth : Int) + openBlocks [ins] = depth' := by
  cases ins with
  | operation _ | discard | goto _ =>
    refine ⟨nofun, depth, ((checkBlocks_plain rfl depth).1 h).2, ?_⟩
    rw [openBlocks_other rfl rfl, Int.add_zero]
  | ifThen cond =>
    rw [checkBlocks] at h
    exact ⟨nofun, depth + 1, h, rfl⟩
  | elseIf _ | otherwise =>
    cases depth with
    | zero => simp [checkBlocks] at h
    | succ depth =>
      rw [checkBlocks] at h
      refine ⟨fun _ => Nat.succ_pos depth, depth + 1, h, ?_⟩
      rw [openBlocks_other rfl rfl, Int.add_zero]
  | endIf =>
    cases depth with
    | zero => simp [checkBlocks] at h
    | succ depth =>
      rw [checkBlocks] at h
      refine ⟨fun _ => Nat.succ_pos depth, depth, h, ?_⟩
      rw [openBlocks_endIf]
      omega

/-- At each of its positions, what passes the check passes the rest of it with the blocks that
are open there. -/
theorem exists_openBlocks (h : checkBlocks length 0 l = .ok ()) (n : Nat) :
    ∃ depth : Nat, openBlocks (l.take n) = depth ∧ checkBlocks length depth (l.drop n) = .ok () := by
  induction n with
  | zero => exact ⟨0, rfl, h⟩
  | succ n ih =>
    obtain ⟨depth, hdepth, hrest⟩ := ih
    rcases Nat.lt_or_ge n l.length with hn | hn
    · rw [List.drop_eq_getElem_cons hn] at hrest
      obtain ⟨-, depth', hrest', hnext⟩ := checkBlocks_next hrest
      refine ⟨depth', ?_, hrest'⟩
      rw [← List.take_append_getElem hn, openBlocks_append, hdepth, hnext]
    · have hn' := Nat.le_succ_of_le hn
      rw [List.take_of_length_le hn] at hdepth
      rw [List.drop_eq_nil_of_le hn] at hrest
      refine ⟨depth, ?_, ?_⟩
      · rw [List.take_of_length_le hn', hdepth]
      · rwa [List.drop_eq_nil_of_le hn']

end

namespace Program

variable {p : Program} {n : Nat} {ins : Instruction}

theorem depth_succ (hins : p.instructions[n]? = some ins) :
    p.depth (n + 1) = p.depth n + openBlocks [ins] := by
  rw [← Array.getElem?_toList] at hins
  rw [depth, List.take_add_one, hins, Option.toList_some, openBlocks_append]
  rfl

theorem depth_nonneg (h : p.checkStructure = .ok ()) (n : Nat) : 0 ≤ p.depth n := by
  obtain ⟨depth, hdepth, -⟩ := exists_openBlocks h n
  rw [Program.depth, hdepth]
  exact Int.natCast_nonneg depth

/-- Where an arm ends a block is open. -/
theorem depth_pos (h : p.checkStructure = .ok ()) (hins : p.instructions[n]? = some ins)
    (harm : ins.endsArm = true) : 0 < p.depth n := by
  obtain ⟨depth, hdepth, hrest⟩ := exists_openBlocks h n
  rw [← Array.getElem?_toList] at hins
  obtain ⟨hn, hget⟩ := List.getElem?_eq_some_iff.1 hins
  rw [List.drop_eq_getElem_cons hn, hget] at hrest
  rw [Program.depth, hdepth]
  exact Int.natCast_pos.2 ((checkBlocks_next hrest).1 harm)

end Program

/-! ## What a fetch does to the counters -/

namespace Nesting

/-- What the nesting may become at an instruction behind which the machine goes on. -/
inductive Next : Instruction → Nesting → Nesting → Prop
  | enter {n : Nesting} {cond : Condition} (holds : Bool) : n.isSkipping = false →
    Next (.ifThen cond) n (n.enter holds)
  | deepen {n : Nesting} {cond : Condition} : Next (.ifThen cond) n n.deepen
  | close {n : Nesting} {ins : Instruction} : ins.begins = false → ins.ends = false →
    ins.endsArm = true → n.isSkipping = false → Next ins n n.close
  | take {n : Nesting} {ins : Instruction} : ins.begins = false → ins.ends = false →
    n.isPending = true → Next ins n n.take
  | leave (n : Nesting) : Next .endIf n n.leave
  | stay {n : Nesting} {ins : Instruction} : ins.begins = false → ins.ends = false → Next ins n n

/-- As many blocks are taken or skipped as are open. -/
def Tracks (n : Nesting) (depth : Int) : Prop := n.taken + n.skipped = depth

/-- No more blocks are skipped than are open. -/
def Within (n : Nesting) (depth : Int) : Prop := n.skipped ≤ depth

variable {n m : Nesting} {ins : Instruction} {depth : Int}

theorem skipped_eq_zero (h : n.isSkipping = false) : n.skipped = 0 := by
  simpa [isSkipping] using h

theorem skipped_eq_one (h : n.isPending = true) : n.skipped = 1 := by
  simp only [isPending, Bool.and_eq_true, beq_iff_eq] at h
  exact h.1

/-- The end of a block takes one from the blocks that are skipped, or else from those taken. -/
theorem leave_skipped (n : Nesting) : n.leave.skipped = n.skipped - 1 := by
  obtain ⟨taken, skipped, done⟩ := n
  match skipped with
  | 0 | 1 | _ + 2 => rfl

theorem leave_taken (n : Nesting) :
    n.leave.taken = if n.skipped = 0 then n.taken - 1 else n.taken := by
  obtain ⟨taken, skipped, done⟩ := n
  match skipped with
  | 0 | 1 | _ + 2 => rfl

theorem Next.tracks (h : Next ins n m) (hn : n.Tracks depth)
    (harm : ins.endsArm = true → 0 < depth) : m.Tracks (depth + openBlocks [ins]) := by
  unfold Tracks at hn ⊢
  cases h with
  | enter holds hrun =>
    -- nothing was skipped, so the block that is entered is taken or skipped alone
    have h0 := skipped_eq_zero hrun
    rw [openBlocks_ifThen]
    cases holds <;> simp only [Nesting.enter, Bool.false_eq_true, if_false, if_true] <;> omega
  | deepen =>
    rw [openBlocks_ifThen]
    simp only [Nesting.deepen]
    omega
  | close hbegins hends hins hrun =>
    -- from the blocks taken to those skipped, and there is one to take away
    have h0 := skipped_eq_zero hrun
    have hpos := harm hins
    rw [openBlocks_other hbegins hends]
    simp only [Nesting.close]
    omega
  | take hbegins hends hpending =>
    have h1 := skipped_eq_one hpending
    rw [openBlocks_other hbegins hends]
    simp only [Nesting.take]
    omega
  | leave =>
    have hpos := harm rfl
    rw [openBlocks_endIf, leave_skipped, leave_taken]
    split <;> omega
  | stay hbegins hends =>
    rw [openBlocks_other hbegins hends]
    omega

/-- No more is skipped than is open just if some number of blocks taken would make up the rest. -/
theorem within_iff : n.Within depth ↔ ∃ m : Nesting, m.Agrees n ∧ m.Tracks depth := by
  constructor
  · intro h
    unfold Within at h
    refine ⟨⟨(depth - n.skipped).toNat, n.skipped, n.done⟩, ⟨rfl, rfl⟩, ?_⟩
    show ((depth - n.skipped).toNat + n.skipped : Int) = depth
    omega
  · rintro ⟨m, ⟨hskipped, -⟩, htracks⟩
    unfold Tracks at htracks
    unfold Within
    omega

end Nesting

variable {ι : Type} [Invocation ι] {p : Program}

namespace Program

theorem advance_nesting {c d : Cursor ι} {ins : Instruction} (h : p.advance ins c = .next d) :
    Nesting.Next ins c.nesting d.nesting := by
  cases ins with
  | ifThen cond =>
    simp only [advance] at h
    split at h
    · cases h
      exact .deepen
    · next hrun =>
      cases h
      exact .enter _ (eq_false_of_ne_true hrun)
  | elseIf cond =>
    simp only [advance] at h
    split at h
    · next hrun =>
      cases h
      exact .close rfl rfl rfl (by simpa using hrun)
    · split at h
      · next hpending =>
        cases h
        show Nesting.Next _ _ (if _ then _ else _)
        split
        · exact .take rfl rfl hpending
        · exact .stay rfl rfl
      · cases h
        exact .stay rfl rfl
  | otherwise =>
    simp only [advance] at h
    split at h
    · next hrun =>
      cases h
      exact .close rfl rfl rfl (by simpa using hrun)
    · split at h
      · next hpending =>
        cases h
        exact .take rfl rfl hpending
      · cases h
        exact .stay rfl rfl
  | endIf =>
    cases h
    exact .leave _
  | goto target =>
    simp only [advance] at h
    split at h
    · cases h
      exact .stay rfl rfl
    · split at h <;> cases h
      exact .stay rfl rfl
  | discard | operation o =>
    simp only [advance] at h
    split at h <;> cases h
    all_goals exact .stay rfl rfl

/-- How many blocks are taken decides nothing, so it may be taken to be the right number. -/
theorem advance_within {c d : Cursor ι} {ins : Instruction} {depth : Int}
    (hadv : p.advance ins c = .next d) (hc : c.nesting.Within depth)
    (harm : ins.endsArm = true → 0 < depth) : d.nesting.Within (depth + openBlocks [ins]) := by
  obtain ⟨n, hn, htracks⟩ := Nesting.within_iff.1 hc
  have hagrees : Cursor.Agrees { c with nesting := n } c := ⟨rfl, hn, rfl⟩
  have hstep := advance_agrees (p := p) hagrees ins
  rw [hadv] at hstep
  cases hadv' : p.advance ins { c with nesting := n } with
  | next d' =>
    rw [hadv'] at hstep
    exact Nesting.within_iff.2 ⟨_, hstep.nesting, (advance_nesting hadv').tracks htracks harm⟩
  | stop r =>
    rw [hadv'] at hstep
    exact hstep.elim

/-! ## Whole runs -/

variable {n : Nat} {s : State ι} {c : Cursor ι}

/-- No more blocks are skipped than are open, wherever the machine has jumped. -/
theorem Reaches.within (hcheck : p.checkStructure = .ok ())
    (h : p.Reaches n ⟨0, Nesting.start, s⟩ c) : c.nesting.Within (p.depth c.position) := by
  generalize hstart : (⟨0, Nesting.start, s⟩ : Cursor ι) = start at h
  induction h with
  | refl c =>
    subst hstart
    exact depth_nonneg hcheck 0
  | step _ hins hadv ih =>
    rcases advance_next hadv with hpos | ⟨target, rfl, hrun, htarget⟩
    · rw [hpos, depth_succ hins]
      exact advance_within hadv (ih hstart) (depth_pos hcheck hins)
    · -- a jump is made while nothing is skipped, and leaves the counters as they are
      rw [advance_goto hrun htarget] at hadv
      have hnesting := congrArg Cursor.nesting (Advance.next.inj hadv)
      rw [Nesting.Within, ← hnesting, Nesting.skipped_eq_zero hrun]
      exact depth_nonneg hcheck _

theorem Reaches.tracks (hcheck : p.checkStructure = .ok ())
    (hjump : ∀ ins ∈ p.instructions, ins.isJump = false)
    (h : p.Reaches n ⟨0, Nesting.start, s⟩ c) : c.nesting.Tracks (p.depth c.position) := by
  generalize hstart : (⟨0, Nesting.start, s⟩ : Cursor ι) = start at h
  induction h with
  | refl c =>
    subst hstart
    rfl
  | step _ hins hadv ih =>
    have hnext := (advance_nesting hadv).tracks (ih hstart) (depth_pos hcheck hins)
    rcases advance_next hadv with hpos | ⟨target, rfl, -, -⟩
    · rwa [hpos, depth_succ hins]
    · cases hjump _ (Array.mem_of_getElem? hins)

end Program

/-- The counters track the blocks that are open. Wherever the machine stands in a sealed program,
none is remembered as done while nothing is skipped, and no more blocks are skipped than are
open. In a program without jumps the blocks taken and those skipped are together as many as are
open, and where one is subtracted from those taken, because a running arm ends, there is one. -/
theorem counters_track_depth (hp : p.Reachable) (hsealed : p.isSealed = true) {n : Nat}
    {s : State ι} {c : Cursor ι} (h : p.Reaches n ⟨0, Nesting.start, s⟩ c) :
    (c.nesting.skipped = 0 → c.nesting.done = false) ∧
      (c.nesting.skipped : Int) ≤ p.depth c.position ∧
      ((∀ ins ∈ p.instructions, ins.isJump = false) →
        (c.nesting.taken + c.nesting.skipped : Int) = p.depth c.position ∧
        ∀ ins, p.instructions[c.position]? = some ins → ins.endsArm = true →
          c.nesting.skipped = 0 → 0 < c.nesting.taken) := by
  have hcheck := hp.wellFormed.structured hsealed
  refine ⟨h.settled Nesting.settled_start, h.within hcheck, fun hjump => ?_⟩
  have htracks : (c.nesting.taken + c.nesting.skipped : Int) = p.depth c.position :=
    h.tracks hcheck hjump
  refine ⟨htracks, fun ins hins harm hrun => ?_⟩
  have hpos := p.depth_pos hcheck hins harm
  omega

/-- Two chains, one inside the other. The arm of the inner one that was run has just ended, so that
of the two open blocks one is taken and one is skipped, and its other arms stay skipped. -/
theorem counters_track_depth_nested :
    let s : State Fragment := ⟨.ofPosition 0 0, ⟨#[.float 0], #[]⟩, #[]⟩
    ∃ c, nestedChains.Reaches 6 ⟨0, Nesting.start, s⟩ c ∧ c.nesting = ⟨1, 1, true⟩ ∧
      c.position = 6 ∧ nestedChains.depth 6 = 2 ∧
      (c.nesting.taken + c.nesting.skipped : Int) = nestedChains.depth c.position := by
  intro s
  have hreach : nestedChains.Reachable := (Program.Reachable.new .fragment).foldl _
  have hsealed : nestedChains.isSealed = true := by decide +kernel
  have hjump : ∀ ins ∈ nestedChains.instructions, ins.isJump = false := by decide +kernel
  have hcode : nestedChains.instructions.toList.take 6 =
      [.operation (.arith .assign ⟨.slot 0, none⟩ (.literal (.float 1))),
        .ifThen ⟨⟨.slot 0, none⟩, .gt, .literal (.float 0)⟩,
        .ifThen ⟨⟨.slot 0, none⟩, .lt, .literal (.float 0)⟩, .otherwise,
        .operation (.arith .add ⟨.slot 0, none⟩ (.literal (.float 1))),
        .elseIf ⟨⟨.slot 0, none⟩, .gt, .literal (.float 0)⟩] := by
    decide +kernel
  have hfetch : ∀ n, n < 6 → nestedChains.instructions[n]? =
      (nestedChains.instructions.toList.take 6)[n]? := by
    intro n hn
    rw [List.getElem?_take_of_lt hn, Array.getElem?_toList]
  rw [hcode] at hfetch
  have hassign := Program.Reaches.step (.refl ⟨0, Nesting.start, s⟩) (hfetch 0 (by decide)) rfl
  have houter := Program.Reaches.step hassign (hfetch 1 (by decide)) rfl
  obtain ⟨⟨position, nesting, s'⟩, hinner, rfl, rfl⟩ : ∃ c,
      nestedChains.Reaches 3 ⟨0, Nesting.start, s⟩ c ∧ 3 = c.position ∧ ⟨1, 1, false⟩ = c.nesting :=
    ⟨_, .step houter (hfetch 2 (by decide)) (Program.advance_ifThen (by decide +kernel) _), rfl,
      by decide +kernel⟩
  have helse := Program.Reaches.step hinner (hfetch 3 (by decide)) rfl
  have hadd := Program.Reaches.step helse (hfetch 4 (by decide)) rfl
  have hreaches := Program.Reaches.step hadd (hfetch 5 (by decide)) rfl
  obtain ⟨-, -, htracks⟩ := counters_track_depth hreach hsealed hreaches
  exact ⟨_, hreaches, rfl, rfl, by decide +kernel, (htracks hjump).1⟩

end Shading
