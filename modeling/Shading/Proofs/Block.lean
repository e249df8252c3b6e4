import Shading.Execution

/- Programs as trees. A program without jumps is a sequence of operations and
   chains, and a chain has arms: the first under its `if`, the others under an
   `elseif` or an `else`, in any order and number. `Block.code` writes a tree
   down as instructions, `Block.parse?` reads it back, and each is the inverse of
   the other (`parse?_eq_some_iff`), so a list of instructions has one tree at
   most.

   `Block.run` is the structured meaning: a chain tries its conditions one after
   the other, each in the state that the one before it left, runs the body of
   the first arm whose condition holds (an `else` always does) and goes on behind
   its end. It knows no counters and no positions. -/
namespace Shading

mutual

/-- A sequence of operations and chains. -/
inductive Block where
  | done
  | operation (o : Operation) (rest : Block)
  | discard (rest : Block)
  | chain (cond : Condition) (body : Block) (others : Arms) (rest : Block)

/-- The arms of a chain behind its first. -/
inductive Arms where
  | none
  | elseIf (cond : Condition) (body : Block) (others : Arms)
  | otherwise (body : Block) (others : Arms)

end

mutual

/-- The instructions of a block. -/
def Block.code : Block → List Instruction
  | .done => []
  | .operation o rest => .operation o :: rest.code
  | .discard rest => .discard :: rest.code
  | .chain cond body others rest => .ifThen cond :: (body.code ++ (others.code ++ rest.code))

/-- The instructions of some arms, with the end of their chain. -/
def Arms.code : Arms → List Instruction
  | .none => [.endIf]
  | .elseIf cond body others => .elseIf cond :: (body.code ++ others.code)
  | .otherwise body others => .otherwise :: (body.code ++ others.code)

end

/-! ## Reading a tree -/

/-- What lies ahead of a point in a program: the rest of the block it is in, and
for each chain around it, from the inside out, the arms still to come and the
block behind its end. -/
structure Outlook where
  block : Block
  chains : List (Arms × Block)

namespace Outlook

/-- The instructions of the chains around a point. -/
def chainsCode : List (Arms × Block) → List Instruction
  | [] => []
  | (arms, rest) :: chains => arms.code ++ (rest.code ++ chainsCode chains)

/-- The instructions ahead. -/
def code (o : Outlook) : List Instruction := o.block.code ++ chainsCode o.chains

/-- Reads the instructions up to the end of a program, last one first. -/
def read? : List Instruction → Option Outlook
  | [] => some ⟨.done, []⟩
  | ins :: rest =>
    match ins, read? rest with
    | .operation o, some ⟨b, chains⟩ => some ⟨.operation o b, chains⟩
    | .discard, some ⟨b, chains⟩ => some ⟨.discard b, chains⟩
    | .endIf, some ⟨b, chains⟩ => some ⟨.done, (.none, b) :: chains⟩
    | .elseIf cond, some ⟨b, (arms, after) :: chains⟩ =>
      some ⟨.done, (.elseIf cond b arms, after) :: chains⟩
    | .otherwise, some ⟨b, (arms, after) :: chains⟩ =>
      some ⟨.done, (.otherwise b arms, after) :: chains⟩
    | .ifThen cond, some ⟨b, (arms, after) :: chains⟩ =>
      some ⟨.chain cond b arms after, chains⟩
    | _, _ => none

theorem code_of_read? {l : List Instruction} {o : Outlook} (h : read? l = some o) :
    o.code = l := by
  induction l generalizing o with
  | nil =>
    simp only [read?, Option.some.injEq] at h
    subst h
    rfl
  | cons ins l ih =>
    simp only [read?] at h
    split at h <;> simp only [reduceCtorEq, Option.some.injEq] at h <;> subst h
    all_goals
      next hr =>
      have hl := ih hr
      simp only [code, chainsCode] at hl
      simp [code, chainsCode, Block.code, Arms.code, ← hl]

end Outlook

/-- Reads a whole program as a block, unless it has a jump or its blocks are not
balanced. -/
def Block.parse? (l : List Instruction) : Option Block :=
  match Outlook.read? l with
  | some ⟨b, []⟩ => some b
  | _ => none

mutual

/-- Before something that closes the block, its instructions are read as the
block. -/
theorem Block.read?_code : ∀ (b : Block) {l : List Instruction} {chains : List (Arms × Block)},
    Outlook.read? l = some ⟨.done, chains⟩ → Outlook.read? (b.code ++ l) = some ⟨b, chains⟩
  | .done, _, _, h => h
  | .operation _ rest, _, _, h => by
    simp only [Block.code, List.cons_append, Outlook.read?, Block.read?_code rest h]
  | .discard rest, _, _, h => by
    simp only [Block.code, List.cons_append, Outlook.read?, Block.read?_code rest h]
  | .chain cond body others rest, l, chains, h => by
    have hrest := Block.read?_code rest h
    have hothers := Arms.read?_code others hrest
    have hbody := Block.read?_code body hothers
    simp only [Block.code, List.cons_append, List.append_assoc, Outlook.read?, hbody]

theorem Arms.read?_code : ∀ (arms : Arms) {l : List Instruction} {after : Block}
    {chains : List (Arms × Block)}, Outlook.read? l = some ⟨after, chains⟩ →
    Outlook.read? (arms.code ++ l) = some ⟨.done, (arms, after) :: chains⟩
  | .none, _, _, _, h => by
    simp only [Arms.code, List.cons_append, List.nil_append, Outlook.read?, h]
  | .elseIf cond body others, l, after, chains, h => by
    have hbody := Block.read?_code body (Arms.read?_code others h)
    simp only [Arms.code, List.cons_append, List.append_assoc, Outlook.read?, hbody]
  | .otherwise body others, l, after, chains, h => by
    have hbody := Block.read?_code body (Arms.read?_code others h)
    simp only [Arms.code, List.cons_append, List.append_assoc, Outlook.read?, hbody]

end

theorem Block.read?_of_parse? {l : List Instruction} {b : Block} (h : Block.parse? l = some b) :
    Outlook.read? l = some ⟨b, []⟩ := by
  simp only [Block.parse?] at h
  split at h
  · next hr =>
    rw [Option.some.injEq] at h
    rw [hr, h]
  · simp at h

/-- A list of instructions is read as a block exactly if it is the code of that
block. -/
theorem Block.parse?_eq_some_iff {l : List Instruction} {b : Block} :
    Block.parse? l = some b ↔ b.code = l := by
  constructor
  · intro h
    have hc := Outlook.code_of_read? (Block.read?_of_parse? h)
    simpa [Outlook.code, Outlook.chainsCode] using hc
  · rintro rfl
    have h := Block.read?_code b (l := []) rfl
    rw [List.append_nil] at h
    simp only [Block.parse?, h]

/-! ## The meaning of a tree -/

variable {ι : Type} [Invocation ι]

/-- Goes on after a run that came to its end. -/
def Run.andThen (r : Run ι) (next : State ι → Run ι) : Run ι :=
  match r.ending with
  | .completed => next r.state
  | _ => r

mutual

/-- Runs a block. -/
def Block.run (p : Program) : Block → State ι → Run ι
  | .done, s => ⟨s, .completed⟩
  | .operation o rest, s => rest.run p (o.run p s)
  | .discard _, s => ⟨s.discard, .discarded⟩
  | .chain cond body others rest, s =>
    let (holds, s) := cond.test p s
    (if holds then body.run p s else others.run p s).andThen (rest.run p)

/-- Runs the first of some arms whose condition holds, or none. -/
def Arms.run (p : Program) : Arms → State ι → Run ι
  | .none, s => ⟨s, .completed⟩
  | .elseIf cond body others, s =>
    let (holds, s) := cond.test p s
    if holds then body.run p s else others.run p s
  | .otherwise body _, s => body.run p s

end

/-- Runs a block as a whole program: what is touched, what counts and what is
reported, if no fault can happen. -/
def Block.execute (p : Program) (b : Block) (i : ι) (r : Registers) : Execution ι :=
  let run := b.run p ⟨i, r, #[]⟩
  { isValid := run.ending == .completed && Invocation.isAccepted run.state.invocation
    invocation := run.state.invocation
    registers := run.state.registers
    program := p
    events := run.state.events }

end Shading
