import Shading.Proofs.Careful.Attributes
import Shading.Proofs.Fits
import Shading.Proofs.Machine

/- Running by numbers. What an instruction names by number has to be declared or kept by its
   program, and the machine has to stand inside the program or at its end; a slot that only
   the register file lacks, because the file was made for another program, is no mishap and
   reads as having no value. An instruction that fits its program names nothing that is
   not there, and jumps are made inside the program only, so a program whose instructions
   fit runs without a mishap for every invocation on every register file
   (`Careful.execute_eq`). -/
namespace Shading

/-- Every instruction fits the program. -/
def Program.Fitting (p : Program) : Prop := ∀ ins ∈ p.instructions, ins.Fits p

namespace Careful

variable {ι : Type} {p : Program}

/-! ## Names and resources -/

/-- What a register file holds in a slot, which the program has to declare. -/
def slot (p : Program) (r : Registers) (i : Nat) : Careful (Option Value) :=
  if i < p.declarations.size then .ok (r.slot? i) else .error (.slot i)

theorem slot_eq {i : Nat} (h : i < p.declarations.size) (r : Registers) :
    slot p r i = .ok (r.slot? i) := if_pos h

/-- A resource, which the program has to keep. -/
def resource {α : Type} (id : Nat) : Option α → Careful α
  | some x => .ok x
  | none => .error (.handle id)

theorem exists_resource {α : Type} {table : Array (Handle α)} {id : Nat} (h : id < table.size) :
    ∃ x, table[id]?.map Handle.resource = some x :=
  ⟨table[id].resource, by rw [Array.getElem?_eq_getElem h, Option.map_some]⟩

/-! ## Destinations -/

variable [Invocation ι]

/-- The value in a place. -/
def current (p : Program) (s : State ι) : Place → Careful Value
  | .builtin b => .ok (Invocation.read s.invocation b)
  | .slot i => (·.getD default) <$> slot p s.registers i

/-- Stores a value in a place. A read-only built-in and a slot that the file lacks store nothing. -/
def store (p : Program) (s : State ι) (place : Place) (value : Value) : Careful (State ι) :=
  match place with
  | .builtin _ => .ok (s.store place value)
  | .slot i => do
    let _ ← slot p s.registers i
    return s.store place value

/-- Replaces the value in a place by another made from it. -/
def update (p : Program) (s : State ι) (place : Place) (f : Value → Careful Value) :
    Careful (State ι) := do
  let old ← current p s place
  let value ← f old
  store p s place value

theorem current_eq {r : Reference} (h : r.Fits p) (s : State ι) :
    current p s r.place = .ok (s.current r.place) := by
  obtain ⟨place, mask⟩ := r
  cases place with
  | builtin b => rfl
  | slot i => rw [current, slot_eq h, map_ok]; rfl

theorem update_eq {r : Reference} (h : r.Fits p) (s : State ι) {f : Value → Careful Value}
    {g : Value → Value} (hf : ∀ old, f old = .ok (g old)) :
    update p s r.place f = .ok (s.update r.place g) := by
  rw [update, current_eq h, ok_bind, hf, ok_bind]
  obtain ⟨place, mask⟩ := r
  cases place with
  | builtin b => rfl
  | slot i => rw [store, slot_eq h, ok_bind]; rfl

/-- The position at which a texture is read. -/
def position (coords : Operand) : Careful (Float32 × Float32) := do
  let (floats, n) ← packed coords
  let x ← lane floats 0
  let y ← lane floats (if 1 < n then 1 else 0)
  return (x, y)

theorem position_eq (coords : Operand) : position coords = .ok coords.position := by
  simp only [position, packed_eq, ok_bind, Operand.position]
  split <;> rfl

/-- Stores the value of a function of one or two operands in a destination. -/
def storeCall (p : Program) (f : MathFunction) (dst : Reference) (a : Operand)
    (second : Option Operand) (s : State ι) : Careful (State ι) :=
  match f, second with
  | .clamp, some b => update p s dst.place (clamp a b dst.mask)
  | _, _ => do
    match ← evaluate f a second with
    | some value => update p s dst.place fun old => combine .assign old dst.mask value
    | none => return s

theorem storeCall_eq {dst : Reference} (h : dst.Fits p) (f : MathFunction) (a : Operand)
    (second : Option Operand) (s : State ι) :
    storeCall p f dst a second s = .ok (Operation.storeCall f dst a second s) := by
  cases f with
  | clamp =>
    cases second with
    | none => rfl
    | some b => exact update_eq h s (clamp_eq a b dst.mask)
  | unary _ | binary _ | normalize | length | distance | dot | cross =>
    simp only [storeCall, Operation.storeCall, evaluate_eq, ok_bind]
    cases MathFunction.evaluate _ a second with
    | none => rfl
    | some value => exact update_eq h s fun old => combine_eq .assign old dst.mask value

/-! ## Sources -/

variable [CarefulInvocation ι]

/-- What a source reads, and the state afterwards. -/
def read (p : Program) (src : Source) (s : State ι) : Careful (Option Operand × State ι) :=
  match src with
  | .name ⟨.builtin b, mask⟩ => .ok (s.readName? ⟨.builtin b, mask⟩, s)
  | .name ⟨.slot i, mask⟩ => do
    let value ← slot p s.registers i
    return (value.map (Value.operand (Reference.lanes ⟨.slot i, mask⟩)), s)
  | .literal value => .ok (some value, s)
  | .interpolated id => do
    let a ← resource id (p.interpolated? id)
    match s.registers.anchor? id with
    | none => return (none, s)
    | some cache => do
      let (v, cache) ← CarefulInvocation.interpolate s.invocation a cache
      return (v.map fun v => .vec v a.mask,
        { s with registers := s.registers.storeAnchor id cache })
  | .attribute id => do
    let a ← resource id (p.attribute? id)
    let v ← CarefulInvocation.fetch s.invocation a
    return (v.map fun v => .vec v a.mask, s)

theorem read_eq {src : Source} (h : src.Fits p) (s : State ι) :
    read p src s = .ok (src.read p s) := by
  match src, h with
  | .name ⟨.builtin b, mask⟩, _ => rfl
  | .name ⟨.slot i, mask⟩, h =>
    rw [read, slot_eq h, ok_bind]
    rfl
  | .literal value, _ => rfl
  | .interpolated id, h =>
    obtain ⟨a, ha⟩ : ∃ a, p.interpolated? id = some a := exists_resource h.2
    simp only [read, Source.read, ha, resource, ok_bind]
    cases s.registers.anchor? id with
    | none => rfl
    | some cache => simp only [CarefulInvocation.interpolate_eq, ok_bind]; rfl
  | .attribute id, h =>
    obtain ⟨a, ha⟩ : ∃ a, p.attribute? id = some a := exists_resource h.2
    simp only [read, Source.read, ha, resource, ok_bind, CarefulInvocation.fetch_eq]
    rfl

/-- Reads a source and goes on with its value. -/
def andThen (p : Program) (src : Source) (s : State ι)
    (use : Operand → State ι → Careful (State ι)) : Careful (State ι) := do
  match ← read p src s with
  | (some value, s) => use value s
  | (none, s) => return s

theorem andThen_eq {src : Source} (h : src.Fits p) (s : State ι)
    {use : Operand → State ι → Careful (State ι)} {use' : Operand → State ι → State ι}
    (huse : ∀ value s, use value s = .ok (use' value s)) :
    andThen p src s use = .ok (src.andThen p s use') := by
  rw [andThen, read_eq h, ok_bind, Source.andThen]
  rcases src.read p s with ⟨_ | value, s⟩
  · rfl
  · exact huse value s

/-! ## Operations -/

/-- What an operation does. -/
def operation (p : Program) (o : Operation) (s : State ι) : Careful (State ι) :=
  match o with
  | .arith op dst src =>
    andThen p src s fun value s =>
      update p s dst.place fun old => combine op old dst.mask value
  | .transform id dst => do
    let m ← resource id (p.matrix? id)
    update p s dst.place (transform m.apply dst.mask)
  | .compare cmp dst lhs rhs => do
    let (a, s) ← read p lhs s
    let (b, s) ← read p rhs s
    match a, b with
    | some a, some b =>
      update p s dst.place fun old => do
        let verdict ← holds cmp a b
        combine .assign old dst.mask (.bool verdict)
    | _, _ => return s
  | .sample id model dst coords => do
    let texture ← resource id (p.texture? id)
    andThen p coords s fun value s => do
      let (x, y) ← position value
      update p s dst.place fun old =>
        combine .assign old dst.mask (.vec (texture.sample x y model) Mask.xyzq)
  | .call f dst src second =>
    andThen p src s fun a s =>
      match second with
      | none => storeCall p f dst a none s
      | some src => andThen p src s fun b s => storeCall p f dst a (some b) s
  | .convert model dst src =>
    andThen p src s fun value s =>
      let color := p.color.convert model value.full
      let mask := (dst.mask.getD Mask.xyzq).inter Mask.xyz
      update p s dst.place fun old => combine .assign old (some mask) (.vec color Mask.xyz)
  | .print src => do
    let (x, y) := Invocation.position s.invocation
    let (value, s) ← read p src s
    return s.report (.printed x y value)

theorem operation_eq {o : Operation} (h : o.Fits p) (s : State ι) :
    operation p o s = .ok (o.run p s) := by
  cases o with
  | arith op dst src =>
    exact andThen_eq h.2 s fun value s =>
      update_eq h.1.fits s fun old => combine_eq op old dst.mask value
  | transform id dst =>
    obtain ⟨m, hm⟩ : ∃ m, p.matrix? id = some m := exists_resource h.2
    simp only [operation, Operation.run, hm, resource, ok_bind]
    exact update_eq h.1.fits s (transform_eq m.apply dst.mask)
  | compare cmp dst lhs rhs =>
    obtain ⟨hdst, hlhs, hrhs⟩ := h
    simp only [operation, Operation.run, read_eq hlhs, read_eq hrhs, ok_bind]
    rcases lhs.read p s with ⟨a, s⟩
    rcases rhs.read p s with ⟨b, s⟩
    cases a with
    | none => rfl
    | some a =>
      cases b with
      | none => rfl
      | some b =>
        refine update_eq hdst.fits s fun old => ?_
        rw [holds_eq, ok_bind, combine_eq]
  | sample id model dst coords =>
    obtain ⟨texture, htexture⟩ : ∃ t, p.texture? id = some t := exists_resource h.2.1
    simp only [operation, Operation.run, htexture, resource, ok_bind]
    exact andThen_eq h.2.2 s fun value s => by
      rw [position_eq, ok_bind]
      exact update_eq h.1.fits s fun old => combine_eq .assign old dst.mask _
  | call f dst src second =>
    obtain ⟨hdst, hsrc, -, hsecond⟩ := h
    refine andThen_eq hsrc s fun a s => ?_
    cases second with
    | none => exact storeCall_eq hdst.fits f a none s
    | some src =>
      exact andThen_eq (hsecond src rfl).1 s fun b s => storeCall_eq hdst.fits f a (some b) s
  | convert model dst src =>
    exact andThen_eq h.2 s fun value s =>
      update_eq h.1.fits s fun old => combine_eq .assign old _ _
  | print src =>
    have hsrc : src.Fits p := h
    simp only [operation, Operation.run, read_eq hsrc, ok_bind]
    rfl

/-! ## The machine -/

/-- Whether a condition holds, and the state after reading its sides. -/
def test (p : Program) (c : Condition) (s : State ι) : Careful (Bool × State ι) := do
  let old ← current p s c.lhs.place
  match ← read p c.rhs s with
  | (some b, s) => (·, s) <$> holds c.cmp (old.operand c.lhs.lanes) b
  | (none, s) => return (false, s)

theorem test_eq {c : Condition} (h : c.Fits p) (s : State ι) : test p c s = .ok (c.test p s) := by
  rw [test, current_eq h.lhs, ok_bind, read_eq h.rhs, ok_bind, Condition.test]
  rcases c.rhs.read p s with ⟨_ | b, s'⟩
  · rfl
  · simp only [holds_eq, map_ok]
    rfl

/-- Runs instructions from front to back. -/
def runLinear (p : Program) : List Instruction → State ι → Careful (Run ι)
  | [], s => .ok ⟨s, .completed⟩
  | .operation o :: rest, s => do
    let s ← operation p o s
    runLinear p rest s
  | .discard :: _, s => .ok ⟨s.discard, .discarded⟩
  | _ :: rest, s => runLinear p rest s

theorem runLinear_eq : ∀ {code : List Instruction}, (∀ ins ∈ code, ins.Fits p) → ∀ s : State ι,
    runLinear p code s = .ok (p.runLinear code s) := by
  intro code
  induction code with
  | nil => exact fun _ _ => rfl
  | cons ins rest ih =>
    intro h s
    obtain ⟨hins, hrest⟩ := List.forall_mem_cons.1 h
    cases ins with
    | operation o =>
      rw [runLinear, operation_eq hins, ok_bind, ih hrest]
      rfl
    | discard => rfl
    | ifThen _ | elseIf _ | otherwise | endIf | goto _ => exact ih hrest s

/-- The slot that a jump goes by. -/
def target (p : Program) (t : JumpTarget) (r : Registers) : Careful (Option Nat) :=
  match t with
  | .index _ => .ok (t.resolve? p.length r)
  | .uniform i => do
    let _ ← slot p r i
    return t.resolve? p.length r

theorem target_eq {t : JumpTarget} (h : (Instruction.goto t).Fits p) (r : Registers) :
    target p t r = .ok (t.resolve? p.length r) := by
  cases t with
  | index i => rfl
  | uniform i =>
    obtain ⟨d, hd, -⟩ := h
    rw [target, slot_eq (Array.getElem?_eq_some_iff.1 hd).1, ok_bind]
    rfl

/-- What one instruction does to the machine. -/
def advance (p : Program) (ins : Instruction) (c : Cursor ι) : Careful (Advance ι) :=
  let s := c.state
  let n := c.nesting
  let next (n : Nesting) (s : State ι) : Advance ι := .next ⟨c.position + 1, n, s⟩
  match ins with
  | .ifThen cond =>
    if n.isSkipping then .ok (next n.deepen s)
    else do
      let (holds, s) ← test p cond s
      return next (n.enter holds) s
  | .elseIf cond =>
    if !n.isSkipping then .ok (next n.close s)
    else if n.isPending then do
      let (holds, s) ← test p cond s
      return next (if holds then n.take else n) s
    else .ok (next n s)
  | .goto t =>
    if n.isSkipping then .ok (next n s)
    else do
      match ← target p t s.registers with
      | some i => return .next { c with position := i }
      | none => return .stop (.fault s (.badJumpTarget (t.number s.registers) p.length))
  | .operation o =>
    if n.isSkipping then .ok (next n s) else next n <$> operation p o s
  | .otherwise | .endIf | .discard => .ok (p.advance ins c)

theorem advance_eq {ins : Instruction} (h : ins.Fits p) (c : Cursor ι) :
    advance p ins c = .ok (p.advance ins c) := by
  cases ins with
  | ifThen cond =>
    have hcond : cond.Fits p := h
    simp only [advance, Program.advance, test_eq hcond, ok_bind]
    split <;> rfl
  | elseIf cond =>
    have hcond : cond.Fits p := h
    simp only [advance, Program.advance, test_eq hcond, ok_bind]
    split
    · rfl
    · split <;> rfl
  | goto t =>
    simp only [advance, Program.advance, target_eq h, ok_bind]
    split
    · rfl
    · cases t.resolve? p.length c.state.registers <;> rfl
  | operation o =>
    have ho : o.Fits p := h
    simp only [advance, Program.advance, operation_eq ho, map_ok]
    split <;> rfl
  | otherwise | endIf | discard => rfl

/-- The instruction at which the machine stands, if it does not stand at the end. -/
def fetched (p : Program) (position : Nat) : Careful (Option Instruction) :=
  if position ≤ p.length then .ok p.instructions[position]? else .error (.instruction position)

/-- Runs the machine for as many fetches as the budget allows. -/
def runBranching (p : Program) : Nat → Cursor ι → Careful (Run ι)
  | budget, c => do
    match ← fetched p c.position with
    | none => return ⟨c.state, .completed⟩
    | some ins =>
      match budget with
      | 0 => return .fault c.state (.stepLimit p.stepLimit)
      | budget + 1 => do
        match ← advance p ins c with
        | .next c => runBranching p budget c
        | .stop r => return r

theorem runBranching_eq (h : p.Fitting) : ∀ (budget : Nat) (c : Cursor ι), c.position ≤ p.length →
    runBranching p budget c = .ok (p.runBranching budget c) := by
  intro budget
  induction budget with
  | zero =>
    intro c hc
    rw [runBranching, fetched, if_pos hc, ok_bind, Program.runBranching]
    cases p.instructions[c.position]? <;> rfl
  | succ budget ih =>
    intro c hc
    rw [runBranching, fetched, if_pos hc, ok_bind]
    cases hins : p.instructions[c.position]? with
    | none => rw [Program.runBranching_end hins]; rfl
    | some ins =>
      obtain ⟨hlt, hget⟩ := Array.getElem?_eq_some_iff.1 hins
      have hfits : ins.Fits p := h ins (Array.mem_of_getElem? hins)
      simp only [advance_eq hfits, ok_bind]
      cases hadv : p.advance ins c with
      | stop r => rw [Program.runBranching_stop hins hadv]; rfl
      | next d =>
        -- the machine goes on by one, or jumps inside the program
        have hd : d.position ≤ p.length := by
          rcases Program.advance_next hadv with hnext | ⟨t, -, -, ht⟩
          · rw [hnext]
            exact hlt
          · exact Nat.le_of_lt (JumpTarget.resolve?_lt ht)
        rw [Program.runBranching_next hins hadv]
        exact ih d hd

/-- Runs the program from its first instruction. -/
def run (p : Program) (s : State ι) : Careful (Run ι) :=
  if p.hasBranches then runBranching p p.stepLimit ⟨0, Nesting.start, s⟩
  else runLinear p p.instructions.toList s

theorem run_eq (h : p.Fitting) (s : State ι) : run p s = .ok (p.run s) := by
  unfold run Program.run
  split
  · exact runBranching_eq h _ _ (Nat.zero_le _)
  · exact runLinear_eq (fun ins hins => h ins (Array.mem_toList_iff.1 hins)) s

/-- Runs the program for an invocation on a register file. -/
def execute (p : Program) (i : ι) (r : Registers) : Careful (Execution ι) :=
  if p.isRunnable then do
    let run ← run p ⟨i, r, #[]⟩
    let marked := match run.ending with
      | .faulted reason => p.invalidate reason
      | _ => (p, #[])
    return {
      isValid := run.ending == .completed && Invocation.isAccepted run.state.invocation
      invocation := run.state.invocation
      registers := run.state.registers
      program := marked.1
      events := run.state.events ++ marked.2 }
  else .ok ⟨false, i, r, p, #[]⟩

/-- A program whose instructions fit runs without a mishap, on every register file. -/
theorem execute_eq (h : p.Fitting) (i : ι) (r : Registers) :
    execute p i r = .ok (p.execute i r) := by
  simp only [execute, Program.execute, run_eq h, ok_bind]
  split <;> rfl

end Careful

end Shading
