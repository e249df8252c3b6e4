import Mathlib.Data.List.Forall2
import Shading.Execution

/- Runs of the machine, once and for all. `Program.Reaches` counts the fetches from
   one cursor to another. `Program.InStep` says of two programs and a relation of
   states that their instructions do the same to related ones: two runs then end in
   the same way and in related states, whichever way the programs run.
   `Program.Relates` is the case of one program that cannot tell related states
   apart, and `Program.Keeps` that of one run: a property that nothing the program
   does can break holds at the end. -/
namespace Shading

variable {ι : Type}

/-- The state after a step. -/
def Advance.state : Advance ι → State ι
  | .next c => c.state
  | .stop r => r.state

/-- Two steps that lead to the same place, with related states. -/
inductive Advance.InStep (R : State ι → State ι → Prop) : Advance ι → Advance ι → Prop
  | next {position : Nat} {nesting : Nesting} {s t : State ι} : R s t →
    InStep R (.next ⟨position, nesting, s⟩) (.next ⟨position, nesting, t⟩)
  | stop {ending : Ending} {s t : State ι} : R s t →
    InStep R (.stop ⟨s, ending⟩) (.stop ⟨t, ending⟩)

theorem Advance.InStep.state {R : State ι → State ι → Prop} {x y : Advance ι} (h : x.InStep R y) :
    R x.state y.state := by
  cases h <;> assumption

/-- Two runs that end in the same way, with related states. -/
structure Run.InStep (R : State ι → State ι → Prop) (x y : Run ι) : Prop where
  state : R x.state y.state
  ending : x.ending = y.ending

theorem Run.InStep.eq {x y : Run ι} (h : x.InStep Eq y) : x = y := by
  obtain ⟨s, ending⟩ := x
  obtain ⟨t, ending'⟩ := y
  obtain rfl : s = t := h.state
  obtain rfl : ending = ending' := h.ending
  rfl

theorem Nesting.isSkipping_of_isPending {n : Nesting} (h : n.isPending = true) :
    n.isSkipping = true := by
  simp only [isPending, Bool.and_eq_true, beq_iff_eq] at h
  simp [isSkipping, h.1]

variable {p : Program}

/-! ## Where the machine stands -/

section

variable {α β : Type} {S : α → β → Prop}

/-- Lists that correspond have what corresponds at each place. -/
theorem rel_getElem? {l : List α} {l' : List β} (h : List.Forall₂ S l l') (n : Nat) :
    Option.Rel S l[n]? l'[n]? := by
  induction h generalizing n with
  | nil => exact .none
  | cons hhead _ ih =>
    cases n with
    | zero => exact .some hhead
    | succ n => exact ih n

theorem exists_rel_right {x : Option α} {y : Option β} (h : Option.Rel S x y) {a : α}
    (hx : x = some a) : ∃ b, y = some b ∧ S a b := by
  subst hx
  cases h with
  | some hab => exact ⟨_, rfl, hab⟩

theorem exists_rel_left {x : Option α} {y : Option β} (h : Option.Rel S x y) {b : β}
    (hy : y = some b) : ∃ a, x = some a ∧ S a b := by
  subst hy
  cases h with
  | some hab => exact ⟨_, rfl, hab⟩

/-- What corresponds to one thing only is the image. -/
theorem eq_map_of_rel {x : Option α} {y : Option β} (h : Option.Rel S x y) {g : α → β}
    (hg : ∀ a b, S a b → b = g a) : y = x.map g := by
  cases h with
  | none => rfl
  | some hab => rw [hg _ _ hab, Option.map_some]

end

namespace Program

theorem getElem?_of_drop {n : Nat} {ins : Instruction} {rest : List Instruction}
    (h : p.instructions.toList.drop n = ins :: rest) :
    p.instructions[n]? = some ins ∧ p.instructions.toList.drop (n + 1) = rest := by
  constructor
  · rw [← Array.getElem?_toList, ← List.head?_drop, h]
    rfl
  · rw [← List.tail_drop, h]
    rfl

theorem getElem?_of_drop_nil {n : Nat} (h : p.instructions.toList.drop n = []) :
    p.instructions[n]? = none := by
  rw [← Array.getElem?_toList, ← List.head?_drop, h]
  rfl

/-- One fetch for each instruction is enough, and a run may make many more. -/
theorem length_le_stepLimit : p.length ≤ p.stepLimit :=
  Nat.le_mul_of_pos_left _ (by decide)

end Program

/-- A jump that is made stays inside the program. -/
theorem JumpTarget.resolve?_lt {target : JumpTarget} {length i : Nat} {r : Registers}
    (h : target.resolve? length r = some i) : i < length := by
  cases target with
  | index j =>
    simp only [resolve?, Option.ite_none_right_eq_some, Option.some.injEq] at h
    exact h.2 ▸ h.1
  | uniform slot =>
    simp only [resolve?, jumpIndex?] at h
    split at h
    · simp only [Option.ite_none_right_eq_some, Option.some.injEq] at h
      omega
    · cases h

variable [Invocation ι]

/-! ## One fetch -/

namespace Program

theorem runBranching_end {budget : Nat} {c : Cursor ι} (h : p.instructions[c.position]? = none) :
    p.runBranching budget c = ⟨c.state, .completed⟩ := by
  unfold runBranching
  simp only [h]

theorem runBranching_cut {c : Cursor ι} {ins : Instruction}
    (h : p.instructions[c.position]? = some ins) :
    p.runBranching 0 c = .fault c.state (.stepLimit p.stepLimit) := by
  rw [runBranching]
  simp only [h]

theorem runBranching_next {budget : Nat} {c d : Cursor ι} {ins : Instruction}
    (h : p.instructions[c.position]? = some ins) (hadv : p.advance ins c = .next d) :
    p.runBranching (budget + 1) c = p.runBranching budget d := by
  rw [runBranching]
  simp only [h, hadv]

theorem runBranching_stop {budget : Nat} {c : Cursor ι} {ins : Instruction} {r : Run ι}
    (h : p.instructions[c.position]? = some ins) (hadv : p.advance ins c = .stop r) :
    p.runBranching (budget + 1) c = r := by
  rw [runBranching]
  simp only [h, hadv]

theorem runBranching_succ {budget : Nat} {c : Cursor ι} {ins : Instruction}
    (h : p.instructions[c.position]? = some ins) :
    p.runBranching (budget + 1) c =
      match p.advance ins c with
      | .next d => p.runBranching budget d
      | .stop r => r := by
  cases hadv : p.advance ins c with
  | next d => exact runBranching_next h hadv
  | stop r => exact runBranching_stop h hadv

section

variable {c : Cursor ι} (hrun : c.nesting.isSkipping = false)

include hrun

theorem advance_operation (o : Operation) : p.advance (.operation o) c =
    .next ⟨c.position + 1, c.nesting, o.run p c.state⟩ := by
  simp only [advance, hrun, Bool.false_eq_true, if_false]

theorem advance_discard : p.advance .discard c = .stop ⟨c.state.discard, .discarded⟩ := by
  simp only [advance, hrun, Bool.false_eq_true, if_false]

theorem advance_ifThen (cond : Condition) : p.advance (.ifThen cond) c =
    .next ⟨c.position + 1, c.nesting.enter (cond.test p c.state).1, (cond.test p c.state).2⟩ := by
  simp only [advance, hrun, Bool.false_eq_true, if_false]

theorem advance_goto {target : JumpTarget} {i : Nat}
    (htarget : target.resolve? p.length c.state.registers = some i) :
    p.advance (.goto target) c = .next { c with position := i } := by
  simp only [advance, hrun, htarget, Bool.false_eq_true, if_false]

end

/-- An `elseif` that is reached undecided is a decision of its own. -/
theorem advance_elseIf {c : Cursor ι} (hpending : c.nesting.isPending = true) (cond : Condition) :
    p.advance (.elseIf cond) c = .next ⟨c.position + 1,
      if (cond.test p c.state).1 then c.nesting.take else c.nesting, (cond.test p c.state).2⟩ := by
  simp only [advance, Nesting.isSkipping_of_isPending hpending, hpending, Bool.not_true,
    Bool.false_eq_true, if_false, if_true]

/-- A step goes to the next instruction, unless it is a jump that is made. -/
theorem advance_next {c d : Cursor ι} {ins : Instruction} (h : p.advance ins c = .next d) :
    d.position = c.position + 1 ∨ ∃ target, ins = .goto target ∧ c.nesting.isSkipping = false ∧
      target.resolve? p.length c.state.registers = some d.position := by
  cases ins with
  | ifThen cond | operation o | discard =>
    simp only [advance] at h
    split at h <;> cases h <;> exact .inl rfl
  | elseIf cond | otherwise =>
    simp only [advance] at h
    split at h
    · cases h
      exact .inl rfl
    · split at h <;> cases h <;> exact .inl rfl
  | endIf =>
    cases h
    exact .inl rfl
  | goto target =>
    simp only [advance] at h
    split at h
    · cases h
      exact .inl rfl
    · next hrun =>
      split at h
      · next i htarget =>
        cases h
        exact .inr ⟨target, rfl, eq_false_of_ne_true hrun, htarget⟩
      · cases h

/-- The machine stops inside a program only to discard, or at a jump out of it. -/
theorem advance_stop {c : Cursor ι} {ins : Instruction} {r : Run ι}
    (h : p.advance ins c = .stop r) :
    (ins = .discard ∧ r = ⟨c.state.discard, .discarded⟩) ∨
      ∃ target, ins = .goto target ∧ target.resolve? p.length c.state.registers = none ∧
        r = .fault c.state (.badJumpTarget (target.number c.state.registers) p.length) := by
  cases ins with
  | ifThen cond | operation o =>
    simp only [advance] at h
    split at h <;> cases h
  | elseIf cond | otherwise =>
    simp only [advance] at h
    split at h
    · cases h
    · split at h <;> cases h
  | endIf => cases h
  | discard =>
    simp only [advance] at h
    split at h <;> cases h
    exact .inl ⟨rfl, rfl⟩
  | goto target =>
    simp only [advance] at h
    split at h
    · cases h
    · split at h
      · cases h
      · next htarget =>
        cases h
        exact .inr ⟨target, rfl, htarget, rfl⟩

/-! ## Reaching a point of a run -/

/-- After so many fetches from one cursor the machine stands at another. -/
inductive Reaches (p : Program) : Nat → Cursor ι → Cursor ι → Prop
  | refl (c : Cursor ι) : Reaches p 0 c c
  | step {n : Nat} {c d e : Cursor ι} {ins : Instruction} :
    Reaches p n c d → p.instructions[d.position]? = some ins → p.advance ins d = .next e →
    Reaches p (n + 1) c e

/-- The fetches that lead to a point are paid for when it is reached. -/
theorem Reaches.runBranching_eq {n : Nat} {c d : Cursor ι} (h : p.Reaches n c d)
    (budget : Nat) : p.runBranching (n + budget) c = p.runBranching budget d := by
  induction h generalizing budget with
  | refl c => rw [Nat.zero_add]
  | step _ hins hadv ih =>
    rw [Nat.add_right_comm, Nat.add_assoc, ih (budget + 1), runBranching_next hins hadv]

/-! ## Two runs in step -/

end Program

/-- Instructions of two programs that do the same: from related states they come to related
states, choose the same arm and jump to the same place. -/
def Instruction.InStep (p q : Program) (R : State ι → State ι → Prop) :
    Instruction → Instruction → Prop
  | .operation o, .operation o' => ∀ {s t}, R s t → R (o.run p s) (o'.run q t)
  | .ifThen c, .ifThen c' | .elseIf c, .elseIf c' => ∀ {s t}, R s t →
    (c.test p s).1 = (c'.test q t).1 ∧ R (c.test p s).2 (c'.test q t).2
  | .goto target, .goto target' => ∀ {s t}, R s t →
    target.resolve? p.length s.registers = target'.resolve? q.length t.registers ∧
      (target.resolve? p.length s.registers = none →
        target.number s.registers = target'.number t.registers)
  | .discard, .discard | .otherwise, .otherwise | .endIf, .endIf => True
  | _, _ => False

namespace Program

/-- Two programs that do the same, instruction by instruction, to related states. -/
structure InStep (p q : Program) (R : State ι → State ι → Prop) : Prop where
  code : List.Forall₂ (Instruction.InStep p q R) p.instructions.toList q.instructions.toList
  branches : q.hasBranches = p.hasBranches
  discard : ∀ {s t}, R s t → R s.discard t.discard

namespace InStep

variable {q : Program} {R : State ι → State ι → Prop} {s t : State ι}

theorem length (h : p.InStep q R) : q.length = p.length := by
  have hlength := h.code.length_eq
  rw [Array.length_toList, Array.length_toList] at hlength
  exact hlength.symm

theorem stepLimit (h : p.InStep q R) : q.stepLimit = p.stepLimit := by
  rw [Program.stepLimit, Program.stepLimit, h.length]

/-- At each place there are two instructions that do the same, or none in either program. -/
theorem fetch (h : p.InStep q R) (n : Nat) :
    Option.Rel (Instruction.InStep p q R) p.instructions[n]? q.instructions[n]? := by
  rw [← Array.getElem?_toList, ← Array.getElem?_toList]
  exact rel_getElem? h.code n

theorem advance (h : p.InStep q R) {ins ins' : Instruction} (hins : ins.InStep p q R ins')
    (position : Nat) (nesting : Nesting) (hs : R s t) :
    (p.advance ins ⟨position, nesting, s⟩).InStep R
      (q.advance ins' ⟨position, nesting, t⟩) := by
  cases ins <;> cases ins' <;> try exact hins.elim
  case ifThen.ifThen c c' =>
    obtain ⟨hholds, hstate⟩ := hins hs
    simp only [Program.advance, hholds]
    split
    · exact .next hs
    · exact .next hstate
  case elseIf.elseIf c c' =>
    obtain ⟨hholds, hstate⟩ := hins hs
    simp only [Program.advance, hholds]
    split
    · exact .next hs
    · split
      · exact .next hstate
      · exact .next hs
  case otherwise.otherwise =>
    simp only [Program.advance]
    split
    · exact .next hs
    · split <;> exact .next hs
  case endIf.endIf => exact .next hs
  case goto.goto target target' =>
    obtain ⟨hresolve, hnumber⟩ := hins hs
    rw [h.length] at hresolve
    simp only [Program.advance, h.length, ← hresolve]
    split
    · exact .next hs
    · split
      · exact .next hs
      · next hnone =>
        rw [hnumber hnone]
        exact .stop (h.discard hs)
  case discard.discard =>
    simp only [Program.advance]
    split
    · exact .next hs
    · exact .stop (h.discard hs)
  case operation.operation o o' =>
    simp only [Program.advance]
    split
    · exact .next hs
    · exact .next (hins hs)

theorem runBranching (h : p.InStep q R) : ∀ (budget position : Nat) (nesting : Nesting)
    {s t : State ι}, R s t → (p.runBranching budget ⟨position, nesting, s⟩).InStep R
      (q.runBranching budget ⟨position, nesting, t⟩) := by
  intro budget
  induction budget with
  | zero =>
    intro position nesting s t hs
    have hfetch := h.fetch position
    cases hins : p.instructions[position]? <;> cases hins' : q.instructions[position]? <;>
      rw [hins, hins'] at hfetch <;> cases hfetch
    · rw [runBranching_end hins, runBranching_end hins']
      exact ⟨hs, rfl⟩
    · rw [runBranching_cut hins, runBranching_cut hins', h.stepLimit]
      exact ⟨h.discard hs, rfl⟩
  | succ budget ih =>
    intro position nesting s t hs
    have hfetch := h.fetch position
    cases hins : p.instructions[position]? <;> cases hins' : q.instructions[position]? <;>
      rw [hins, hins'] at hfetch <;> cases hfetch
    · rw [runBranching_end hins, runBranching_end hins']
      exact ⟨hs, rfl⟩
    · next ins ins' hsame =>
      have hstep := h.advance hsame position nesting hs
      rw [runBranching_succ hins, runBranching_succ hins']
      generalize p.advance ins ⟨position, nesting, s⟩ = x at hstep ⊢
      generalize q.advance ins' ⟨position, nesting, t⟩ = y at hstep ⊢
      cases hstep with
      | next hs' => exact ih _ _ hs'
      | stop hs' => exact ⟨hs', rfl⟩

theorem runLinear (h : p.InStep q R) {l l' : List Instruction}
    (hcode : List.Forall₂ (Instruction.InStep p q R) l l') (hs : R s t) :
    (p.runLinear l s).InStep R (q.runLinear l' t) := by
  induction hcode generalizing s t with
  | nil => exact ⟨hs, rfl⟩
  | @cons ins ins' _ _ hins _ ih =>
    cases ins <;> cases ins' <;> try exact hins.elim
    case operation.operation o o' => exact ih (hins hs)
    case discard.discard => exact ⟨h.discard hs, rfl⟩
    all_goals exact ih hs

theorem run (h : p.InStep q R) (hs : R s t) : (p.run s).InStep R (q.run t) := by
  rw [Program.run, Program.run, h.branches, h.stepLimit]
  split
  · exact h.runBranching _ _ _ hs
  · exact h.runLinear h.code hs

end InStep

/-- Nothing that the program does tells related states apart, or ends their being
related. -/
structure Relates (p : Program) (R : State ι → State ι → Prop) : Prop where
  operation : ∀ o, .operation o ∈ p.instructions → ∀ {s t}, R s t → R (o.run p s) (o.run p t)
  test : ∀ c, .ifThen c ∈ p.instructions ∨ .elseIf c ∈ p.instructions → ∀ {s t}, R s t →
    (c.test p s).1 = (c.test p t).1 ∧ R (c.test p s).2 (c.test p t).2
  jump : ∀ target, .goto target ∈ p.instructions → ∀ {s t}, R s t →
    target.resolve? p.length s.registers = target.resolve? p.length t.registers ∧
      target.number s.registers = target.number t.registers
  discard : ∀ {s t}, R s t → R s.discard t.discard

namespace Relates

variable {R : State ι → State ι → Prop} {s t : State ι}

theorem instruction (h : p.Relates R) {ins : Instruction} (hins : ins ∈ p.instructions) :
    ins.InStep p p R ins := by
  cases ins with
  | operation o => exact h.operation o hins
  | ifThen c => exact h.test c (.inl hins)
  | elseIf c => exact h.test c (.inr hins)
  | goto target => exact fun hs => ⟨(h.jump target hins hs).1, fun _ => (h.jump target hins hs).2⟩
  | discard | otherwise | endIf => trivial

/-- The program is in step with itself. -/
theorem inStep (h : p.Relates R) : p.InStep p R where
  code := List.forall₂_same.2 fun _ hins => h.instruction (Array.mem_toList_iff.1 hins)
  branches := rfl
  discard := h.discard

theorem run (h : p.Relates R) (hs : R s t) : (p.run s).InStep R (p.run t) :=
  h.inStep.run hs

end Relates

/-! ## What no run can break -/

/-- Nothing that the program does breaks a property of states. -/
structure Keeps (p : Program) (P : State ι → Prop) : Prop where
  operation : ∀ o s, .operation o ∈ p.instructions → P s → P (o.run p s)
  test : ∀ c s, .ifThen c ∈ p.instructions ∨ .elseIf c ∈ p.instructions → P s →
    P (c.test p s).2
  discard : ∀ s, P s → P s.discard

namespace Keeps

variable {P : State ι → Prop}

/-- A property that is kept relates each state that has it to itself. -/
theorem relates (h : p.Keeps P) : p.Relates fun s t => s = t ∧ P s where
  operation o ho _ _ := fun ⟨heq, hs⟩ => heq ▸ ⟨rfl, h.operation o _ ho hs⟩
  test c hc _ _ := fun ⟨heq, hs⟩ => heq ▸ ⟨rfl, rfl, h.test c _ hc hs⟩
  jump _ _ _ _ := fun ⟨heq, _⟩ => heq ▸ ⟨rfl, rfl⟩
  discard := fun ⟨heq, hs⟩ => heq ▸ ⟨rfl, h.discard _ hs⟩

theorem reaches (h : p.Keeps P) {n : Nat} {c d : Cursor ι} (hreach : p.Reaches n c d)
    (hc : P c.state) : P d.state := by
  induction hreach with
  | refl c => exact hc
  | @step _ _ d _ _ _ hins hadv ih =>
    have hsame := h.relates.instruction (Array.mem_of_getElem? hins)
    have hstep := h.relates.inStep.advance hsame d.position d.nesting ⟨rfl, ih hc⟩
    rw [hadv] at hstep
    exact hstep.state.2

theorem run (h : p.Keeps P) {s : State ι} (hs : P s) : P (p.run s).state :=
  (h.relates.run ⟨rfl, hs⟩).state.2

end Keeps

end Program

end Shading
