import Mathlib
import Shading.Proofs.Vectors

/- Integer variables. An operation on integers gives the exact result, brought into the signed
   32-bit range modulo `2 ^ 32` (`Arith.toInt_int`); quotients are cut toward zero, and the two
   kinds that have no place in the range, by zero and of the least integer by `-1`, are zero.

   What a variable goes through is a history of the register file in which it lies: `Tally`
   lists the operations with integers that were carried out on the whole of a slot, in any
   executions of any programs, with whatever else happened in between that left the slot alone.
   A slot that begins as a scalar with the assignment of an integer holds an integer after
   each of them, the exact results reduced one after the other (`integers_wrap`). -/
namespace Shading

/-! ## Operations on integers -/

namespace Arith

/-- The operation on integers of any size, quotients cut toward zero. -/
def exact : Arith → Int → Int → Int
  | .assign, _, b => b
  | .add, a, b => a + b
  | .sub, a, b => a - b
  | .mul, a, b => a * b
  | .div, a, b => a.tdiv b

/-- The exact result in the signed 32-bit range, where the only quotient of that range that lies
outside counts as zero. -/
def reduced (op : Arith) (a b : Int) : Int :=
  if op = .div ∧ a = Int32.minValue.toInt ∧ b = -1 then 0 else (op.exact a b).bmod (2 ^ 32)

theorem toInt_int (op : Arith) (a b : Int32) : (op.int a b).toInt = op.reduced a.toInt b.toInt := by
  have hone : (b.toInt = -1) ↔ b = -1 := Int32.toInt_inj (y := -1)
  cases op with
  | assign => exact (Int32.toInt_bmod b).symm
  | add => exact Int32.toInt_add a b
  | sub => exact Int32.toInt_sub a b
  | mul => exact Int32.toInt_mul a b
  | div =>
    simp only [int, reduced, exact, true_and, Int32.toInt_inj, hone]
    -- no quotient, one that does not fit, and one that does
    by_cases hzero : b = 0
    · subst hzero
      simp
    · by_cases hleast : a = Int32.minValue ∧ b = -1
      · simp [hleast]
      · simp only [hzero, hleast, or_self, if_false]
        exact Int32.toInt_div a b

/-- Assigned to a scalar, an integer replaces it. -/
theorem combine_assign_int {old : Value} (hold : old.isVec = false) (b : Int32) :
    assign.combine old none (.int b) = .int b := by
  cases old <;> first | rfl | cases hold

theorem combine_int (op : Arith) (a b : Int32) :
    op.combine (.int a) none (.int b) = .int (op.int a b) := by
  cases op <;> rfl

end Arith

/-- What operations with integers make of a value, one after the other. -/
def Value.tallied (old : Value) (l : List (Arith × Int32)) : Value :=
  l.foldl (fun old step => step.1.combine old none (.int step.2)) old

theorem Value.tallied_int (l : List (Arith × Int32)) (a : Int32) :
    ∃ k : Int32, (Value.int a).tallied l = .int k ∧
      k.toInt = l.foldl (fun a step => step.1.reduced a step.2.toInt) a.toInt := by
  induction l generalizing a with
  | nil => exact ⟨a, rfl, rfl⟩
  | cons step l ih =>
    obtain ⟨k, hk, hvalue⟩ := ih (step.1.int a step.2)
    refine ⟨k, ?_, ?_⟩
    · rw [← hk, tallied, List.foldl_cons, Arith.combine_int]
      rfl
    · rw [hvalue, Arith.toInt_int]
      rfl

/-! ## Histories of a slot -/

section

variable {ι : Type} [Invocation ι] {p : Program}

theorem Operation.run_arith_slot {op : Arith} {src : Source} {v : Nat} {mask : Option Mask}
    {s : State ι} {old : Value} {value : Operand} (hread : (src.read p s).1 = some value)
    (hold : s.registers.slot? v = some old) :
    ((Operation.arith op ⟨.slot v, mask⟩ src).run p s).registers.slot? v =
      some (op.combine old mask value) := by
  have hslot := src.read_slot (p := p) s v
  rcases hsrc : src.read p s with ⟨found, s'⟩
  rw [hsrc] at hread hslot
  obtain rfl : found = some value := hread
  rw [hold] at hslot
  obtain ⟨hsize, -⟩ := Array.getElem?_eq_some_iff.1 hslot
  simp only [Operation.run, Source.andThen, hsrc, State.update, State.current, hslot,
    Option.getD_some]
  exact Registers.slot?_store_self hsize _

end

namespace Moment

/-- Next comes an operation on the whole of slot `v` whose source reads the integer `b`. -/
def Computes (v : Nat) (op : Arith) (b : Int32) : Moment → Prop
  | idle _ _ => False
  | fetching _ 0 _ => False
  | fetching p (_ + 1) c => c.nesting.isSkipping = false ∧ ∃ src,
      p.instructions[c.position]? = some (.operation (.arith op ⟨.slot v, none⟩ src)) ∧
        (src.read p c.state).1 = some (.int b)
  | linear p rest s => ∃ src,
      rest.head? = some (.operation (.arith op ⟨.slot v, none⟩ src)) ∧
        (src.read p s).1 = some (.int b)

/-- Such an operation combines the slot with the integer, in either way of running. -/
theorem Next.computes {v : Nat} {op : Arith} {b : Int32} {old : Value} {m m' : Moment}
    (hnext : Next m m') (h : m.Computes v op b) (hold : m.registers.slot? v = some old) :
    m'.registers.slot? v = some (op.combine old none (.int b)) := by
  cases hnext with
  -- no instruction is carried out
  | turn | push | begin | cutOff | beginLinear => exact h.elim
  | fetch hins hadv =>
    obtain ⟨hrun, src, hfetched, hread⟩ := h
    obtain rfl := Option.some.inj (hins.symm.trans hfetched)
    rw [Program.advance_operation hrun] at hadv
    cases hadv
    exact Operation.run_arith_slot hread hold
  | stop hins hadv =>
    obtain ⟨hrun, src, hfetched, -⟩ := h
    obtain rfl := Option.some.inj (hins.symm.trans hfetched)
    rw [Program.advance_operation hrun] at hadv
    cases hadv
  | @complete _ _ _ budget _ hend =>
    cases budget with
    | zero => exact h.elim
    | succ =>
      obtain ⟨-, src, hfetched, -⟩ := h
      rw [hend] at hfetched
      cases hfetched
  | operation o s =>
    obtain ⟨src, hhead, hread⟩ := h
    cases hhead
    exact Operation.run_arith_slot hread hold
  | skip s hbranch =>
    -- it would be an instruction of another kind
    obtain ⟨src, hhead, -⟩ := h
    cases hhead
    cases hbranch
  | discard | completeLinear =>
    obtain ⟨src, hhead, -⟩ := h
    cases hhead

/-- The operations with integers that are carried out on the whole of slot `v` from one moment to
another. Everything else that happens leaves the slot as it is. -/
inductive Tally (v : Nat) : Moment → List (Arith × Int32) → Moment → Prop
  | refl (m : Moment) : Tally v m [] m
  | step {m m₁ m' : Moment} {op : Arith} {b : Int32} {l : List (Arith × Int32)} :
    m.Computes v op b → Next m m₁ → Tally v m₁ l m' → Tally v m ((op, b) :: l) m'
  | aside {m m₁ m' : Moment} {l : List (Arith × Int32)} : Next m m₁ →
    m₁.registers.slot? v = m.registers.slot? v → Tally v m₁ l m' → Tally v m l m'

theorem Tally.slot {v : Nat} {m m' : Moment} {l : List (Arith × Int32)} (h : Tally v m l m')
    {old : Value} (hold : m.registers.slot? v = some old) :
    m'.registers.slot? v = some (old.tallied l) := by
  induction h generalizing old with
  | refl => exact hold
  | step hcomputes hnext _ ih => exact ih (hnext.computes hcomputes hold)
  | aside _ hslot _ ih => exact ih (hslot.trans hold)

/-- A variable that is no vector is assigned an integer, and from then on `l` lists what is done
to it, operations with integers all of them and as many as there are. At every moment it
holds an integer, which comes of the one assigned as the exact results of the operations, each
brought into the signed 32-bit range before the next. -/
theorem integers_wrap {v : Nat} {m m' : Moment} {old : Value} {b : Int32}
    {l : List (Arith × Int32)} (hold : m.registers.slot? v = some old)
    (hscalar : old.isVec = false) (h : Tally v m ((.assign, b) :: l) m') :
    ∃ k : Int32, m'.registers.slot? v = some (.int k) ∧
      k.toInt = l.foldl (fun a step => step.1.reduced a step.2.toInt) b.toInt := by
  obtain ⟨k, hk, hvalue⟩ := Value.tallied_int l b
  refine ⟨k, ?_, hvalue⟩
  rw [h.slot hold, ← hk, Value.tallied, List.foldl_cons, Arith.combine_assign_int hscalar]
  rfl

/-- The largest integer and one more is the least, which three times is itself, and a seventh
of that is cut. What is stored in another variable in between changes nothing. -/
theorem integers_wrap_largest :
    let p := ([.push "=" [.name "v", .literal (.int 2147483647)],
      .push "+=" [.name "v", .literal (.int 1)], .push "=" [.name "w", .literal (.int 5)],
      .push "*=" [.name "v", .literal (.int 3)], .push "/=" [.name "v", .literal (.int 7)],
      .seal] : List Program.Edit).foldl Program.edit (Program.new .fragment)
    let v : Reference := ⟨.slot 0, none⟩
    let rest : List Instruction := [.operation (.arith .assign v (.literal (.int 2147483647))),
      .operation (.arith .add v (.literal (.int 1))),
      .operation (.arith .assign ⟨.slot 1, none⟩ (.literal (.int 5))),
      .operation (.arith .mul v (.literal (.int 3))),
      .operation (.arith .div v (.literal (.int 7)))]
    let s : State Fragment := ⟨Fragment.ofPosition 0 0, p.registers, #[]⟩
    let ended := Moment.linear p [] (p.runLinear rest s).state
    p.instructions.toList = rest ∧ p.registers.slots = #[.float 0, .float 0] ∧
      Tally 0 (.linear p rest s) [(.assign, 2147483647), (.add, 1), (.mul, 3), (.div, 7)] ended ∧
      ∃ k : Int32, ended.registers.slot? 0 = some (.int k) ∧ k.toInt = -306783378 := by
  intro p v rest s ended
  have hfloat : (Moment.linear p rest s).registers.slot? 0 = some (.float 0) := by
    decide +kernel
  have haside : ∀ t : State Fragment,
      ((Operation.arith .assign ⟨.slot 1, none⟩ (.literal (.int 5))).run p t).registers.slot? 0 =
        t.registers.slot? 0 := fun t => State.update_slot (by decide)
  have htally : Tally 0 (.linear p rest s)
      [(.assign, 2147483647), (.add, 1), (.mul, 3), (.div, 7)] ended :=
    .step ⟨_, rfl, rfl⟩ (.operation _ _) <| .step ⟨_, rfl, rfl⟩ (.operation _ _) <|
    .aside (.operation _ _) (haside _) <|
    .step ⟨_, rfl, rfl⟩ (.operation _ _) <| .step ⟨_, rfl, rfl⟩ (.operation _ _) (.refl _)
  obtain ⟨k, hslot, hvalue⟩ := integers_wrap hfloat rfl htally
  exact ⟨by decide +kernel, by decide +kernel, htally, k, hslot, hvalue.trans (by decide)⟩

/-- The two that are left out. The least integer divided by `-1` becomes zero, though the quotient
`2 ^ 31` is the least integer modulo `2 ^ 32`; and an integer that is assigned to a vector is
spread over it. -/
theorem integers_wrap_outside :
    let p := ([.push "=" [.name "v", .literal (.int (-2147483648))],
      .push "/=" [.name "v", .literal (.int (-1))], .push "=" [.name "w", .name "txCoordi"],
      .push "=" [.name "w", .literal (.int 7)], .seal] : List Program.Edit).foldl Program.edit
        (Program.new .fragment)
    let done := p.execute (Fragment.ofPosition 0 0) p.registers
    done.registers.slots = #[.int 0, .vec ⟨7, 7, 7, 7⟩] ∧
      (Arith.exact .div (-2147483648) (-1)).bmod (2 ^ 32) = -2147483648 := by
  decide +kernel

end Moment

end Shading
