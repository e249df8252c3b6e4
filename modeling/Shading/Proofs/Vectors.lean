import Mathlib.Logic.Relation
import Shading.Proofs.History
import Shading.Proofs.Swizzles

/- A slot that holds a vector. Every rule for storing makes a vector of one
   (`StoringRule.vec`), so no operation ends the slot's being a vector, whatever it brings:
   a truth value, an integer, a length. `Moment` is a register file with what is going on
   there, nothing or an invocation at some point of its run, and `Moment.Next` what may
   happen to it next. All that is left out is what stores in a file from elsewhere, the host
   that fills uniforms and another file that is copied over it. -/
namespace Shading

/-- A slot of a register file holds a vector. -/
def Registers.HoldsVec (r : Registers) (v : Nat) : Prop := ∃ w, r.slot? v = some (.vec w)

/-! ## Operations -/

section

variable {ι : Type} [Invocation ι] {p : Program}

/-- Every rule for storing makes a vector of a vector. -/
theorem StoringRule.vec {mask : Option Mask} {g : Value → Value} (h : StoringRule mask g)
    (w : Vec4) : ∃ w', g (.vec w) = .vec w' := by
  cases h <;> cases mask <;> exact ⟨_, rfl⟩

/-- A vector that is stored over becomes another. -/
theorem State.update_holdsVec {mask : Option Mask} {g : Value → Value} (hg : StoringRule mask g)
    {s : State ι} {place : Place} {v : Nat} (hv : s.registers.HoldsVec v) :
    (s.update place g).registers.HoldsVec v := by
  by_cases hplace : place = .slot v
  · subst hplace
    obtain ⟨w, hw⟩ := hv
    obtain ⟨w', hw'⟩ := hg.vec w
    obtain ⟨hsize, -⟩ := Array.getElem?_eq_some_iff.1 hw
    refine ⟨w', ?_⟩
    rw [State.update, State.current, hw, Option.getD_some, hw']
    exact Registers.slot?_store_self hsize _
  · rwa [Registers.HoldsVec, State.update_slot hplace]

theorem State.Reworks.holdsVec {place : Place} {mask : Option Mask} {s t : State ι}
    (h : s.Reworks place mask t) {v : Nat} (hv : s.registers.HoldsVec v) :
    t.registers.HoldsVec v := by
  obtain ⟨anchors, rfl | ⟨g, hg, rfl⟩⟩ := h
  · exact hv
  · exact State.update_holdsVec hg hv

theorem Operation.run_holdsVec (o : Operation) {s : State ι} {v : Nat}
    (hv : s.registers.HoldsVec v) : (o.run p s).registers.HoldsVec v := by
  cases hdst : o.destination? with
  | some dst => exact (o.run_reworks hdst s).holdsVec hv
  | none =>
    cases o with
    | print src =>
      show (src.read p s).2.registers.HoldsVec v
      rwa [Registers.HoldsVec, Source.read_slot]
    | _ => cases hdst

theorem Program.keeps_holdsVec (v : Nat) : p.Keeps fun s : State ι => s.registers.HoldsVec v where
  operation o _ _ hs := o.run_holdsVec hs
  test c s _ hs := by
    rw [Condition.test_state, Registers.HoldsVec, Source.read_slot]
    exact hs
  discard _ hs := hs

end

/-! ## What happens to a register file -/

/-- A register file and what is going on there: no invocation is under way and the file waits
for the program, or an invocation stands at a cursor with so many fetches left, or it has
the rest of a program without branches before it. -/
inductive Moment : Type 1
  | idle (p : Program) (r : Registers)
  | fetching {ι : Type} [Invocation ι] (p : Program) (budget : Nat) (c : Cursor ι)
  | linear {ι : Type} [Invocation ι] (p : Program) (rest : List Instruction) (s : State ι)

namespace Moment

def registers : Moment → Registers
  | idle _ r => r
  | fetching _ _ c => c.state.registers
  | linear _ _ s => s.registers

/-- What may happen next. -/
inductive Next : Moment → Moment → Prop
  /-- The program is edited or becomes invalid, or it is another one from now on, and the file
  is left alone. -/
  | turn (p q : Program) (r : Registers) : Next (.idle p r) (.idle q r)
  /-- The file is the canonical one, and an instruction is pushed that may declare variables. -/
  | push {p : Program} (hp : p.WellFormed) (name : String) (args : List Argument) :
    Next (.idle p p.registers)
      (.idle (p.push name args).program (p.push name args).program.registers)
  | begin {ι : Type} [Invocation ι] {p : Program} (i : ι) (r : Registers) :
    p.isRunnable = true → p.hasBranches = true →
      Next (.idle p r) (.fetching p p.stepLimit ⟨0, Nesting.start, ⟨i, r, #[]⟩⟩)
  | fetch {ι : Type} [Invocation ι] {p : Program} {budget : Nat} {c d : Cursor ι}
    {ins : Instruction} : p.instructions[c.position]? = some ins → p.advance ins c = .next d →
      Next (.fetching p (budget + 1) c) (.fetching p budget d)
  | stop {ι : Type} [Invocation ι] {p : Program} {budget : Nat} {c : Cursor ι} {run : Run ι}
    {ins : Instruction} : p.instructions[c.position]? = some ins → p.advance ins c = .stop run →
      Next (.fetching p (budget + 1) c) (.idle p run.state.registers)
  | complete {ι : Type} [Invocation ι] {p : Program} {budget : Nat} {c : Cursor ι} :
    p.instructions[c.position]? = none →
      Next (.fetching p budget c) (.idle p c.state.registers)
  | cutOff {ι : Type} [Invocation ι] {p : Program} {c : Cursor ι} {ins : Instruction} :
    p.instructions[c.position]? = some ins →
      Next (.fetching p 0 c) (.idle p c.state.registers)
  | beginLinear {ι : Type} [Invocation ι] {p : Program} (i : ι) (r : Registers) :
    p.isRunnable = true → p.hasBranches = false →
      Next (.idle p r) (.linear p p.instructions.toList ⟨i, r, #[]⟩)
  | operation {ι : Type} [Invocation ι] {p : Program} {rest : List Instruction} (o : Operation)
    (s : State ι) : Next (.linear p (.operation o :: rest) s) (.linear p rest (o.run p s))
  | skip {ι : Type} [Invocation ι] {p : Program} {ins : Instruction} {rest : List Instruction}
    (s : State ι) : ins.isBranch = true → Next (.linear p (ins :: rest) s) (.linear p rest s)
  | discard {ι : Type} [Invocation ι] {p : Program} {rest : List Instruction} (s : State ι) :
    Next (.linear p (.discard :: rest) s) (.idle p s.registers)
  | completeLinear {ι : Type} [Invocation ι] {p : Program} (s : State ι) :
    Next (.linear p [] s) (.idle p s.registers)

/-- The second of two moments of a file comes later, or is the first. -/
abbrev Later : Moment → Moment → Prop := Relation.ReflTransGen Next

variable {m m' : Moment} {v : Nat}

/-! ## Executions -/

section

variable {ι : Type} [Invocation ι] {p : Program}

theorem later_runBranching (budget : Nat) (c : Cursor ι) :
    Later (.fetching p budget c) (.idle p (p.runBranching budget c).state.registers) := by
  induction budget generalizing c with
  | zero =>
    cases hins : p.instructions[c.position]? with
    | none =>
      rw [Program.runBranching_end hins]
      exact .single (.complete hins)
    | some ins =>
      rw [Program.runBranching_cut hins]
      exact .single (.cutOff hins)
  | succ budget ih =>
    cases hins : p.instructions[c.position]? with
    | none =>
      rw [Program.runBranching_end hins]
      exact .single (.complete hins)
    | some ins =>
      cases hadv : p.advance ins c with
      | next d =>
        rw [Program.runBranching_next hins hadv]
        exact .head (.fetch hins hadv) (ih d)
      | stop run =>
        rw [Program.runBranching_stop hins hadv]
        exact .single (.stop hins hadv)

theorem later_runLinear (l : List Instruction) (s : State ι) :
    Later (.linear p l s) (.idle p (p.runLinear l s).state.registers) := by
  induction l generalizing s with
  | nil => exact .single (.completeLinear s)
  | cons ins rest ih =>
    cases ins with
    | operation o => exact .head (.operation o s) (ih _)
    | discard => exact .single (.discard s)
    | _ => exact .head (.skip s rfl) (ih s)

/-- An execution takes a file from the moment before it to the moment after it, however its
run ends and whether there is one. -/
theorem later_execute (p : Program) (i : ι) (r : Registers) :
    Later (.idle p r) (.idle (p.execute i r).program (p.execute i r).registers) := by
  refine .tail ?_ (.turn p _ _)
  cases hrun : p.isRunnable with
  | false =>
    rw [Program.execute, hrun]
    exact .refl
  | true =>
    have hregisters : (p.execute i r).registers = (p.run ⟨i, r, #[]⟩).state.registers := by
      rw [Program.execute, hrun]
      rfl
    rw [hregisters, Program.run]
    cases hbranches : p.hasBranches with
    | true => exact .head (.begin i r hrun hbranches) (later_runBranching _ _)
    | false => exact .head (.beginLinear i r hrun hbranches) (later_runLinear _ _)

end

/-! ## Vectors stay -/

/-- New variables have slots behind the old ones. -/
theorem holdsVec_grow {p q : Program} (hq : p.Grows q) (hv : p.registers.HoldsVec v) :
    q.registers.HoldsVec v := by
  obtain ⟨w, hw⟩ := hv
  obtain ⟨n, hslots⟩ := hq.slots
  obtain ⟨hsize, -⟩ := Array.getElem?_eq_some_iff.1 hw
  refine ⟨w, ?_⟩
  rw [Registers.slot?, hslots, Array.getElem?_append_left hsize]
  exact hw

theorem holdsVec_push {p : Program} (hp : p.WellFormed) (name : String) (args : List Argument)
    (hv : p.registers.HoldsVec v) : (p.push name args).program.registers.HoldsVec v := by
  have hq := holdsVec_grow (Build.grows_instruction hp.tables name args) hv
  unfold Program.push
  split
  · exact hv
  · rcases hrun : (Build.instruction name args).run p with ⟨result, q⟩
    rw [hrun] at hq
    cases result with
    | ok ins => exact hq
    | error e =>
      show (q.invalidate e).1.registers.HoldsVec v
      rwa [Program.invalidate_program]

/-- Nothing that happens next ends a slot's being a vector. -/
theorem Next.holdsVec (h : Next m m') (hv : m.registers.HoldsVec v) :
    m'.registers.HoldsVec v := by
  cases h with
  | turn | begin | beginLinear | cutOff | complete | completeLinear | skip | discard => exact hv
  | push hp name args => exact holdsVec_push hp name args hv
  | operation o => exact o.run_holdsVec hv
  | fetch hins hadv => exact (Program.keeps_holdsVec v).reaches (.step (.refl _) hins hadv) hv
  | stop hins hadv => rcases Program.advance_stop hadv with ⟨-, rfl⟩ | ⟨_, -, -, rfl⟩ <;> exact hv

/-- A slot that holds a vector holds one at every later moment of its register file: within
the invocation that is under way, when it ends, is given up or is cut off, and in all that
follow, of any kind and of any program, whatever their instructions store in it. Only the host
can end this, who fills uniforms or overwrites the file by another. -/
theorem vector_stays (h : m.Later m') {w : Vec4} (hv : m.registers.slot? v = some (.vec w)) :
    ∃ w', m'.registers.slot? v = some (.vec w') := by
  induction h with
  | refl => exact ⟨w, hv⟩
  | tail _ hnext ih => exact hnext.holdsVec ih

/-- A variable becomes a vector in the midst of a run that gives the fragment up, and an integer
and a truth value are stored in it, then and for the next fragment. -/
theorem vector_stays_retagged :
    let p := ([.push "=" [.name "v", .name "txCoordi"], .push "=" [.name "v", .literal (.int 7)],
      .push "==" [.name "v", .name "v", .name "v"], .push "discard" [], .seal] :
        List Program.Edit).foldl Program.edit (Program.new .fragment)
    let s := (Operation.arith .assign ⟨.slot 0, none⟩ (.name ⟨.builtin .pixelCoord, none⟩)).run p
      ⟨Fragment.ofPosition 3 2, p.registers, #[]⟩
    let rest := p.instructions.toList.drop 1
    let ended := p.runLinear rest s
    p.isRunnable = true ∧ p.hasBranches = false ∧ ended.ending = .discarded ∧
      p.registers.slots = #[.float 0] ∧ s.registers.slot? 0 = some (.vec ⟨3, 2, 0, 1⟩) ∧
      ∃ w, (p.execute (Fragment.ofPosition 5 1) ended.state.registers).registers.slot? 0 =
        some (.vec w) := by
  intro p s rest ended
  have hv : (Moment.linear p rest s).registers.slot? 0 = some (.vec ⟨3, 2, 0, 1⟩) := by
    decide +kernel
  have hlater := (later_runLinear rest s).trans
    (later_execute p (Fragment.ofPosition 5 1) ended.state.registers)
  exact ⟨by decide +kernel, by decide +kernel, by decide +kernel, by decide +kernel, hv,
    vector_stays hlater hv⟩

end Moment

end Shading
