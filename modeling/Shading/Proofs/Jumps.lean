import Shading.Proofs.Admission
import Shading.Proofs.Endings
import Shading.Proofs.Uniforms

/- Jumps that were checked never fail. Fixed targets are checked when the program is sealed,
   those in uniforms when the host fills them, and the machine looks at them again with
   each jump. What it finds then is what was checked: no instruction stores in a uniform
   (`Program.Checked`), so on each register file that comes of the canonical one every jump
   through a uniform goes on leading into the program (`Program.Resolves`). A host may
   run the program on its canonical registers and on copies of them, in any order
   (`Session`); one step of it keeps both (`Session.step_sound`), so no run that follows
   a successful update jumps out of the program (`checked_jumps`). -/
namespace Shading

/-! ## What the checks say -/

namespace Program

variable {p q : Program} {r : Registers}

/-- The fixed jumps of a sealed program stay inside it, and nothing is stored where its
other jumps have their targets. -/
structure Checked (p : Program) : Prop where
  fixed : p.isSealed = true → JumpsInside p.length p.instructions.toList
  kept : ∀ v, .goto (.uniform v) ∈ p.instructions → p.NeverStored v

/-- On a register file each jump through a uniform leads into the program. -/
def Resolves (p : Program) (r : Registers) : Prop :=
  ∀ v, .goto (.uniform v) ∈ p.instructions →
    (jumpIndex? ((r.slot? v).getD default) p.length).isSome = true

theorem WellFormed.checked (h : p.WellFormed) : p.Checked where
  fixed hsealed := (checkStructure_eq_ok_iff.1 (h.structured hsealed)).2
  kept _ hgoto := IsUniform.neverStored h (h.fits _ hgoto)

theorem Checked.atMostMarked (h : p.Checked) (hq : p.AtMostMarked q) : q.Checked := by
  rcases hq with rfl | rfl
  · exact h
  · exact ⟨h.fixed, h.kept⟩

/-- The check of the uniforms passes exactly if each jump through one leads into the
program. -/
theorem badUniformJump?_eq_none_iff : ∀ {l : List Instruction},
    p.badUniformJump? l = none ↔ ∀ v, .goto (.uniform v) ∈ l →
      (jumpIndex? ((p.registers.slot? v).getD default) p.length).isSome = true := by
  intro l
  induction l with
  | nil => simp [badUniformJump?]
  | cons ins l ih =>
    match ins with
    | .goto (.uniform i) =>
      cases hjump : jumpIndex? ((p.registers.slot? i).getD default) p.length with
      | none =>
        simp only [badUniformJump?, hjump, Option.isNone_none, if_true, reduceCtorEq, false_iff]
        intro h
        simpa [hjump] using h i List.mem_cons_self
      | some target =>
        simp only [badUniformJump?, hjump, Option.isNone_some, Bool.false_eq_true, if_false, ih,
          List.mem_cons, Instruction.goto.injEq, JumpTarget.uniform.injEq]
        constructor
        · rintro h v (rfl | hv)
          · rw [hjump]
            rfl
          · exact h v hv
        · exact fun h v hv => h v (.inr hv)
    | .goto (.index _) | .operation _ | .discard | .ifThen _ | .elseIf _ | .otherwise | .endIf =>
      simp only [badUniformJump?, ih, List.mem_cons, Instruction.goto.injEq, reduceCtorEq,
        false_or]

/-- After a successful update each jump through a uniform leads into the program. -/
theorem resolves_of_updateUniforms {source : UniformSource}
    (h : (p.updateUniforms source).result = .ok ()) :
    (p.updateUniforms source).program.Resolves (p.updateUniforms source).program.registers := by
  unfold updateUniforms at h ⊢
  dsimp only at h ⊢
  split
  · next hinvalid => simp [hinvalid, Outcome.refuse] at h
  · next hvalid =>
    rw [if_neg hvalid] at h
    split
    · next name hname => simp [hname, Outcome.fail] at h
    · next hfilled =>
      simp only [hfilled] at h
      split
      · next e he => simp [he, Outcome.fail] at h
      · next hnone =>
        intro v hv
        exact badUniformJump?_eq_none_iff.1 hnone v (Array.mem_toList_iff.2 hv)

section

variable {ι : Type} [Invocation ι]

/-- An execution leaves a register file on which the jumps lead where they led. -/
theorem Resolves.execute (h : p.Resolves r) (hp : p.Checked) (i : ι) :
    p.Resolves (p.execute i r).registers := by
  intro v hv
  rw [execute_slot (hp.kept v hv)]
  exact h v hv

/-- Each jump to which a run comes leads into the program. -/
theorem Checked.run_ending (hp : p.Checked) (hsealed : p.isSealed = true) (h : p.Resolves r)
    (i : ι) (target : Int) (length : Nat) :
    (p.run ⟨i, r, #[]⟩).ending ≠ .faulted (.badJumpTarget target length) := by
  rw [run]
  split
  · intro hending
    have hfinishes := finishes_runBranching (p := p) p.stepLimit ⟨0, Nesting.start, ⟨i, r, #[]⟩⟩
    generalize p.runBranching p.stepLimit ⟨0, Nesting.start, ⟨i, r, #[]⟩⟩ = done
      at hending hfinishes
    cases hfinishes with
    | completed _ _ _ | discarded _ _ _ _ => cases hending
    | cutOff _ _ =>
      simp [Run.fault] at hending
    | @jumpedOut n d jump hreach _ hgoto _ hnone =>
      have hmem := Array.mem_of_getElem? hgoto
      cases jump with
      | index j =>
        have hlt : j < p.length := hp.fixed hsealed j (Array.mem_toList_iff.2 hmem)
        simp [JumpTarget.resolve?, hlt] at hnone
      | uniform v =>
        have hslot : d.state.registers.slot? v = r.slot? v :=
          (keeps_slot (hp.kept v hmem)).reaches hreach rfl
        have hsome := h v hmem
        rw [JumpTarget.resolve?, hslot] at hnone
        rw [hnone] at hsome
        cases hsome
  · exact runLinear_ending _ _ _

end

end Program

/-! ## Sessions -/

/-- A host between two of its steps: a program with its canonical registers, the register
files that the host has made, and what its runs have reported. -/
structure Session where
  program : Program
  files : Array Registers
  events : Array Event

namespace Session

/-- What a host may do that neither pushes instructions nor fills uniforms. A register file
is named by its number, the canonical one by none. -/
inductive Step : Type 1
  | seal
  | reset
  | withColor (color : ColorTransform)
  | invalidate (reason : ProgramError)
  /-- Makes a new file, a copy of another. -/
  | copy (source : Option Nat)
  /-- Overwrites a file by another. -/
  | overwrite (file : Nat) (source : Option Nat)
  /-- Runs the program for an invocation on a file. -/
  | run {ι : Type} [Invocation ι] (i : ι) (file : Option Nat)

/-- The register file of a name, if there is such a file. -/
def file? (s : Session) : Option Nat → Option Registers
  | none => some s.program.registers
  | some k => s.files[k]?

/-- The session after a step. One that names a file which is not there does nothing. -/
def step (s : Session) : Step → Session
  | .seal => { s with program := s.program.seal.program }
  | .reset => { s with program := s.program.reset }
  | .withColor color => { s with program := s.program.withColor color }
  | .invalidate reason => { s with program := (s.program.invalidate reason).1 }
  | .copy source =>
    match s.file? source with
    | some r => { s with files := s.files.push r }
    | none => s
  | .overwrite file source =>
    match s.file? source with
    | some r => { s with files := s.files.setIfInBounds file r }
    | none => s
  | @Step.run _ _ i none =>
    let done := s.program.executeInPlace i
    { s with program := done.program, events := s.events ++ done.events }
  | @Step.run _ _ i (some k) =>
    match s.files[k]? with
    | some r =>
      let done := s.program.execute i r
      { program := done.program
        files := s.files.setIfInBounds k done.registers
        events := s.events ++ done.events }
    | none => s

/-- No report says that a program became invalid for a jump. -/
def NoBadJump (events : Array Event) : Prop :=
  ∀ target length n, .markedInvalid (.badJumpTarget target length) n ∉ events

/-- The program is checked, each file resolves its jumps, and no run has jumped out of it. -/
structure Sound (s : Session) : Prop where
  checked : s.program.Checked
  resolves : ∀ file r, s.file? file = some r → s.program.Resolves r
  events : NoBadJump s.events

theorem NoBadJump.append {a b : Array Event} (ha : NoBadJump a) (hb : NoBadJump b) :
    NoBadJump (a ++ b) := by
  intro target length n h
  rcases Array.mem_append.1 h with h | h
  · exact ha target length n h
  · exact hb target length n h

variable {s : Session}

namespace Sound

/-- A session is as sound as one with the same code, if its program is checked too and its
files resolve the jumps of that one. -/
theorem of_code {t : Session} (hchecked : t.program.Checked)
    (hcode : t.program.instructions = s.program.instructions)
    (hfiles : ∀ file r, t.file? file = some r → s.program.Resolves r)
    (hevents : NoBadJump t.events) : t.Sound where
  checked := hchecked
  resolves file r hr := by
    intro v hv
    rw [hcode] at hv
    rw [Program.length, hcode]
    exact hfiles file r hr v hv
  events := hevents

/-- Another program with the same code and the same canonical registers. -/
theorem withProgram (h : s.Sound) {q : Program} (hchecked : q.Checked)
    (hcode : q.instructions = s.program.instructions)
    (hregisters : q.registers = s.program.registers) : Sound { s with program := q } := by
  refine of_code hchecked hcode (fun file r hr => h.resolves file r ?_) h.events
  cases file with
  | none => rwa [file?, ← hregisters]
  | some k => exact hr

theorem invalidate (h : s.Sound) (reason : ProgramError) :
    Sound { s with program := (s.program.invalidate reason).1 } := by
  have hq := s.program.invalidate_program reason
  exact h.withProgram (h.checked.atMostMarked (.inr hq)) (by rw [hq]) (by rw [hq])

theorem resolves_of_mem (h : s.Sound) {r : Registers} (hr : r ∈ s.files) :
    s.program.Resolves r := by
  obtain ⟨k, hk⟩ := Array.mem_iff_getElem?.1 hr
  exact h.resolves (some k) r hk

/-- Other files, new ones among them. -/
theorem withFiles (h : s.Sound) {files : Array Registers}
    (hfiles : ∀ r ∈ files, r ∈ s.files ∨ s.program.Resolves r) : Sound { s with files } := by
  refine of_code h.checked rfl (fun file r hr => ?_) h.events
  cases file with
  | none => exact h.resolves none r hr
  | some k => exact (hfiles r (Array.mem_of_getElem? hr)).elim h.resolves_of_mem id

section

variable {ι : Type} [Invocation ι]

/-- A run on one of its files reports no bad jump. -/
theorem noBadJump (h : s.Sound) (i : ι) (file : Option Nat) {r : Registers}
    (hr : s.file? file = some r) : NoBadJump (s.program.execute i r).events := by
  intro target length n hmem
  obtain ⟨hrunnable, hending⟩ := Program.faulted_of_mem_events hmem
  have hsealed : s.program.isSealed = true := by
    rw [Program.isRunnable, Bool.and_eq_true] at hrunnable
    exact hrunnable.1
  exact h.checked.run_ending hsealed (h.resolves file r hr) i target length hending

theorem runInPlace (h : s.Sound) (i : ι) : (s.step (.run i none)).Sound := by
  have hmarked := s.program.execute_atMostMarked i s.program.registers
  have hchecked := h.checked.atMostMarked hmarked
  refine of_code ⟨hchecked.fixed, hchecked.kept⟩ hmarked.instructions (fun file r hr => ?_)
    (h.events.append (h.noBadJump i none rfl))
  cases file with
  | none =>
    obtain rfl := Option.some.inj hr
    exact (h.resolves none _ rfl).execute h.checked i
  | some k => exact h.resolves (some k) r hr

theorem runOnFile (h : s.Sound) (i : ι) (k : Nat) : (s.step (.run i (some k))).Sound := by
  simp only [Session.step]
  split
  · next r hr =>
    have hmarked := s.program.execute_atMostMarked i r
    refine of_code (h.checked.atMostMarked hmarked) hmarked.instructions (fun file r' hr' => ?_)
      (h.events.append (h.noBadJump i (some k) hr))
    cases file with
    | none =>
      obtain rfl := Option.some.inj hr'
      rw [hmarked.registers]
      exact h.resolves none _ rfl
    | some j =>
      rcases Array.mem_or_eq_of_mem_setIfInBounds (Array.mem_of_getElem? hr') with hold | rfl
      · exact h.resolves_of_mem hold
      · exact (h.resolves (some k) r hr).execute h.checked i
  · exact h

end

end Sound

/-- One step keeps a session sound. -/
theorem step_sound (h : s.Sound) (step : Step) : (s.step step).Sound := by
  match step with
  | .seal =>
    rcases s.program.seal_cases with ⟨-, hseal⟩ | ⟨e, -, hseal⟩ | ⟨-, hcheck, hseal⟩ <;>
      simp only [Session.step, hseal]
    · exact h
    · exact h.invalidate e
    · exact h.withProgram
        ⟨fun _ => (Program.checkStructure_eq_ok_iff.1 hcheck).2, h.checked.kept⟩ rfl rfl
  | .reset =>
    refine ⟨?_, ?_, h.events⟩
    · exact ((Program.new_wellFormed s.program.stage).withColor s.program.color).checked
    -- there are no jumps left
    · intro file r _ v hv
      simp [Session.step, Program.reset, Program.new, Program.withColor] at hv
  | .withColor color => exact h.withProgram ⟨h.checked.fixed, h.checked.kept⟩ rfl rfl
  | .invalidate reason => exact h.invalidate reason
  | .copy source =>
    simp only [Session.step]
    split
    · next r hr =>
      refine h.withFiles fun r' hr' => ?_
      rcases Array.mem_push.1 hr' with hold | rfl
      · exact .inl hold
      · exact .inr (h.resolves source _ hr)
    · exact h
  | .overwrite file source =>
    simp only [Session.step]
    split
    · next r hr =>
      refine h.withFiles fun r' hr' => ?_
      rcases Array.mem_or_eq_of_mem_setIfInBounds hr' with hold | rfl
      · exact .inl hold
      · exact .inr (h.resolves source _ hr)
    · exact h
  | @Step.run _ _ i none => exact h.runInPlace i
  | @Step.run _ _ i (some k) => exact h.runOnFile i k

theorem steps_sound (h : s.Sound) (steps : List Step) : (steps.foldl step s).Sound := by
  induction steps generalizing s with
  | nil => exact h
  | cons step steps ih => exact ih (step_sound h step)

end Session

/-- Jumps that were checked never fail. After an update of the uniforms that succeeds, a host
may do with the program what it likes, short of pushing instructions and filling uniforms
again: run it for fragments and vertices, any number and in any order, on the canonical
registers or on files copied from them since. No such run is ever reported to have made the
program invalid by a jump, and none ends at a jump that leads out of the program. -/
theorem checked_jumps {p : Program} (hp : p.Reachable) {source : UniformSource}
    (hupdate : (p.updateUniforms source).result = .ok ()) (steps : List Session.Step) :
    let s := steps.foldl Session.step ⟨(p.updateUniforms source).program, #[], #[]⟩
    (∀ target length n, .markedInvalid (.badJumpTarget target length) n ∉ s.events) ∧
      ∀ {ι : Type} [Invocation ι] (i : ι) (file : Option Nat) (r : Registers),
        s.file? file = some r → s.program.isRunnable = true → ∀ target length,
          (s.program.run ⟨i, r, #[]⟩).ending ≠ .faulted (.badJumpTarget target length) := by
  intro s
  have hstart : Session.Sound ⟨(p.updateUniforms source).program, #[], #[]⟩ :=
    { checked := (hp.edit (.updateUniforms source)).wellFormed.checked
      resolves := by
        intro file r hr
        cases file with
        | none => exact Option.some.inj hr ▸ Program.resolves_of_updateUniforms hupdate
        | some k => simp [Session.file?] at hr
      events := by simp [Session.NoBadJump] }
  have hs : s.Sound := Session.steps_sound hstart steps
  refine ⟨hs.events, fun i file r hr hrunnable => ?_⟩
  rw [Program.isRunnable, Bool.and_eq_true] at hrunnable
  exact hs.checked.run_ending hrunnable.1 (hs.resolves file r hr) i

/-- A program that jumps over a discard, to where a uniform says. -/
def steered : Program :=
  [.push "goto" [.name ".to"],
    .push "discard" [],
    .push "=" [.name "fragColor", .literal (.float 1)],
    .seal].foldl Program.edit (Program.new .fragment)

/-- Before the uniform is filled the program jumps out of itself. Afterwards it runs on the
canonical registers, on a copy, and on a copy of the copy. -/
theorem checked_jumps_steered :
    let f := Fragment.ofPosition 0 0
    let source : UniformSource := fun name => if name = "to" then some (.int 3) else none
    let filled := steered.updateUniforms source
    let steps : List Session.Step :=
      [.copy none, .run f (some 0), .run f none, .copy (some 0),
        .run (Vertex.ofPosition Vec4.zero) (some 1)]
    let s := steps.foldl Session.step ⟨filled.program, #[], #[]⟩
    (steered.run ⟨f, steered.registers, #[]⟩).ending = .faulted (.badJumpTarget 0 3) ∧
      filled.result = .ok () ∧ (filled.program.execute f filled.program.registers).isValid = true ∧
      s.files.size = 2 ∧
      ∀ target length n, .markedInvalid (.badJumpTarget target length) n ∉ s.events := by
  intro f source filled steps s
  have hreach : steered.Reachable := (Program.Reachable.new .fragment).foldl _
  have hupdate : filled.result = .ok () := by decide +kernel
  exact ⟨by decide +kernel, hupdate, by decide +kernel, by decide +kernel,
    (checked_jumps hreach hupdate steps).1⟩

end Shading
