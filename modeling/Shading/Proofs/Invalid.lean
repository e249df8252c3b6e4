import Shading.Proofs.Isolation

/- The invalid flag. A program becomes invalid when something that is done to it fails:
   an instruction is refused, it cannot be sealed, a uniform has no value, a run is cut
   off or jumps out of it, or the host says so. `Program.Act` is one such act, and
   `Program.perform` what it makes of the program and what it reports. An act makes the
   program invalid just if it fails, and that is reported the first time
   (`perform_tallies`). An invalid program refuses everything (`Program.Refuses`), so
   no act changes more than its color conversions or reports anything until the program
   is started over (`invalid_until_reset`). A draw is no act of its own: it comes to
   executions one after the other (`draw_lives`). -/
namespace Shading

/-- Whether a report says that a program became invalid. -/
def Event.isMark : Event → Bool
  | .markedInvalid _ _ => true
  | _ => false

/-- How many reports say that a program became invalid. -/
def marks (events : Array Event) : Nat := events.countP Event.isMark

@[simp] theorem marks_empty : marks #[] = 0 := rfl

@[simp] theorem marks_append (a b : Array Event) : marks (a ++ b) = marks a + marks b :=
  Array.countP_append

theorem marks_eq_zero {events : Array Event}
    (h : ∀ reason n, .markedInvalid reason n ∉ events) : marks events = 0 := by
  rw [marks, Array.countP_eq_zero]
  intro e he hmark
  cases e with
  | markedInvalid reason n => exact h reason n he
  | printed _ _ _ | unknownProgram | wrongStage _ => cases hmark

/-- The program an operation leaves, and what it reported. -/
def Outcome.effect {α : Type} (o : Outcome α) : Program × Array Event := (o.program, o.events)

/-- The program an execution leaves, and what it reported. -/
def Execution.effect {ι : Type} (x : Execution ι) : Program × Array Event := (x.program, x.events)

namespace Program

/-- What is done to a program: the host edits it, or it is run for an invocation on some
registers. -/
inductive Act : Type 1
  | edit (e : Edit)
  | execute {ι : Type} [Invocation ι] (i : ι) (r : Registers)

/-- What an act makes of a program, and what it reports. -/
def perform (p : Program) : Act → Program × Array Event
  | .edit (.push name args) => (p.push name args).effect
  | .edit .seal => p.seal.effect
  | .edit .reset => (p.reset, #[])
  | .edit (.withColor color) => (p.withColor color, #[])
  | .edit (.updateUniforms source) => (p.updateUniforms source).effect
  | .edit (.invalidate reason) => p.invalidate reason
  | .edit (.runFragment f) => (p.executeInPlace f).effect
  | .edit (.runVertex v) => (p.executeInPlace v).effect
  | @Act.execute _ _ i r => (p.execute i r).effect

/-- What some acts make of a program, one after the other, and what they report. -/
def live (p : Program) : List Act → Program × Array Event
  | [] => (p, #[])
  | a :: rest =>
    let first := p.perform a
    let later := first.1.live rest
    (later.1, first.2 ++ later.2)

/-- The program runs for an invocation, and is cut off or jumps out of itself. -/
def FaultsOn {ι : Type} [Invocation ι] (p : Program) (i : ι) (r : Registers) : Prop :=
  p.isRunnable = true ∧ ∃ reason, (p.run ⟨i, r, #[]⟩).ending = .faulted reason

/-- An act fails: it answers an error, or says itself that the program is invalid, or the
program faults. -/
def Fails (p : Program) : Act → Prop
  | .edit (.push name args) => ∃ e, (p.push name args).result = .error e
  | .edit .seal => ∃ e, p.seal.result = .error e
  | .edit (.updateUniforms source) => ∃ e, (p.updateUniforms source).result = .error e
  | .edit (.invalidate _) => True
  | .edit (.runFragment f) => p.FaultsOn f p.registers
  | .edit (.runVertex v) => p.FaultsOn v p.registers
  | .edit .reset | .edit (.withColor _) => False
  | @Act.execute _ _ i r => p.FaultsOn i r

/-- Nothing can be done with the program. Pushing, sealing and updating the uniforms answer
that it is invalid and change nothing, an execution touches neither the invocation nor
the registers, and a draw touches none of its items. -/
structure Refuses (p : Program) : Prop where
  pushing : ∀ name args, p.push name args = .refuse .invalidProgram p
  sealing : p.seal = .refuse .invalidProgram p
  updating : ∀ source, p.updateUniforms source = .refuse .invalidProgram p
  executing : ∀ {ι : Type} [Invocation ι] (i : ι) r, p.execute i r = ⟨false, i, r, p, #[]⟩
  drawing : ∀ {ι : Type} [Invocation ι] {d : Device} {id : Nat} (batch : Array ι),
    d.program? id = some p →
      (d.draw id batch).count = 0 ∧ (d.draw id batch).items = batch ∧
        (d.draw id batch).device = d ∧ marks (d.draw id batch).events = 0
  drawingParallel : ∀ {d : Device} {id : Nat} (batch : Array Fragment),
    d.program? id = some p → d.drawParallel id batch = ⟨0, batch, d, #[]⟩

variable {p : Program}

theorem perform_edit (p : Program) (e : Edit) : (p.perform (.edit e)).1 = p.edit e := by
  cases e <;> rfl

theorem live_append (p : Program) (before after : List Act) :
    p.live (before ++ after) =
      (((p.live before).1.live after).1,
        (p.live before).2 ++ ((p.live before).1.live after).2) := by
  induction before generalizing p with
  | nil => simp [live]
  | cons a before ih => simp only [List.cons_append, live, ih, Array.append_assoc]

/-! ## Acts on an invalid program -/

theorem not_isRunnable (h : p.isInvalid = true) : p.isRunnable = false := by
  simp [isRunnable, h]

theorem execute_of_not_runnable {ι : Type} [Invocation ι] (h : p.isRunnable = false) (i : ι)
    (r : Registers) : p.execute i r = ⟨false, i, r, p, #[]⟩ := by
  rw [execute, h, if_neg Bool.false_ne_true]

theorem refuses_of_isInvalid (h : p.isInvalid = true) : p.Refuses where
  pushing name args := by rw [Program.push, if_pos h]
  sealing := by rw [Program.seal, if_pos h]
  updating source := by rw [Program.updateUniforms, if_pos h]
  executing i r := execute_of_not_runnable (not_isRunnable h) i r
  drawing := by
    intro ι _ d id batch hp
    have hidle : ¬d.Draws id ι := by
      rintro ⟨q, hq, -, hrun⟩
      rw [hp] at hq
      obtain rfl := Option.some.inj hq
      rw [not_isRunnable h] at hrun
      cases hrun
    obtain ⟨events, hdraw, hevents⟩ := Device.draw_of_not_draws hidle batch
    rw [hdraw]
    exact ⟨rfl, rfl, rfl, marks_eq_zero hevents⟩
  drawingParallel := by
    intro d id batch hp
    obtain ⟨e, he, rfl⟩ := Device.program?_eq_some hp
    simp [Device.drawParallel, he, not_isRunnable h]

/-- All that an act may do to an invalid program is to replace its color conversions. -/
theorem perform_invalid (h : p.isInvalid = true) {a : Act} (ha : a ≠ .edit .reset) :
    ∃ color, p.perform a = (p.withColor color, #[]) := by
  have hp := refuses_of_isInvalid h
  match a with
  | .edit (.push name args) => exact ⟨p.color, by rw [perform, hp.pushing]; rfl⟩
  | .edit .seal => exact ⟨p.color, by rw [perform, hp.sealing]; rfl⟩
  | .edit .reset => exact absurd rfl ha
  | .edit (.withColor color) => exact ⟨color, rfl⟩
  | .edit (.updateUniforms source) => exact ⟨p.color, by rw [perform, hp.updating]; rfl⟩
  | .edit (.invalidate reason) =>
    exact ⟨p.color, by rw [perform, Program.invalidate, if_pos h]; rfl⟩
  | .edit (.runFragment f) =>
    exact ⟨p.color, by rw [perform, executeInPlace, hp.executing]; rfl⟩
  | .edit (.runVertex v) => exact ⟨p.color, by rw [perform, executeInPlace, hp.executing]; rfl⟩
  | @Act.execute _ _ i r => exact ⟨p.color, by rw [perform, hp.executing]; rfl⟩

theorem live_invalid (h : p.isInvalid = true) {acts : List Act}
    (hreset : ∀ a ∈ acts, a ≠ .edit .reset) :
    ∃ color, p.live acts = (p.withColor color, #[]) := by
  induction acts generalizing p with
  | nil => exact ⟨p.color, rfl⟩
  | cons a acts ih =>
    obtain ⟨color, hfirst⟩ := perform_invalid h (hreset a List.mem_cons_self)
    have hinvalid : (p.withColor color).isInvalid = true := h
    obtain ⟨color', hlater⟩ := ih hinvalid fun b hb => hreset b (List.mem_cons_of_mem a hb)
    exact ⟨color', by simp only [live, hfirst, hlater]; rfl⟩

/-! ## Acts on a program that is not invalid -/

/-- A program is invalid after what is done to it just if that failed, and then that is
reported once. -/
structure Tallies (failed : Prop) (done : Program × Array Event) : Prop where
  isInvalid : done.1.isInvalid = true ↔ failed
  marks : marks done.2 = done.1.isInvalid.toNat

theorem tallies_kept {failed : Prop} {events : Array Event} (hp : p.isInvalid = false)
    (hevents : Shading.marks events = 0) (hfailed : ¬failed) : Tallies failed (p, events) where
  isInvalid := by simp [hp, hfailed]
  marks := by simp [hp, hevents]

theorem tallies_marked {failed : Prop} {events : Array Event} (hp : p.isInvalid = false)
    (hevents : Shading.marks events = 0) (hfailed : failed) (reason : ProgramError) :
    Tallies failed ((p.invalidate reason).1, events ++ (p.invalidate reason).2) where
  isInvalid := by simp [invalidate_isInvalid, hfailed]
  marks := by
    have hmark : Shading.marks (p.invalidate reason).2 = 1 := by
      rw [Program.invalidate, hp, if_neg Bool.false_ne_true]
      rfl
    rw [invalidate_isInvalid, marks_append, hevents, hmark]
    rfl

theorem ok_tallies {α : Type} (hp : p.isInvalid = false) (a : α) :
    Tallies (∃ e, (Outcome.ok a p).result = .error e) (Outcome.ok a p).effect :=
  tallies_kept hp rfl (by rintro ⟨e, ⟨⟩⟩)

theorem fail_tallies {α : Type} (hp : p.isInvalid = false) (e : ProgramError) :
    Tallies (∃ e', (Outcome.fail e p : Outcome α).result = .error e')
      (Outcome.fail e p : Outcome α).effect := by
  have hfailed : ∃ e', (Outcome.fail e p : Outcome α).result = .error e' := ⟨e, rfl⟩
  have h := tallies_marked hp marks_empty hfailed e
  rwa [Array.empty_append] at h

theorem push_tallies (hp : p.WellFormed) (hvalid : p.isInvalid = false) (name : String)
    (args : List Argument) :
    Tallies (∃ e, (p.push name args).result = .error e) (p.push name args).effect := by
  have hgrows := Build.grows_instruction hp.tables name args
  rw [Program.push, if_neg (ne_true_of_eq_false hvalid)]
  rcases hrun : (Build.instruction name args).run p with ⟨result, q⟩
  rw [hrun] at hgrows
  have hq : q.isInvalid = false := hgrows.isInvalid.trans hvalid
  cases result with
  | ok ins => exact ok_tallies (p := q.append ins) hq _
  | error e => exact fail_tallies hq e

/-- A refused instruction is not appended. -/
theorem push_error {name : String} {args : List Argument} {e : ProgramError} (hp : p.WellFormed)
    (h : (p.push name args).result = .error e) :
    (p.push name args).program.instructions = p.instructions := by
  have hgrows := Build.grows_instruction hp.tables name args
  unfold Program.push at h ⊢
  split
  · rfl
  · next hvalid =>
    rw [if_neg hvalid] at h
    rcases hrun : (Build.instruction name args).run p with ⟨result, q⟩
    rw [hrun] at hgrows h
    cases result with
    | ok ins => cases h
    | error e =>
      show (q.invalidate e).1.instructions = p.instructions
      rw [invalidate_program]
      exact hgrows.instructions

theorem seal_tallies (hvalid : p.isInvalid = false) :
    Tallies (∃ e, p.seal.result = .error e) p.seal.effect := by
  rw [Program.seal, if_neg (ne_true_of_eq_false hvalid)]
  split
  · exact fail_tallies hvalid _
  · refine ok_tallies ?_ ()
    exact hvalid

theorem updateUniforms_tallies (hvalid : p.isInvalid = false) (source : UniformSource) :
    Tallies (∃ e, (p.updateUniforms source).result = .error e)
      (p.updateUniforms source).effect := by
  have hfilled (r : Registers) : ({ p with registers := r } : Program).isInvalid = false := hvalid
  rw [Program.updateUniforms, if_neg (ne_true_of_eq_false hvalid)]
  dsimp only
  split
  · exact fail_tallies (hfilled _) _
  · split
    · exact fail_tallies (hfilled _) _
    · exact ok_tallies (hfilled _) ()

section

variable {ι : Type} [Invocation ι]

/-- A run reports nothing but what is printed. -/
theorem keeps_unmarked : p.Keeps fun s : State ι => marks s.events = 0 where
  operation o s _ hs := by
    refine Operation.run_keeps (P := fun s : State ι => marks s.events = 0)
      (fun src _ s h => ?_) (fun dst _ g s h => ?_) (fun x y value s h => ?_) hs
    · obtain ⟨anchors, -, hread⟩ := src.read_frame (p := p) s
      rw [hread]
      exact h
    · cases hplace : dst.place <;> exact h
    · simpa [State.report, marks, Array.countP_push, Event.isMark] using h
  test c s _ hs := by
    obtain ⟨anchors, -, hread⟩ := c.rhs.read_frame (p := p) s
    rw [Condition.test_state, hread]
    exact hs
  discard _ hs := hs

theorem execute_tallies (hvalid : p.isInvalid = false) (i : ι) (r : Registers) :
    Tallies (p.FaultsOn i r) (p.execute i r).effect := by
  cases hrun : p.isRunnable with
  | false =>
    rw [execute_of_not_runnable hrun]
    exact tallies_kept hvalid rfl fun h => by rw [h.1] at hrun; cases hrun
  | true =>
    have hevents : marks (p.run ⟨i, r, #[]⟩).state.events = 0 :=
      keeps_unmarked.run (s := ⟨i, r, #[]⟩) rfl
    rw [execute, hrun, if_pos rfl]
    dsimp only [Execution.effect]
    cases hending : (p.run ⟨i, r, #[]⟩).ending with
    | faulted reason => exact tallies_marked hvalid hevents ⟨hrun, reason, hending⟩ reason
    | completed | discarded =>
      rw [Array.append_empty]
      refine tallies_kept hvalid hevents ?_
      rintro ⟨-, reason, h⟩
      rw [hending] at h
      cases h

theorem executeInPlace_tallies (hvalid : p.isInvalid = false) (i : ι) :
    Tallies (p.FaultsOn i p.registers) (p.executeInPlace i).effect :=
  ⟨(execute_tallies hvalid i p.registers).isInvalid, (execute_tallies hvalid i p.registers).marks⟩

end

theorem perform_tallies (hp : p.WellFormed) (hvalid : p.isInvalid = false) (a : Act) :
    Tallies (p.Fails a) (p.perform a) := by
  match a with
  | .edit (.push name args) => exact push_tallies hp hvalid name args
  | .edit .seal => exact seal_tallies hvalid
  | .edit .reset => exact tallies_kept rfl rfl id
  | .edit (.withColor color) => exact tallies_kept hvalid rfl id
  | .edit (.updateUniforms source) => exact updateUniforms_tallies hvalid source
  | .edit (.invalidate reason) =>
    have h := tallies_marked hvalid marks_empty trivial reason
    rwa [Array.empty_append] at h
  | .edit (.runFragment f) => exact executeInPlace_tallies hvalid f
  | .edit (.runVertex v) => exact executeInPlace_tallies hvalid v
  | @Act.execute _ _ i r => exact execute_tallies hvalid i r

/-! ## Draws -/

section

variable {ι : Type} [Invocation ι]

/-- Executions as acts. -/
def executions (runs : List (ι × Registers)) : List Act := runs.map fun run => .execute run.1 run.2

theorem executions_ne_reset (runs : List (ι × Registers)) :
    ∀ a ∈ executions runs, a ≠ .edit .reset := by
  intro a ha
  obtain ⟨run, -, rfl⟩ := List.mem_map.1 ha
  exact fun h => nomatch h

/-- An execution without a fault leaves the program as it is and marks nothing. -/
theorem execute_of_not_faultsOn (hvalid : p.isInvalid = false) {i : ι} {r : Registers}
    (h : ¬p.FaultsOn i r) : (p.execute i r).program = p ∧ marks (p.execute i r).events = 0 := by
  obtain ⟨hflag, hmarks⟩ := execute_tallies hvalid i r
  have hkept : (p.execute i r).program.isInvalid = false := eq_false_of_ne_true (mt hflag.1 h)
  constructor
  · rcases p.execute_atMostMarked i r with hsame | hmarked
    · exact hsame
    · rw [hmarked] at hkept
      cases hkept
  · exact hmarks.trans (congrArg Bool.toNat hkept)

/-- Of executions one after the other, the first that faults makes the program invalid, and
those after it touch nothing. -/
theorem live_tallies (hvalid : p.isInvalid = false) (runs : List (ι × Registers)) :
    Tallies (∃ run ∈ runs, p.FaultsOn run.1 run.2) (p.live (executions runs)) := by
  induction runs with
  | nil => exact tallies_kept hvalid rfl (by simp)
  | cons run runs ih =>
    have hlive : p.live (executions (run :: runs)) =
        (((p.execute run.1 run.2).program.live (executions runs)).1,
          (p.execute run.1 run.2).events ++
            ((p.execute run.1 run.2).program.live (executions runs)).2) := rfl
    by_cases hfaults : p.FaultsOn run.1 run.2
    · obtain ⟨hflag, hmarks⟩ := execute_tallies hvalid run.1 run.2
      have hinvalid : (p.execute run.1 run.2).program.isInvalid = true := hflag.2 hfaults
      obtain ⟨color, hlater⟩ := live_invalid hinvalid (executions_ne_reset runs)
      rw [hlive, hlater, Array.append_empty]
      exact ⟨⟨fun _ => ⟨run, List.mem_cons_self, hfaults⟩, fun _ => hinvalid⟩, hmarks⟩
    · obtain ⟨hkept, hmarks⟩ := execute_of_not_faultsOn hvalid hfaults
      rw [hlive, hkept]
      refine ⟨ih.isInvalid.trans (by simp [hfaults]), ?_⟩
      rw [marks_append, hmarks, Nat.zero_add]
      exact ih.marks

/-- A pass comes to executions one after the other. -/
theorem dispatchBy_lives (p : Program) (storage : ThreadStorage) (threads : Nat)
    (schedule : List (Span × Nat)) (batch : Array ι) :
    let pass := (p.dispatchBy storage threads schedule batch).pass
    ∃ runs : List (ι × Registers), p.live (executions runs) = (pass.program, pass.events) := by
  refine Pass.dispatchBy_keeps (P := fun pass => ∃ runs : List (ι × Registers),
    p.live (executions runs) = (pass.program, pass.events)) ?_ ⟨[], rfl⟩ ..
  rintro pass r i ⟨runs, hlive⟩
  unfold Pass.runItem
  dsimp only
  split
  · exact ⟨runs, hlive⟩
  · next x _ =>
    refine ⟨runs ++ [(x, r)], ?_⟩
    rw [executions, List.map_append, live_append, ← executions, hlive]
    simp [live, perform, Execution.effect]

end

end Program

namespace Device

variable {d : Device} {id : Nat} {p : Program}

/-- A draw comes to executions of its program, one after the other. -/
theorem draw_lives {ι : Type} [Invocation ι] (hp : d.program? id = some p) (batch : Array ι) :
    ∃ runs : List (ι × Registers),
      (d.draw id batch).device.program? id = some (p.live (Program.executions runs)).1 ∧
        marks (d.draw id batch).events = marks (p.live (Program.executions runs)).2 := by
  by_cases hdraws : d.Draws id ι
  · obtain ⟨e, he, hdraw⟩ := hdraws.draw_eq batch
    obtain ⟨_, he', rfl⟩ := program?_eq_some hp
    obtain rfl := Option.some.inj (he.symm.trans he')
    obtain ⟨runs, hlive⟩ := e.program.dispatchBy_lives e.storage (max d.config.threads 1)
      ((spans batch.size d.config.span).reverse.map fun span => (span, 0)) batch
    refine ⟨runs, ?_, ?_⟩
    · rw [hdraw, program?_pass he, if_pos rfl, hlive]
      rfl
    · rw [hdraw, hlive]
      rfl
  · obtain ⟨events, hdraw, hevents⟩ := draw_of_not_draws hdraws batch
    rw [hdraw]
    exact ⟨[], hp, marks_eq_zero hevents⟩

theorem program?_setProgram {q : Program} (hp : d.program? id = some p) (other : Nat) :
    (d.setProgram id q).program? other = if id = other then some q else d.program? other := by
  obtain ⟨e, he, -⟩ := program?_eq_some hp
  simp only [setProgram, he, program?, get_setEntry he]
  split <;> rfl

/-- Filling the uniforms of a program in a device is one of its edits. -/
theorem serve_updateUniforms (d : Device) (id : Nat) (source : UniformSource) :
    d.serve (.updateUniforms id source) = d.serve (.edit id (.updateUniforms source)) := by
  simp only [serve, Device.updateUniforms]
  cases d.program? id <;> rfl

theorem program?_create_of_some (hp : d.program? id = some p) (q : Program) :
    (d.create q).device.program? id = some p := by
  obtain ⟨e, he, rfl⟩ := program?_eq_some hp
  have hlt := lt_of_entry he
  unfold Device.create
  dsimp only
  split
  · unfold program? entry?
    rw [Array.getElem?_push_lt hlt, ← Array.getElem?_eq_getElem hlt]
    exact hp
  · exact hp

theorem program?_delete (hp : d.program? id = some p) {other : Nat} (hother : other ≠ id) :
    (d.delete other).2.program? id = some p := by
  unfold program? entry? Device.delete
  rw [Array.getElem?_setIfInBounds_ne hother]
  exact hp

theorem program?_draw_invalid {ι : Type} [Invocation ι] (hp : d.program? id = some p)
    (h : p.isInvalid = true) (other : Nat) (batch : Array ι) :
    (d.draw other batch).device.program? id = some p := by
  by_cases hother : id = other
  · subst hother
    obtain ⟨-, -, hdevice, -⟩ := (Program.refuses_of_isInvalid h).drawing batch hp
    rw [hdevice, hp]
  · rw [(program?_draw d other batch).1 id hother, hp]

theorem program?_edit_invalid (hp : d.program? id = some p) (h : p.isInvalid = true)
    {other : Nat} {e : Program.Edit} (he : other = id → e ≠ .reset) :
    ∃ color, (d.serve (.edit other e)).program? id = some (p.withColor color) := by
  simp only [serve]
  split
  · next x hx =>
    rw [program?_setProgram hx]
    split
    · next hother =>
      subst hother
      obtain rfl := Option.some.inj (hp.symm.trans hx)
      have ha : Program.Act.edit e ≠ .edit .reset := fun hact => he rfl (by injection hact)
      obtain ⟨color, hperform⟩ := Program.perform_invalid h ha
      exact ⟨color, by rw [← Program.perform_edit, hperform]⟩
    · exact ⟨p.color, hp⟩
  · exact ⟨p.color, hp⟩

/-- A request leaves an invalid program as it is, up to its color conversions. -/
theorem serve_invalid (hp : d.program? id = some p) (h : p.isInvalid = true) {q : Request}
    (hdelete : q ≠ .delete id) (hreset : q ≠ .edit id .reset) :
    ∃ color, (d.serve q).program? id = some (p.withColor color) := by
  match q with
  | .create q => exact ⟨p.color, program?_create_of_some hp q⟩
  | .delete other => exact ⟨p.color, program?_delete hp fun hother => hdelete (hother ▸ rfl)⟩
  | .updateUniforms other source =>
    rw [serve_updateUniforms]
    exact program?_edit_invalid hp h fun _ => by rintro ⟨⟩
  | .edit other e =>
    refine program?_edit_invalid hp h ?_
    rintro rfl rfl
    exact hreset rfl
  | .drawFragments other batch => exact ⟨p.color, program?_draw_invalid hp h other batch⟩
  | .drawVertices other batch => exact ⟨p.color, program?_draw_invalid hp h other batch⟩

theorem foldl_serve_invalid (hp : d.program? id = some p) (h : p.isInvalid = true)
    {requests : List Request}
    (hrequests : ∀ q ∈ requests, q ≠ .delete id ∧ q ≠ .edit id .reset) :
    ∃ color, (requests.foldl serve d).program? id = some (p.withColor color) := by
  induction requests generalizing d p with
  | nil => exact ⟨p.color, hp⟩
  | cons q requests ih =>
    obtain ⟨hdelete, hreset⟩ := hrequests q List.mem_cons_self
    obtain ⟨color, hfirst⟩ := serve_invalid hp h hdelete hreset
    have hinvalid : (p.withColor color).isInvalid = true := h
    obtain ⟨color', hlater⟩ :=
      ih hfirst hinvalid fun q' hq' => hrequests q' (List.mem_cons_of_mem q hq')
    exact ⟨color', hlater⟩

end Device

/-! ## From the first failure on -/

namespace Program

/-- A program that is given up until it is started over. Whatever else is done to it replaces
at most its color conversions and reports nothing, by itself and in a device, and all
along it refuses everything. -/
structure Inert (p : Program) : Prop where
  refuses : p.Refuses
  acts : ∀ acts : List Act, (∀ a ∈ acts, a ≠ .edit .reset) →
    ∃ color, p.live acts = (p.withColor color, #[]) ∧ (p.withColor color).Refuses
  requests : ∀ (d : Device) (id : Nat) (requests : List Device.Request),
    d.program? id = some p → (∀ q ∈ requests, q ≠ .delete id ∧ q ≠ .edit id .reset) →
    ∃ color, (requests.foldl Device.serve d).program? id = some (p.withColor color) ∧
      (p.withColor color).Refuses

variable {p : Program}

theorem inert_of_isInvalid (h : p.isInvalid = true) : p.Inert where
  refuses := refuses_of_isInvalid h
  acts acts hreset := by
    obtain ⟨color, hlive⟩ := live_invalid h hreset
    exact ⟨color, hlive, refuses_of_isInvalid h⟩
  requests d id requests hp hrequests := by
    obtain ⟨color, hserved⟩ := Device.foldl_serve_invalid hp h hrequests
    exact ⟨color, hserved, refuses_of_isInvalid h⟩

/-- The invalid flag goes up where something fails, and stays up. Of a program that is not
invalid an act makes an invalid one just if it fails, and then it reports that once, and the
program is inert. A push that fails appends no instruction. A draw comes to executions of the
program, one after the other, of which the first that faults does the same. -/
theorem invalid_until_reset (h : p.Reachable) (hvalid : p.isInvalid = false) :
    (∀ a : Act,
      let done := p.perform a
      (done.1.isInvalid = true ↔ p.Fails a) ∧ marks done.2 = done.1.isInvalid.toNat ∧
        (p.Fails a → done.1.Inert)) ∧
    (∀ name args e, (p.push name args).result = .error e →
      (p.push name args).program.instructions = p.instructions) ∧
    (∀ {ι : Type} [Invocation ι] (d : Device) (id : Nat) (batch : Array ι),
      d.program? id = some p →
      ∃ runs : List (ι × Registers),
        let done := p.live (executions runs)
        (d.draw id batch).device.program? id = some done.1 ∧
          (done.1.isInvalid = true ↔ ∃ run ∈ runs, p.FaultsOn run.1 run.2) ∧
          marks (d.draw id batch).events = done.1.isInvalid.toNat ∧
          (done.1.isInvalid = true → done.1.Inert)) := by
  have hp := h.wellFormed
  refine ⟨fun a => ?_, fun name args e he => push_error hp he, fun d id batch hid => ?_⟩
  · obtain ⟨hflag, hmarks⟩ := perform_tallies hp hvalid a
    exact ⟨hflag, hmarks, fun hfails => inert_of_isInvalid (hflag.2 hfails)⟩
  · obtain ⟨runs, hdrawn, hevents⟩ := Device.draw_lives hid batch
    obtain ⟨hfaults, hmarks⟩ := live_tallies hvalid runs
    exact ⟨runs, hdrawn, hfaults, hevents.trans hmarks, inert_of_isInvalid⟩

/-- The program jumps out of itself at its third execution. That is reported, and nothing that
follows is, nor does any of it help. -/
theorem invalid_until_reset_tripping :
    let f := Fragment.ofPosition 0 0
    let once := (tripping.execute f tripping.registers).registers
    let twice := (tripping.execute f once).registers
    let marked := (tripping.perform (.execute f twice)).1
    let after : List Act := [.edit (.push "discard" []), .edit .seal, .execute f once]
    let requests : List Device.Request :=
      [.edit 0 .seal, .drawFragments 0 #[f, f], .create tripping]
    let d := requests.foldl Device.serve ((Device.ofConfig ⟨1, 2⟩).create marked).device
    tripping.Reachable ∧ tripping.isInvalid = false ∧ ¬tripping.Fails (.execute f once) ∧
      tripping.Fails (.execute f twice) ∧ marks (tripping.perform (.execute f twice)).2 = 1 ∧
      (marked.live after).2 = #[] ∧ (marked.live after).1.Refuses ∧
      (d.draw 0 #[f, f, f]).count = 0 ∧ (d.draw 0 #[f, f, f]).items = #[f, f, f] := by
  intro f once twice marked after requests d
  have h : tripping.Reachable := (Reachable.new .fragment).foldl _
  have hvalid : tripping.isInvalid = false := by decide +kernel
  have hfails : tripping.Fails (.execute f twice) :=
    ⟨by decide +kernel, .badJumpTarget 0 5, by decide +kernel⟩
  have hsealed : marked.isSealed = true := by decide +kernel
  obtain ⟨hacts, -, -⟩ := invalid_until_reset h hvalid
  obtain ⟨hflag, hmarks, hinert⟩ := hacts (.execute f twice)
  obtain ⟨color, hlive, hrefuses⟩ := (hinert hfails).acts after (by simp [after])
  obtain ⟨color', hserved, hrefuses'⟩ := (hinert hfails).requests _ 0 requests
    (Device.program?_create hsealed (Device.ofConfig ⟨1, 2⟩)) (by simp [requests])
  obtain ⟨hcount, hitems, -⟩ := hrefuses'.drawing #[f, f, f] hserved
  refine ⟨h, hvalid, mt (hacts (.execute f once)).1.2 (by decide +kernel), hfails, ?_,
    by rw [hlive], ?_, hcount, hitems⟩
  · rw [hmarks, hflag.2 hfails]
    rfl
  · rw [hlive]
    exact hrefuses

end Program

end Shading
