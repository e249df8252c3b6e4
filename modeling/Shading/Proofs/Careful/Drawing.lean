import Shading.Proofs.Careful.Running
import Shading.Proofs.Isolation

/- Passes and draws by numbers. A batch is cut into stretches that have to lie inside it,
   and each item of a stretch is looked up by number. A pass may mark its program, but
   leaves the code alone and the batch as long as it is, so that every stretch of it, on
   whichever thread and after whatever faults, runs without a mishap. Hence so does
   whatever a host can have a program do that it has built itself (`no_mishap`). -/
namespace Shading

variable {ι : Type} [Invocation ι] {p q : Program} {n : Nat}

/-- What fits a program fits it when it is marked. -/
theorem Program.Fitting.atMostMarked (h : p.Fitting) (hq : p.AtMostMarked q) : q.Fitting := by
  rcases hq with rfl | rfl
  · exact h
  · exact fun ins hins => (h ins hins).mono ⟨rfl, .refl _, .refl _, .refl _, .refl _, .refl _⟩

/-! ## Stretches of a batch -/

/-- Every span of a batch lies inside it, also before its length is cut to that. -/
theorem mul_lt_of_lt_spans {length size i : Nat} (hsize : 0 < size)
    (h : i < (length + size - 1) / size) : i * size < length := by
  have hle : (i + 1) * size ≤ length + size - 1 := (Nat.le_div_iff_mul_le hsize).1 h
  rw [Nat.add_mul, Nat.one_mul] at hle
  omega

theorem le_of_mem_spans {length size : Nat} {span : Span} (h : span ∈ spans length size) :
    span.start + span.size ≤ length := by
  obtain ⟨i, hi, rfl⟩ := List.mem_map.1 h
  have hstart : i * max size 1 < length := mul_lt_of_lt_spans (by omega) (List.mem_range.1 hi)
  dsimp only
  omega

/-- A pass over a batch in its midst: its program may have been marked, and the batch is as long
as it was. -/
structure Pass.Underway (p : Program) (n : Nat) (pass : Pass ι) : Prop where
  program : p.AtMostMarked pass.program
  size : pass.items.size = n

theorem Pass.Underway.runItem {pass : Pass ι} (h : pass.Underway p n) (r : Registers) (i : Nat) :
    (Pass.runItem (pass, r) i).1.Underway p n := by
  unfold Pass.runItem
  dsimp only
  split
  · exact h
  · next x _ =>
    exact ⟨h.program.trans (pass.program.execute_atMostMarked x r),
      Array.size_setIfInBounds.trans h.size⟩

namespace Careful

/-- A batch cut into spans, none of which begins beyond its end. -/
def spans (length size : Nat) : Careful (List Span) :=
  let size := max size 1
  (List.range ((length + size - 1) / size)).mapM fun i =>
    if i * size ≤ length then .ok ⟨i * size, min size (length - i * size)⟩
    else .error (.items (i * size) 0)

theorem mapM_eq {α β : Type} {f : α → Careful β} {g : α → β} : ∀ {l : List α},
    (∀ x ∈ l, f x = .ok (g x)) → l.mapM f = .ok (l.map g) := by
  intro l
  induction l with
  | nil => exact fun _ => rfl
  | cons x rest ih =>
    intro h
    obtain ⟨hx, hrest⟩ := List.forall_mem_cons.1 h
    rw [List.mapM_cons, hx, ok_bind, ih hrest, ok_bind]
    rfl

theorem spans_eq (length size : Nat) : spans length size = .ok (Shading.spans length size) :=
  mapM_eq fun _ hi => if_pos
    (Nat.le_of_lt (mul_lt_of_lt_spans (Nat.le_max_right ..) (List.mem_range.1 hi)))

variable [CarefulInvocation ι]

/-- Runs the program for a numbered item, which the batch has to have. -/
def runItem (state : Pass ι × Registers) (index : Nat) : Careful (Pass ι × Registers) :=
  let (pass, r) := state
  match pass.items[index]? with
  | none => .error (.items index 1)
  | some item => do
    let done ← execute pass.program item r
    return ({
      program := done.program
      items := pass.items.setIfInBounds index done.invocation
      valid := if done.isValid then pass.valid + 1 else pass.valid
      events := pass.events ++ done.events }, done.registers)

theorem runItem_eq (hp : p.Fitting) {pass : Pass ι} (h : pass.Underway p n) (r : Registers)
    {i : Nat} (hi : i < n) : runItem (pass, r) i = .ok (Pass.runItem (pass, r) i) := by
  have hitem : pass.items[i]? = some _ := Array.getElem?_eq_getElem (h.size ▸ hi)
  simp only [runItem, Pass.runItem, hitem, execute_eq (hp.atMostMarked h.program), ok_bind]
  rfl

/-- Runs the program for the items of a stretch, which has to lie inside the batch. -/
def runSpan (pass : Pass ι) (span : Span) (r : Registers) : Careful (Pass ι × Registers) :=
  if span.start + span.size ≤ pass.items.size then
    (List.range' span.start span.size).foldlM runItem (pass, r)
  else .error (.items span.start span.size)

theorem runItems_eq (hp : p.Fitting) : ∀ {indices : List Nat} {pass : Pass ι} {r : Registers},
    pass.Underway p n → (∀ i ∈ indices, i < n) →
    indices.foldlM runItem (pass, r) = .ok (indices.foldl Pass.runItem (pass, r)) := by
  intro indices
  induction indices with
  | nil => exact fun _ _ => rfl
  | cons i rest ih =>
    intro pass r h hindices
    obtain ⟨hi, hrest⟩ := List.forall_mem_cons.1 hindices
    rw [List.foldlM_cons, runItem_eq hp h r hi, ok_bind, List.foldl_cons]
    exact ih (h.runItem r i) hrest

theorem runSpan_eq (hp : p.Fitting) {pass : Pass ι} (h : pass.Underway p n) {span : Span}
    (hspan : span.start + span.size ≤ n) (r : Registers) :
    runSpan pass span r = .ok (pass.runSpan span r) := by
  rw [runSpan, if_pos (h.size ▸ hspan)]
  refine runItems_eq hp h fun i hi => ?_
  have hlt := (List.mem_range'_1.1 hi).2
  omega

/-- Works on the snapshot of a thread, if the work has no mishap. -/
def spanOn {α : Type} (st : ThreadStorage) (canonical : Registers) (thread : Nat)
    (work : Registers → Careful (α × Registers)) : Careful (α × ThreadStorage) :=
  let (result, st) := st.span canonical thread fun r =>
    match work r with
    | .ok (a, left) => (.ok a, left)
    | .error mishap => (.error mishap, r)
  (·, st) <$> result

theorem spanOn_eq {α : Type} (st : ThreadStorage) (canonical : Registers) (thread : Nat)
    {work : Registers → Careful (α × Registers)} {work' : Registers → α × Registers}
    (h : ∀ r, work r = .ok (work' r)) :
    spanOn st canonical thread work = .ok (st.span canonical thread work') := by
  simp only [spanOn, h, ThreadStorage.span]
  split <;> rfl

/-- Works off a schedule. -/
def runSchedule (canonical : Registers) :
    List (Span × Nat) → Pass ι × ThreadStorage → Careful (Pass ι × ThreadStorage)
  | [], state => .ok state
  | (span, thread) :: rest, (pass, storage) => do
    let state ← spanOn storage canonical thread (runSpan pass span)
    runSchedule canonical rest state

theorem runSchedule_eq (hp : p.Fitting) (canonical : Registers) :
    ∀ {schedule : List (Span × Nat)} {pass : Pass ι} {storage : ThreadStorage},
    pass.Underway p n → (∀ entry ∈ schedule, entry.1.start + entry.1.size ≤ n) →
    runSchedule canonical schedule (pass, storage) =
      .ok (Pass.runSchedule canonical schedule (pass, storage)) := by
  intro schedule
  induction schedule with
  | nil => exact fun _ _ => rfl
  | cons entry rest ih =>
    intro pass storage h hschedule
    obtain ⟨hspan, hrest⟩ := List.forall_mem_cons.1 hschedule
    have hunderway : (storage.span canonical entry.2 (pass.runSpan entry.1)).1.Underway p n := by
      rw [ThreadStorage.span_fst]
      exact Pass.runSpan_keeps (P := Pass.Underway p n) (fun _ r i hpass => hpass.runItem r i)
        h entry.1 _
    rw [runSchedule, spanOn_eq storage canonical entry.2 (runSpan_eq hp h hspan), ok_bind,
      Pass.runSchedule]
    exact ih hunderway hrest

/-- Runs a pass by a schedule. -/
def dispatchBy (p : Program) (storage : ThreadStorage) (threads : Nat)
    (schedule : List (Span × Nat)) (items : Array ι) : Careful (Dispatched ι) := do
  let ready := (List.range threads).foldl (fun st t => st.ready p.registers t) storage
  let (pass, used) ← runSchedule p.registers schedule (Pass.start p items, ready)
  return ⟨pass, (List.range threads).foldl ThreadStorage.clear used⟩

theorem dispatchBy_eq (hp : p.Fitting) (storage : ThreadStorage) (threads : Nat)
    {schedule : List (Span × Nat)} {items : Array ι}
    (h : ∀ entry ∈ schedule, entry.1.start + entry.1.size ≤ items.size) :
    dispatchBy p storage threads schedule items =
      .ok (p.dispatchBy storage threads schedule items) := by
  have hstart : (Pass.start p items).Underway p items.size := ⟨.inl rfl, rfl⟩
  simp only [dispatchBy, runSchedule_eq hp p.registers hstart h, ok_bind]
  rfl

/-- Runs a pass in which the first thread takes every span, the last one first. -/
def dispatch (p : Program) (storage : ThreadStorage) (threads size : Nat) (items : Array ι) :
    Careful (Dispatched ι) := do
  let spans ← spans items.size size
  dispatchBy p storage (max threads 1) (spans.reverse.map fun span => (span, 0)) items

theorem dispatch_eq (hp : p.Fitting) (storage : ThreadStorage) (threads size : Nat)
    (items : Array ι) :
    dispatch p storage threads size items = .ok (p.dispatch storage threads size items) := by
  rw [dispatch, spans_eq, ok_bind]
  refine dispatchBy_eq hp storage _ fun entry hentry => ?_
  obtain ⟨span, hspan, rfl⟩ := List.mem_map.1 hentry
  exact le_of_mem_spans (List.mem_reverse.1 hspan)

/-! ## Draws -/

/-- Runs a pass over a batch with an entry. -/
def pass (d : Device) (id : Nat) (e : DeviceEntry) (items : Array ι) : Careful (Drawn ι) := do
  let done ← dispatch e.program e.storage d.config.threads d.config.span items
  return {
    count := done.pass.valid
    items := done.pass.items
    device := d.setEntry id ⟨done.pass.program, done.storage⟩
    events := done.pass.events }

theorem pass_eq {e : DeviceEntry} (h : e.program.Fitting) (d : Device) (id : Nat)
    (items : Array ι) : pass d id e items = .ok (d.pass id e items) := by
  rw [pass, dispatch_eq h, ok_bind]
  rfl

/-- Draws a batch with a program of the stage of its items. -/
def draw (d : Device) (id : Nat) (items : Array ι) : Careful (Drawn ι) :=
  match d.entry? id with
  | none => .ok ⟨0, items, d, #[.unknownProgram]⟩
  | some e =>
    if e.program.stage ≠ Invocation.stage ι then
      .ok ⟨0, items, d, #[.wrongStage e.program.stage]⟩
    else if e.program.isRunnable then pass d id e items
    else .ok ⟨0, items, d, #[]⟩

theorem draw_eq {d : Device} {id : Nat} (hd : d.program? id = some p) (hp : p.Fitting)
    (items : Array ι) : draw d id items = .ok (d.draw id items) := by
  obtain ⟨e, he, rfl⟩ := Device.program?_eq_some hd
  simp only [draw, Device.draw, he, pass_eq hp]
  split
  · rfl
  · split <;> rfl

/-- Draws a batch of fragments on all processors. -/
def drawParallel (d : Device) (id : Nat) (items : Array Fragment) : Careful (Drawn Fragment) :=
  match d.entry? id with
  | none => .ok ⟨0, items, d, #[.unknownProgram]⟩
  | some e =>
    if e.program.stage = .fragment ∧ e.program.isRunnable then pass d id e items
    else .ok ⟨0, items, d, #[]⟩

theorem drawParallel_eq {d : Device} {id : Nat} (hd : d.program? id = some p) (hp : p.Fitting)
    (items : Array Fragment) : drawParallel d id items = .ok (d.drawParallel id items) := by
  obtain ⟨e, he, rfl⟩ := Device.program?_eq_some hd
  simp only [drawParallel, Device.drawParallel, he, pass_eq hp]
  split <;> rfl

end Careful

/-! ## What a host can have a program do -/

/-- A program runs without a mishap: for every invocation on every register file, in every pass
over a batch, whichever threads take which of its spans and how often, and in every draw.
Each of them comes to what it comes to, its flags included. -/
structure Program.WithoutMishap (p : Program) (ι : Type) [Invocation ι] [CarefulInvocation ι] :
    Prop where
  execute : ∀ (i : ι) (r : Registers), Careful.execute p i r = .ok (p.execute i r)
  dispatchBy : ∀ (storage : ThreadStorage) (threads size : Nat) (schedule : List (Span × Nat))
    (items : Array ι), (∀ entry ∈ schedule, entry.1 ∈ spans items.size size) →
    Careful.dispatchBy p storage threads schedule items =
      .ok (p.dispatchBy storage threads schedule items)
  dispatch : ∀ (storage : ThreadStorage) (threads size : Nat) (items : Array ι),
    Careful.dispatch p storage threads size items = .ok (p.dispatch storage threads size items)
  draw : ∀ (d : Device) (id : Nat), d.program? id = some p → ∀ items : Array ι,
    Careful.draw d id items = .ok (d.draw id items)

theorem Program.Fitting.withoutMishap [CarefulInvocation ι] (h : p.Fitting) :
    p.WithoutMishap ι where
  execute := Careful.execute_eq h
  dispatchBy storage threads _ _ _ hschedule :=
    Careful.dispatchBy_eq h storage threads fun entry hentry =>
      le_of_mem_spans (hschedule entry hentry)
  dispatch := Careful.dispatch_eq h
  draw _ _ hd := Careful.draw_eq hd h

/-- A program that no push could have built has one, here a variable that it does not declare. -/
example : Careful.execute
    { Program.new .fragment with
      instructions := #[.operation (.arith .assign ⟨.slot 3, none⟩ (.literal (.float 1)))]
      isSealed := true }
    (Fragment.ofPosition 0 0) Registers.empty = .error (.slot 3) := rfl

/-- A program that was built by any pushes, whatever masks its literals have, never reaches a lane
beyond the fourth, a corner beyond the third, a variable, resource, instruction or item that is
not there, or a quotient that does not exist; neither for fragments nor for vertices, of either
stage, and on register files of any size, also those of other programs. -/
theorem no_mishap (hp : p.Reachable) :
    p.WithoutMishap Fragment ∧ p.WithoutMishap Vertex ∧
      ∀ (d : Device) (id : Nat), d.program? id = some p → ∀ items : Array Fragment,
        Careful.drawParallel d id items = .ok (d.drawParallel id items) := by
  have hfitting : p.Fitting := hp.wellFormed.fits
  exact ⟨hfitting.withoutMishap, hfitting.withoutMishap,
    fun _ _ hd => Careful.drawParallel_eq hd hfitting⟩

/-- A program that brings no lane wherever an operand may be a vector, and divides an integer by
zero. -/
def laneless : Program :=
  let none : Argument := .literal (.vec ⟨1, 2, 3, 4⟩ Mask.empty)
  [.push "=" [.name "n", .literal (.int 7)],
    .push "/=" [.name "n", .literal (.int 0)],
    .push "=" [.name "v", none],
    .push "min" [.name "v.zq", none, .name "n"],
    .push "clamp" [.name "v", none, .name "v"],
    .push "if" [.name "v.q", .name "!=", none],
    .push "goto" [.literal (.int 9)],
    .push "end" [],
    .push "=" [.name "fragColor.xy", none],
    .seal].foldl Program.edit (Program.new .fragment)

/-- It runs on a register file without slots, and in a pass whose last span is a short one. -/
theorem no_mishap_laneless :
    let f := Fragment.ofPosition 0 0
    let alone := laneless.execute f Registers.empty
    let pass := laneless.dispatch (ThreadStorage.ofThreads 1) 1 2 #[f, f, f]
    Careful.execute laneless f Registers.empty = .ok alone ∧ alone.isValid = true ∧
      Careful.dispatch laneless (ThreadStorage.ofThreads 1) 1 2 #[f, f, f] = .ok pass ∧
      pass.pass.valid = 3 := by
  intro f alone pass
  have hp : laneless.Reachable := (Program.Reachable.new .fragment).foldl _
  obtain ⟨hfragment, -, -⟩ := no_mishap hp
  have halone : alone.isValid = true := by decide +kernel
  have hpass : pass.pass.valid = 3 := by decide +kernel
  exact ⟨hfragment.execute f Registers.empty, halone,
    hfragment.dispatch (ThreadStorage.ofThreads 1) 1 2 #[f, f, f], hpass⟩

end Shading
