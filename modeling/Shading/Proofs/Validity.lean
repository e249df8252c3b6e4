import Shading.Proofs.Colors

/- What the validity flag says. A run that does not come to the end of its program gives its
   fragment up (`Program.run_gives_up`), so whatever a program does with a fragment that
   comes without an output tag, the flag says whether it leaves with one
   (`Program.execute_isValid`). That is so exactly if the run came to the end and stored
   a color on the way, and then the tag is that of the last color. For the count of a
   batch the flags of its items are all that matters: each item runs once, and the
   count goes up when it has a tag afterwards (`Pass.Counted`). -/
namespace Shading

variable {p : Program}

/-! ## One fragment -/

namespace Program

section

variable {ι : Type} [Invocation ι]

theorem runLinear_gives_up : ∀ (l : List Instruction) (s : State ι),
    (p.runLinear l s).ending = .completed ∨
      ∃ t : State ι, (p.runLinear l s).state = t.discard := by
  intro l
  induction l with
  | nil => exact fun _ => .inl rfl
  | cons ins l ih =>
    intro s
    cases ins with
    | operation o => exact ih (o.run p s)
    | discard => exact .inr ⟨s, rfl⟩
    | ifThen _ | elseIf _ | otherwise | endIf | goto _ => exact ih s

/-- A run that does not come to the end of its program gives the invocation up. -/
theorem run_gives_up (p : Program) (s : State ι) :
    (p.run s).ending = .completed ∨ ∃ t : State ι, (p.run s).state = t.discard := by
  unfold run
  split
  · have h := finishes_runBranching (p := p) p.stepLimit ⟨0, Nesting.start, s⟩
    generalize p.runBranching p.stepLimit ⟨0, Nesting.start, s⟩ = done at h ⊢
    cases h with
    | completed _ _ _ => exact .inl rfl
    | discarded _ _ _ _ | jumpedOut _ _ _ _ _ | cutOff _ _ => exact .inr ⟨_, rfl⟩
  · exact runLinear_gives_up _ s

end

/-- Whether a fragment without a tag counts after an execution is whether it has one then.
The program need not be one that can run. -/
theorem execute_isValid (p : Program) {f : Fragment} (hf : f.output = .invalid) (r : Registers) :
    (p.execute f r).isValid = (p.execute f r).invocation.isValid := by
  cases hrun : p.isRunnable with
  | false =>
    rw [execute_of_not_runnable hrun]
    simp [Fragment.isValid, hf]
  | true =>
    rw [execute_eq_finish hrun]
    generalize hdone : p.run ⟨f, r, #[]⟩ = done
    have hflag : (p.finish done).isValid =
        (done.ending == .completed && done.state.invocation.isValid) := rfl
    have hleft : (p.finish done).invocation = done.state.invocation := rfl
    rw [hflag, hleft]
    rcases p.run_gives_up ⟨f, r, #[]⟩ with hcompleted | ⟨t, hgiven⟩
    · rw [← hdone, hcompleted]
      rfl
    · have hdiscarded : t.discard.invocation.isValid = false := rfl
      rw [← hdone, hgiven, hdiscarded, Bool.and_false]

/-- The fetch after `n` others of a run from a state stores a color in a model. -/
def ColorsAt (p : Program) (s : State Fragment) (n : Nat) (tag : OutputTag) : Prop :=
  n < p.stepLimit ∧ ∃ c, p.Reaches n ⟨0, Nesting.start, s⟩ c ∧ c.tag? p = some tag

/-- The last color that a run from a state stores is in a model. -/
def LastColor (p : Program) (s : State Fragment) (tag : OutputTag) : Prop :=
  ∃ n, p.ColorsAt s n tag ∧ ∀ m tag', n < m → ¬p.ColorsAt s m tag'

/-- Behind the end of the program nothing is fetched. -/
theorem ColorsAt.lt {s : State Fragment} {n m : Nat} {tag : OutputTag} {d : Cursor Fragment}
    (h : p.ColorsAt s m tag) (hreach : p.Reaches n ⟨0, Nesting.start, s⟩ d)
    (hend : p.instructions[d.position]? = none) : m < n := by
  obtain ⟨-, c, hc, htag⟩ := h
  rcases Nat.lt_trichotomy m n with hlt | rfl | hgt
  · exact hlt
  · rw [hc.unique hreach, Cursor.tag?, hend] at htag
    cases htag
  · obtain ⟨d', ins, hreach', hins⟩ := hc.before hgt
    rw [hreach'.unique hreach, hend] at hins
    cases hins

/-- What the tag of a fragment is at the end of the program. -/
theorem output_of_completed (hp : p.WellFormed) {s : State Fragment}
    (hending : (p.run s).ending = .completed) :
    ((p.run s).state.invocation.output = s.invocation.output ∧ ∀ n tag, ¬p.ColorsAt s n tag) ∨
      p.LastColor s (p.run s).state.invocation.output := by
  have h := run_finishes hp s
  generalize p.run s = done at h hending ⊢
  cases h with
  | discarded _ _ _ _ | jumpedOut _ _ _ _ _ | cutOff _ _ => cases hending
  | @completed n d hreach hn hend =>
    have hnot {k m : Nat} (hnone : p.NoColor ⟨0, Nesting.start, s⟩ k n) (hle : k ≤ m)
        (tag : OutputTag) : ¬p.ColorsAt s m tag := by
      intro hm
      have hlt := hm.lt hreach hend
      obtain ⟨-, c, hc, htag⟩ := hm
      rw [hnone m c hle hlt hc] at htag
      cases htag
    rcases hreach.output hp.fits with ⟨hkept, hnone⟩ | ⟨m, e, hm, hreach', htag, hnone⟩
    · exact .inl ⟨hkept, fun m tag => hnot hnone (Nat.zero_le m) tag⟩
    · exact .inr ⟨m, ⟨Nat.lt_of_lt_of_le hm hn, e, hreach', htag⟩,
        fun k tag hk => hnot hnone hk tag⟩

theorem LastColor.ne_invalid {s : State Fragment} {tag : OutputTag} (h : p.LastColor s tag) :
    tag ≠ .invalid := by
  obtain ⟨n, ⟨-, c, -, htag⟩, -⟩ := h
  exact Cursor.tag?_ne_invalid htag

theorem isValid_of_ne_invalid {f : Fragment} (h : f.output ≠ .invalid) : f.isValid = true := by
  simp [Fragment.isValid, h]

/-- A fragment that comes without a tag counts exactly if its run comes to the end and stores
a color, and has the tag of the last color then and no tag otherwise. -/
theorem execute_color (hp : p.WellFormed) (hrun : p.isRunnable = true) {f : Fragment}
    (hf : f.output = .invalid) (r : Registers) :
    let s : State Fragment := ⟨f, r, #[]⟩
    let done := p.execute f r
    (done.isValid = true ↔ (p.run s).ending = .completed ∧ ∃ n tag, p.ColorsAt s n tag) ∧
      (done.isValid = true → p.LastColor s done.invocation.output) ∧
      (done.isValid = false → done.invocation.output = .invalid) := by
  intro s done
  have hflag : done.isValid = done.invocation.isValid := p.execute_isValid hf r
  have hfinish : done = p.finish (p.run s) := execute_eq_finish hrun f r
  have hcolor : done.isValid = true → (p.run s).ending = .completed ∧
      p.LastColor s done.invocation.output := by
    intro hvalid
    have hending : (p.run s).ending = .completed := by
      rw [hfinish] at hvalid
      exact eq_of_beq (Bool.and_eq_true_iff.1 hvalid).1
    refine ⟨hending, ?_⟩
    rw [hflag] at hvalid
    rw [hfinish] at hvalid ⊢
    rcases output_of_completed hp hending with ⟨hkept, -⟩ | hlast
    · simp [finish, Fragment.isValid, hkept, s, hf] at hvalid
    · exact hlast
  refine ⟨⟨fun hvalid => ?_, fun ⟨hending, n, tag, hn⟩ => ?_⟩, fun hvalid => (hcolor hvalid).2,
    fun hinvalid => ?_⟩
  · obtain ⟨hending, n, hn, -⟩ := hcolor hvalid
    exact ⟨hending, n, _, hn⟩
  · rw [hflag, hfinish]
    rcases output_of_completed hp hending with ⟨-, hnone⟩ | hlast
    · exact absurd hn (hnone n tag)
    · exact isValid_of_ne_invalid hlast.ne_invalid
  · rw [hflag] at hinvalid
    by_contra hne
    rw [isValid_of_ne_invalid hne] at hinvalid
    cases hinvalid

/-! ## One vertex -/

/-- A vertex does not count exactly if its run is cut off or comes to a discard. -/
theorem execute_vertex_isValid (hp : p.WellFormed) (hrun : p.isRunnable = true) (v : Vertex)
    (r : Registers) :
    let ending := (p.run (⟨v, r, #[]⟩ : State Vertex)).ending
    (p.execute v r).isValid = false ↔
      (∃ target, ending = .faulted (.badJumpTarget target p.length)) ∨
        ending = .faulted (.stepLimit p.stepLimit) ∨ ending = .discarded := by
  intro ending
  have hflag : (p.execute v r).isValid = (ending == .completed) := by
    rw [execute_eq_finish hrun]
    exact Bool.and_true _
  rw [hflag]
  have hfinishes := run_finishes hp (⟨v, r, #[]⟩ : State Vertex)
  generalize hdone : p.run (⟨v, r, #[]⟩ : State Vertex) = done at hfinishes
  have hending : ending = done.ending := congrArg Run.ending hdone
  rw [hending]
  cases hfinishes with
  | completed _ _ _ => simp
  | discarded _ _ _ _ => simp
  | @jumpedOut _ d target _ _ _ _ _ => simp [Run.fault]
  | cutOff _ _ => simp [Run.fault]

/-- A vertex program has no discard to come to. -/
theorem not_discarded (hp : p.WellFormed) (hstage : p.stage = .vertex) {ι : Type} [Invocation ι]
    (s : State ι) : (p.run s).ending ≠ .discarded := by
  intro hending
  have hfinishes := run_finishes hp s
  generalize p.run s = done at hfinishes hending
  cases hfinishes with
  | completed _ _ _ | jumpedOut _ _ _ _ _ | cutOff _ _ => cases hending
  | discarded _ _ hins _ =>
    have hfragment : p.stage = .fragment := hp.fits _ (Array.mem_of_getElem? hins)
    rw [hstage] at hfragment
    cases hfragment

end Program

/-! ## A batch -/

/-- No fragment of a batch has a tag. -/
def Untagged (batch : Array Fragment) : Prop := ∀ f ∈ batch, f.output = .invalid

namespace Pass

/-- How a pass over fragments without tags stands when those at some indices have run: it has
counted those that have a tag now, and the others have none. -/
structure Counted (seen : List Nat) (pass : Pass Fragment) : Prop where
  valid : pass.valid = pass.items.countP Fragment.isValid
  untagged : ∀ i ∉ seen, ∀ f, pass.items[i]? = some f → f.output = .invalid

theorem counted_start (q : Program) {batch : Array Fragment} (h : Untagged batch) :
    Counted [] (start q batch) where
  valid := by
    refine (Array.countP_eq_zero.2 fun f hf => ?_).symm
    simp [Fragment.isValid, h f hf]
  untagged i _ f hf := h f (Array.mem_of_getElem? hf)

variable {seen : List Nat} {pass : Pass Fragment}

/-- Another fragment runs, on whatever registers and with the program as it is by then. -/
theorem Counted.runItem (h : Counted seen pass) {i : Nat} (hi : i ∉ seen) (r : Registers) :
    Counted (seen ++ [i]) (runItem (pass, r) i).1 := by
  unfold Pass.runItem
  dsimp only
  split
  · exact ⟨h.valid, fun j hj => h.untagged j fun hmem => hj (List.mem_append_left _ hmem)⟩
  · next f hf =>
    have huntagged : f.output = .invalid := h.untagged i hi f hf
    obtain ⟨hlt, hget⟩ := Array.getElem?_eq_some_iff.1 hf
    have hflag := pass.program.execute_isValid huntagged r
    have hbefore : f.isValid = false := by simp [Fragment.isValid, huntagged]
    constructor
    · have hset : pass.items.setIfInBounds i (pass.program.execute f r).invocation =
          pass.items.set i (pass.program.execute f r).invocation hlt := by
        rw [Array.setIfInBounds, dif_pos hlt]
      simp only [hset, Array.countP_set hlt, hget, hbefore, hflag, h.valid]
      split <;> simp
    · intro j hj f' hf'
      simp only [List.mem_append, List.mem_singleton, not_or] at hj
      rw [Array.getElem?_setIfInBounds_ne (Ne.symm hj.2)] at hf'
      exact h.untagged j hj.1 f' hf'

/-- Fragments run one after the other, each on some registers. -/
theorem Counted.runEach (order : List (Nat × Registers)) (h : Counted seen pass)
    (hdistinct : (seen ++ order.map Prod.fst).Nodup) :
    Counted (seen ++ order.map Prod.fst)
      (order.foldl (fun pass visit => (Pass.runItem (pass, visit.2) visit.1).1) pass) := by
  induction order generalizing seen pass with
  | nil => simpa using h
  | cons visit order ih =>
    rw [List.map_cons, List.append_cons] at hdistinct ⊢
    have hvisit : visit.1 ∉ seen := fun hmem =>
      (List.nodup_append.1 (List.nodup_append.1 hdistinct).1).2.2 visit.1 hmem visit.1
        (List.mem_singleton_self _) rfl
    exact ih (h.runItem hvisit visit.2) hdistinct

end Pass

/-- A pass counts the fragments that have a tag afterwards, in whatever order its threads
take the spans. -/
theorem Program.dispatchBy_counted (q : Program) (storage : ThreadStorage) (threads : Nat)
    {size : Nat} {schedule : List (Span × Nat)} {batch : Array Fragment} (h : Untagged batch)
    (hschedule : (schedule.map Prod.fst).Perm (spans batch.size size)) :
    let pass := (q.dispatchBy storage threads schedule batch).pass
    pass.valid = pass.items.countP Fragment.isValid := by
  have hdistinct : (Pass.visits schedule).Nodup :=
    (Pass.visits_perm hschedule).nodup_iff.2 List.nodup_range
  let ready := (List.range threads).foldl (fun st t => st.ready q.registers t) storage
  have hready : ready.Holds (fun _ => True) fun _ => True := fun _ _ _ _ => trivial
  refine (Pass.runSchedule_visits (I := Pass.Counted) (Q := fun _ => True) ?_
    (Pass.counted_start q h) trivial hready fun _ _ => trivial).1.valid
  intro seen i pass r horder hpass _
  have hseen := hdistinct.sublist horder.sublist
  refine ⟨hpass.runItem (fun hmem => ?_) r, trivial⟩
  exact (List.nodup_append.1 hseen).2.2 i hmem i (List.mem_singleton_self i) rfl

theorem Device.pass_counted (d : Device) (id : Nat) (e : DeviceEntry) {batch : Array Fragment}
    (h : Untagged batch) :
    (d.pass id e batch).count = (d.pass id e batch).items.countP Fragment.isValid :=
  e.program.dispatchBy_counted e.storage (max d.config.threads 1) h
    (Pass.lastFirst_perm batch.size d.config.span 0)

theorem Untagged.countP_eq_zero {batch : Array Fragment} (h : Untagged batch) :
    batch.countP Fragment.isValid = 0 :=
  Array.countP_eq_zero.2 fun f hf => by simp [Fragment.isValid, h f hf]

theorem Device.draw_counted (d : Device) (id : Nat) {batch : Array Fragment}
    (h : Untagged batch) :
    (d.draw id batch).count = (d.draw id batch).items.countP Fragment.isValid := by
  by_cases hdraws : d.Draws id Fragment
  · obtain ⟨e, -, hdraw⟩ := hdraws.draw_eq batch
    rw [hdraw]
    exact d.pass_counted id e h
  · obtain ⟨events, hdraw, -⟩ := d.draw_of_not_draws hdraws batch
    rw [hdraw]
    exact h.countP_eq_zero.symm

theorem Device.drawParallel_counted (d : Device) (id : Nat) {batch : Array Fragment}
    (h : Untagged batch) :
    (d.drawParallel id batch).count =
      (d.drawParallel id batch).items.countP Fragment.isValid := by
  unfold Device.drawParallel
  split
  · exact h.countP_eq_zero.symm
  · next e _ =>
    split
    · exact d.pass_counted id e h
    · exact h.countP_eq_zero.symm

/-! ## What the flag and the count mean -/

/-- The validity flag means what the rasterizer reads. A run ends in just one of the ways that
`Program.Finishes` lists. A fragment that comes without a tag counts exactly if the run came
to the end of the program and some operation on the way stored a color; it then has the
tag of the last such color, and no tag otherwise. A vertex does not count exactly if a jump
out of the program or the limit cut its run off or the run came to a discard, which no vertex
program has. The count of a batch of fragments without tags is the number of those that have
one afterwards: whatever registers they run on one after the other, however a pass over them
is scheduled, and in both kinds of draw, if the program becomes invalid on the way or not. -/
theorem validity_read {p : Program} (hp : p.Reachable) (hrun : p.isRunnable = true) :
    (∀ {ι : Type} [Invocation ι] (s : State ι) (done : Run ι),
      p.Finishes p.stepLimit ⟨0, Nesting.start, s⟩ done ↔ p.run s = done) ∧
    (∀ (f : Fragment) (r : Registers), f.output = .invalid →
      let s : State Fragment := ⟨f, r, #[]⟩
      let done := p.execute f r
      (done.isValid = true ↔ (p.run s).ending = .completed ∧ ∃ n tag, p.ColorsAt s n tag) ∧
        (done.isValid = true → p.LastColor s done.invocation.output) ∧
        (done.isValid = false → done.invocation.output = .invalid)) ∧
    (∀ (v : Vertex) (r : Registers),
      let ending := (p.run (⟨v, r, #[]⟩ : State Vertex)).ending
      ((p.execute v r).isValid = false ↔
        (∃ target, ending = .faulted (.badJumpTarget target p.length)) ∨
          ending = .faulted (.stepLimit p.stepLimit) ∨ ending = .discarded) ∧
        (p.stage = .vertex → ending ≠ .discarded)) ∧
    (∀ batch : Array Fragment, Untagged batch →
      (∀ (q : Program) (order : List (Nat × Registers)), (order.map Prod.fst).Nodup →
        let pass := order.foldl (fun pass visit => (Pass.runItem (pass, visit.2) visit.1).1)
          (Pass.start q batch)
        pass.valid = pass.items.countP Fragment.isValid) ∧
      (∀ (q : Program) (storage : ThreadStorage) (threads size : Nat)
        (schedule : List (Span × Nat)),
        (schedule.map Prod.fst).Perm (spans batch.size size) →
        let pass := (q.dispatchBy storage threads schedule batch).pass
        pass.valid = pass.items.countP Fragment.isValid) ∧
      ∀ (d : Device) (id : Nat),
        (d.draw id batch).count = (d.draw id batch).items.countP Fragment.isValid ∧
          (d.drawParallel id batch).count =
            (d.drawParallel id batch).items.countP Fragment.isValid) := by
  have hwell := hp.wellFormed
  refine ⟨fun s done => ⟨fun h => ?_, fun h => h ▸ Program.run_finishes hwell s⟩,
    fun f r hf => Program.execute_color hwell hrun hf r,
    fun v r => ⟨Program.execute_vertex_isValid hwell hrun v r,
      fun hstage => Program.not_discarded hwell hstage _⟩,
    fun batch hbatch => ⟨fun q order horder => ?_,
      fun q storage threads size schedule => q.dispatchBy_counted storage threads hbatch,
      fun d id => ⟨d.draw_counted id hbatch, d.drawParallel_counted id hbatch⟩⟩⟩
  · rw [Program.run_eq_runBranching hwell, h.eq]
  · exact ((Pass.counted_start q hbatch).runEach order (by simpa using horder)).valid

/-- The first of three executions shows the count as a color, the third makes the program
invalid. -/
theorem validity_read_tripping :
    let f := Fragment.ofPosition 0 0
    let done := tripping.execute f tripping.registers
    let drawn := ((Device.ofConfig ⟨1, 2⟩).create tripping).device.draw 0 #[f, f, f]
    tripping.Reachable ∧ tripping.isRunnable = true ∧ done.isValid = true ∧
      tripping.LastColor ⟨f, tripping.registers, #[]⟩ .rgb ∧ drawn.count = 2 ∧
      drawn.items.countP Fragment.isValid = 2 := by
  intro f done drawn
  have hreach : tripping.Reachable := (Program.Reachable.new .fragment).foldl _
  have hrun : tripping.isRunnable = true := by decide +kernel
  have hvalid : done.isValid = true := by decide +kernel
  have houtput : done.invocation.output = .rgb := by decide +kernel
  have hcount : drawn.count = 2 := by decide +kernel
  obtain ⟨-, hfragments, -, hbatches⟩ := validity_read hreach hrun
  obtain ⟨-, hlast, -⟩ := hfragments f tripping.registers rfl
  obtain ⟨-, -, hdraws⟩ := hbatches #[f, f, f] (by simp [Untagged, f, Fragment.ofPosition])
  refine ⟨hreach, hrun, hvalid, houtput ▸ hlast hvalid, hcount, ?_⟩
  rw [← (hdraws ((Device.ofConfig ⟨1, 2⟩).create tripping).device 0).1]
  exact hcount

/-- A fragment program that gives everything up. -/
def discarding : Program :=
  [.push "discard" [], .seal].foldl Program.edit (Program.new .fragment)

/-- Run for a vertex, it is not cut off, and yet the vertex does not count. -/
theorem vertex_discarded :
    let v := Vertex.ofPosition Vec4.zero
    let run := discarding.run (⟨v, discarding.registers, #[]⟩ : State Vertex)
    discarding.isRunnable = true ∧ (discarding.execute v discarding.registers).isValid = false ∧
      ∀ reason, run.ending ≠ .faulted reason := by
  intro v run
  have hending : run.ending = .discarded := by decide +kernel
  refine ⟨by decide +kernel, by decide +kernel, fun reason hfaulted => ?_⟩
  rw [hending] at hfaulted
  cases hfaulted

end Shading
