import Shading.Proofs.Sequential

/- Uniforms while programs run. Uniforms and variables are slots of one table, and a
   condition names a slot of either kind where other instructions have their destination;
   but a condition only reads it, and the builder takes no uniform for a destination
   (`WellFormed.place_ne`). So a uniform holds its value throughout a run, and so does a
   variable that no instruction stores in (`execute_constant`). In a pass, whichever
   threads take its spans and however often, each snapshot shows the uniforms as the
   canonical registers have them (`Pass.runSchedule_constant`). -/
namespace Shading

namespace Program

variable {p q : Program} {v : Nat}

/-- A slot is a uniform. -/
def IsUniform (p : Program) (v : Nat) : Prop :=
  ∃ d, p.declarations[v]? = some d ∧ d.isUniform = true

/-- No instruction has a slot as its destination. What a condition has on its left side is
none. -/
def NeverStored (p : Program) (v : Nat) : Prop :=
  ∀ ins ∈ p.instructions, ∀ dst, ins.destination? = some dst → dst.place ≠ .slot v

theorem IsUniform.not_writable (h : p.IsUniform v) : ¬(Place.slot v).Writable p := by
  obtain ⟨d, hd, huniform⟩ := h
  rintro ⟨d', hd', hvariable⟩
  obtain rfl := Option.some.inj (hd.symm.trans hd')
  rw [huniform] at hvariable
  cases hvariable

theorem IsUniform.neverStored (hp : p.WellFormed) (h : p.IsUniform v) : p.NeverStored v :=
  hp.place_ne h.not_writable

theorem NeverStored.atMostMarked (h : p.NeverStored v) (hq : p.AtMostMarked q) :
    q.NeverStored v := by
  rcases hq with rfl | rfl <;> exact h

end Program

variable {ι : Type} [Invocation ι] {p : Program} {v : Nat}

/-- A thread that works on for a pass keeps what its snapshot holds in a slot that is never
stored in. -/
theorem Pass.runSchedule_constant (h : p.NeverStored v) {storage : ThreadStorage}
    {busy : Nat → Prop} (hstorage : storage.Holds busy fun r => r.slot? v = p.registers.slot? v)
    {schedule : List (Span × Nat)} (hbusy : ∀ entry ∈ schedule, busy entry.2) (batch : Array ι) :
    (runSchedule p.registers schedule (start p batch, storage)).2.Holds busy
      fun r => r.slot? v = p.registers.slot? v := by
  refine (runSchedule_visits (I := fun _ pass => p.AtMostMarked pass.program)
    (Q := fun r => r.slot? v = p.registers.slot? v) ?_ (.inl rfl) rfl hstorage hbusy).2
  intro seen i pass r _ hpass hr
  unfold Pass.runItem
  dsimp only
  split
  · exact ⟨hpass, hr⟩
  · next x _ =>
    exact ⟨hpass.trans (pass.program.execute_atMostMarked x r),
      (Program.execute_slot (h.atMostMarked hpass) x r).trans hr⟩

/-- Uniforms are constant, and so are the variables that no instruction stores in. An
execution on any register file leaves such a slot as it was, type included, however it ends,
and so does every fetch on the way. Throughout a pass the snapshots of its threads hold in
it what the canonical registers hold. -/
theorem execute_constant (hp : p.Reachable) (hv : p.IsUniform v ∨ p.NeverStored v) :
    (∀ (i : ι) (r : Registers), (p.execute i r).registers.slot? v = r.slot? v) ∧
    (∀ s : State ι, (p.run s).state.registers.slot? v = s.registers.slot? v) ∧
    (∀ (n : Nat) (c d : Cursor ι), p.Reaches n c d →
      d.state.registers.slot? v = c.state.registers.slot? v) ∧
    (∀ (storage : ThreadStorage) (threads : Nat) (schedule : List (Span × Nat))
      (batch : Array ι), (∀ entry ∈ schedule, entry.2 < threads) →
      let ready := (List.range threads).foldl (fun st t => st.ready p.registers t) storage
      (Pass.runSchedule p.registers schedule (Pass.start p batch, ready)).2.Holds (· < threads)
        fun r => r.slot? v = p.registers.slot? v) := by
  have h : p.NeverStored v := hv.elim (Program.IsUniform.neverStored hp.wellFormed) id
  refine ⟨Program.execute_slot h, fun s => ?_, fun n c d hreach => ?_,
    fun storage threads schedule batch hthreads => ?_⟩
  · exact (Program.keeps_slot h).run (s := s) rfl
  · exact (Program.keeps_slot h).reaches hreach rfl
  · have hbefore : storage.Holds (fun _ => False) fun r => r.slot? v = p.registers.slot? v :=
      fun _ h => h.elim
    have hready := hbefore.readied rfl (List.range threads)
    exact Pass.runSchedule_constant h
      (fun thread hthread => hready thread (.inr (List.mem_range.2 hthread))) hthreads batch

/-- A program that has a uniform on the left side of a condition, and copies it. -/
def gated : Program :=
  [.push "if" [.name ".level", .name ">", .literal (.int 0)],
    .push "=" [.name "n", .name ".level"],
    .push "end" [],
    .seal].foldl Program.edit (Program.new .fragment)

/-- On a file that holds an integer in the uniform, the variable becomes it. -/
theorem execute_constant_gated :
    let r : Registers := ⟨#[.int 7, .float 0], #[]⟩
    let done := gated.execute (Fragment.ofPosition 0 0) r
    gated.Reachable ∧ gated.IsUniform 0 ∧ done.isValid = false ∧
      done.registers.slot? 1 = some (.int 7) ∧ done.registers.slot? 0 = some (.int 7) := by
  intro r done
  have hreach : gated.Reachable := (Program.Reachable.new .fragment).foldl _
  have huniform : gated.IsUniform 0 := ⟨⟨".level", true⟩, by decide +kernel, rfl⟩
  have hkept : done.registers.slot? 0 = r.slot? 0 :=
    (execute_constant hreach (.inl huniform)).1 (Fragment.ofPosition 0 0) r
  exact ⟨hreach, huniform, by decide +kernel, by decide +kernel, hkept⟩

end Shading
