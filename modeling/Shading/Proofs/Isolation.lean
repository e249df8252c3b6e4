import Shading.Device
import Shading.Proofs.Sequential

/- Devices over time. A host takes programs in and out, edits them and draws with them, in
   any order (`Device.Request`), and snapshots pile up in the storages meanwhile. A pass
   overwrites the snapshot that it takes, so nothing of that reaches a later draw: what is
   drawn is a function of the program as it is now, the length of the spans and the batch
   (`draw_isolated`). Nor does a draw touch anything but its items, except that a fault
   marks its own program invalid. -/
namespace Shading

/-! ## The slots after a pass -/

variable {ι : Type} [Invocation ι]

theorem Pass.threads_runSchedule (canonical : Registers) (schedule : List (Span × Nat))
    (state : Pass ι × ThreadStorage) :
    (runSchedule canonical schedule state).2.threads = state.2.threads := by
  induction schedule generalizing state with
  | nil => rfl
  | cons entry schedule ih => exact (ih _).trans (ThreadStorage.threads_span ..)

/-- A pass leaves a storage as many slots as it had. -/
theorem Program.threads_dispatchBy (p : Program) (storage : ThreadStorage) (threads : Nat)
    (schedule : List (Span × Nat)) (batch : Array ι) :
    (p.dispatchBy storage threads schedule batch).storage.threads = storage.threads := by
  have hready : ∀ l : List Nat,
      (l.foldl (fun st t => st.ready p.registers t) storage).threads = storage.threads :=
    fun l => List.foldlRecOn l _
      (motive := fun st : ThreadStorage => st.threads = storage.threads) rfl
      fun st h t _ => (st.threads_ready p.registers t).trans h
  have hclear : ∀ (l : List Nat) (st : ThreadStorage),
      (l.foldl ThreadStorage.clear st).threads = st.threads :=
    fun l st => List.foldlRecOn l _
      (motive := fun st' : ThreadStorage => st'.threads = st.threads) rfl
      fun st' h t _ => (st'.threads_clear t).trans h
  exact (hclear _ _).trans ((Pass.threads_runSchedule ..).trans (hready _))

namespace Device

/-- What a host asks of a device. -/
inductive Request
  | create (p : Program)
  | delete (id : Nat)
  | updateUniforms (id : Nat) (source : UniformSource)
  | edit (id : Nat) (e : Program.Edit)
  | drawFragments (id : Nat) (batch : Array Fragment)
  | drawVertices (id : Nat) (batch : Array Vertex)

/-- The device after a request, if it was met or refused. -/
def serve (d : Device) : Request → Device
  | .create p => (d.create p).device
  | .delete id => (d.delete id).2
  | .updateUniforms id source => (d.updateUniforms id source).2.1
  | .edit id e =>
    match d.program? id with
    | some p => d.setProgram id (p.edit e)
    | none => d
  | .drawFragments id batch => (d.draw id batch).device
  | .drawVertices id batch => (d.draw id batch).device

/-- The devices that come of a new one by requests. -/
inductive Reachable : Device → Prop
  | new (c : DeviceConfig) : Reachable (ofConfig c)
  | serve {d : Device} (h : Reachable d) (q : Request) : Reachable (d.serve q)

variable {d : Device} {id : Nat} {e : DeviceEntry}

theorem Reachable.foldl (h : d.Reachable) (requests : List Request) :
    (requests.foldl Device.serve d).Reachable := by
  induction requests generalizing d with
  | nil => exact h
  | cons q requests ih => exact ih (h.serve q)

/-! ## Entries -/

theorem lt_of_entry (h : d.entry? id = some e) : id < d.entries.size := by
  rcases Nat.lt_or_ge id d.entries.size with hlt | hge
  · exact hlt
  · unfold entry? at h
    rw [Array.getElem?_eq_none hge] at h
    cases h

theorem get_setEntry (h : d.entry? id = some e) (e' : DeviceEntry) (other : Nat) :
    Device.entry? (d.setEntry id e') other = if id = other then some e' else d.entry? other := by
  unfold entry? setEntry
  rw [Array.getElem?_setIfInBounds, if_pos (lt_of_entry h)]
  split <;> rfl

theorem program?_eq_some {p : Program} (h : d.program? id = some p) :
    ∃ e, d.entry? id = some e ∧ e.program = p :=
  Option.map_eq_some_iff.1 h

/-- Each program has a storage with a slot for the first thread. -/
def Equipped (d : Device) : Prop := ∀ id e, d.entry? id = some e → 0 < e.storage.threads

theorem Equipped.setEntry (h : d.Equipped) (he : d.entry? id = some e) {e' : DeviceEntry}
    (hthreads : e'.storage.threads = e.storage.threads) : (d.setEntry id e').Equipped := by
  intro other x hx
  rw [get_setEntry he] at hx
  split at hx
  · rw [← Option.some.inj hx, hthreads]
    exact h id e he
  · exact h other x hx

theorem Equipped.setProgram (h : d.Equipped) (id : Nat) (p : Program) :
    (d.setProgram id p).Equipped := by
  unfold Device.setProgram
  split
  · next e he => exact h.setEntry he rfl
  · exact h

theorem Equipped.create (h : d.Equipped) (p : Program) : (d.create p).device.Equipped := by
  unfold Device.create
  dsimp only
  split
  · intro id e he
    unfold entry? at he
    rw [Array.getElem?_push] at he
    split at he
    · rw [← Option.some.inj he]
      simp only [ThreadStorage.threads, ThreadStorage.ofThreads, Array.size_replicate]
      exact Nat.lt_of_lt_of_le Nat.zero_lt_one (Nat.le_max_right ..)
    · exact h id e he
  · exact h

theorem Equipped.delete (h : d.Equipped) (id : Nat) : (d.delete id).2.Equipped := by
  intro other e he
  unfold entry? Device.delete at he
  rw [Array.getElem?_setIfInBounds] at he
  split at he
  · split at he <;> cases he
  · exact h other e he

/-! ## Draws -/

/-- There is a program under the number, for the stage of some items, and it may run. -/
def Draws (d : Device) (id : Nat) (ι : Type) [Invocation ι] : Prop :=
  ∃ p, d.program? id = some p ∧ p.stage = Invocation.stage ι ∧ p.isRunnable = true

/-- Otherwise a draw does nothing, and reports at most why. -/
theorem draw_of_not_draws (h : ¬d.Draws id ι) (batch : Array ι) :
    ∃ events, d.draw id batch = ⟨0, batch, d, events⟩ ∧
      ∀ reason n, .markedInvalid reason n ∉ events := by
  unfold Device.draw
  split
  · exact ⟨_, rfl, by simp⟩
  · next e he =>
    split
    · exact ⟨_, rfl, by simp⟩
    · next hstage =>
      split
      · next hrun =>
        have hp : d.program? id = some e.program := by rw [program?, he]; rfl
        exact absurd ⟨e.program, hp, not_not.1 hstage, hrun⟩ h
      · exact ⟨_, rfl, by simp⟩

theorem Draws.draw_eq (h : d.Draws id ι) (batch : Array ι) :
    ∃ e, d.entry? id = some e ∧ d.draw id batch = d.pass id e batch := by
  obtain ⟨p, hp, hstage, hrun⟩ := h
  obtain ⟨e, he, rfl⟩ := program?_eq_some hp
  refine ⟨e, he, ?_⟩
  simp only [Device.draw, he, hstage, hrun, ne_eq, not_true_eq_false, if_false, if_true]

theorem program?_pass (he : d.entry? id = some e) (batch : Array ι) (other : Nat) :
    (d.pass id e batch).device.program? other =
      if id = other then
        some (e.program.dispatch e.storage d.config.threads d.config.span batch).pass.program
      else d.program? other := by
  rw [program?, Device.pass, get_setEntry he, program?]
  split <;> rfl

theorem config_draw (d : Device) (id : Nat) (batch : Array ι) :
    (d.draw id batch).device.config = d.config := by
  by_cases h : d.Draws id ι
  · obtain ⟨e, -, hdraw⟩ := h.draw_eq batch
    rw [hdraw]
    rfl
  · obtain ⟨events, hdraw, -⟩ := draw_of_not_draws h batch
    rw [hdraw]

theorem Equipped.draw (h : d.Equipped) (id : Nat) (batch : Array ι) :
    (d.draw id batch).device.Equipped := by
  by_cases hdraws : d.Draws id ι
  · obtain ⟨e, he, hdraw⟩ := hdraws.draw_eq batch
    rw [hdraw]
    exact h.setEntry he (Program.threads_dispatchBy ..)
  · obtain ⟨events, hdraw, -⟩ := draw_of_not_draws hdraws batch
    rwa [hdraw]

theorem Equipped.serve (h : d.Equipped) (q : Request) : (d.serve q).Equipped := by
  match q with
  | .create p => exact h.create p
  | .delete id => exact h.delete id
  | .updateUniforms id source =>
    simp only [Device.serve, Device.updateUniforms]
    split
    · exact h.setProgram id _
    · exact h
  | .edit id e =>
    simp only [Device.serve]
    split
    · exact h.setProgram id _
    · exact h
  | .drawFragments id batch => exact h.draw id batch
  | .drawVertices id batch => exact h.draw id batch

theorem Reachable.equipped (h : d.Reachable) : d.Equipped := by
  induction h with
  | new c =>
    intro id e he
    unfold entry? at he
    simp [ofConfig] at he
  | serve _ q ih => exact ih.serve q

/-- A draw marks at most its own program. -/
theorem program?_draw (d : Device) (id : Nat) (batch : Array ι) :
    (∀ other, other ≠ id → (d.draw id batch).device.program? other = d.program? other) ∧
      ∀ p, d.program? id = some p →
        ∃ q, (d.draw id batch).device.program? id = some q ∧ p.AtMostMarked q := by
  by_cases h : d.Draws id ι
  · obtain ⟨e, he, hdraw⟩ := h.draw_eq batch
    rw [hdraw]
    constructor
    · intro other hother
      rw [program?_pass he, if_neg hother.symm]
    · intro p hp
      obtain ⟨_, he', rfl⟩ := program?_eq_some hp
      obtain rfl := Option.some.inj (he.symm.trans he')
      exact ⟨_, by rw [program?_pass he, if_pos rfl], e.program.dispatch_atMostMarked ..⟩
  · obtain ⟨events, hdraw, -⟩ := draw_of_not_draws h batch
    rw [hdraw]
    exact ⟨fun _ _ => rfl, fun p hp => ⟨p, hp, .inl rfl⟩⟩

/-- What a draw on one thread comes to depends on the program, the length of the spans and the
batch. -/
theorem Equipped.draw_congr {d' : Device} (h : d.Equipped) (h' : d'.Equipped)
    (hone : d.config.threads = 1) (hone' : d'.config.threads = 1)
    (hspan : d'.config.span = d.config.span) {id' : Nat}
    (hprogram : d'.program? id' = d.program? id) (batch : Array ι) :
    (d'.draw id' batch).count = (d.draw id batch).count ∧
      (d'.draw id' batch).items = (d.draw id batch).items ∧
      (d'.draw id' batch).device.program? id' = (d.draw id batch).device.program? id := by
  have hsame : d'.Draws id' ι ↔ d.Draws id ι := by rw [Draws, Draws, hprogram]
  by_cases hdraws : d.Draws id ι
  · obtain ⟨e, he, hdraw⟩ := hdraws.draw_eq batch
    obtain ⟨e', he', hdraw'⟩ := (hsame.2 hdraws).draw_eq batch
    have heq : e'.program = e.program := by
      rw [program?, program?, he, he'] at hprogram
      exact Option.some.inj hprogram
    obtain ⟨hpass, -⟩ := e.program.dispatch_eq (h id e he) d.config.span batch
    obtain ⟨hpass', -⟩ := e.program.dispatch_eq (h' id' e' he') d.config.span batch
    rw [hdraw, hdraw', program?_pass he, program?_pass he', if_pos rfl, if_pos rfl]
    simp only [Device.pass, hone, hone', hspan, heq, hpass, hpass', and_self]
  · obtain ⟨events, hdraw, -⟩ := draw_of_not_draws hdraws batch
    obtain ⟨events', hdraw', -⟩ := draw_of_not_draws (mt hsame.1 hdraws) batch
    rw [hdraw, hdraw']
    exact ⟨rfl, rfl, hprogram⟩

/-- The draws of a device with one thread are kept apart. What a draw answers, and what it makes
of its program, depends on the program under the number, the length of the spans and the batch:
two devices that agree in these answer alike, whatever either of them was asked before. A draw
changes no other program, and its own only in that a fault marks it invalid. If there is no
program under the number, or it is of the other stage or may not run, the draw does nothing. So
the same draw again answers the same, unless it was the first that marked the program. -/
theorem draw_isolated (h : d.Reachable) (hone : d.config.threads = 1) (id : Nat)
    (batch : Array ι) :
    let drawn := d.draw id batch
    (∀ {d' : Device}, d'.Reachable → d'.config.threads = 1 → d'.config.span = d.config.span →
      ∀ id', d'.program? id' = d.program? id →
        (d'.draw id' batch).count = drawn.count ∧ (d'.draw id' batch).items = drawn.items ∧
          (d'.draw id' batch).device.program? id' = drawn.device.program? id) ∧
    (∀ other, other ≠ id → drawn.device.program? other = d.program? other) ∧
    (∀ p, d.program? id = some p →
      ∃ q, drawn.device.program? id = some q ∧ (q = p ∨ q = { p with isInvalid := true })) ∧
    ((∀ p, d.program? id = some p → p.stage = Invocation.stage ι → p.isRunnable = false) →
      drawn.count = 0 ∧ drawn.items = batch ∧ drawn.device = d) ∧
    ((∀ p q, d.program? id = some p → drawn.device.program? id = some q →
        q.isInvalid = p.isInvalid) →
      let again := drawn.device.draw id batch
      again.count = drawn.count ∧ again.items = drawn.items) := by
  intro drawn
  obtain ⟨hothers, hown⟩ := program?_draw d id batch
  refine ⟨fun h' hone' hspan id' hprogram =>
    h.equipped.draw_congr h'.equipped hone hone' hspan hprogram batch, hothers, hown, ?_, ?_⟩
  · intro hidle
    have hdraws : ¬d.Draws id ι := by
      rintro ⟨p, hp, hstage, hrun⟩
      rw [hidle p hp hstage] at hrun
      cases hrun
    obtain ⟨events, hdraw, -⟩ := draw_of_not_draws hdraws batch
    rw [show drawn = _ from hdraw]
    exact ⟨rfl, rfl, rfl⟩
  · intro hflag
    have hkept : drawn.device.program? id = d.program? id := by
      cases hp : d.program? id with
      | none =>
        have hidle : ¬d.Draws id ι := fun ⟨p, hp', _⟩ => by
          rw [hp] at hp'
          cases hp'
        obtain ⟨events, hdraw, -⟩ := draw_of_not_draws hidle batch
        rw [show drawn = _ from hdraw, hp]
      | some p =>
        obtain ⟨q, hq, rfl | rfl⟩ := hown p hp
        · exact hq
        -- a flag that was up before is not marked again
        · rw [hq, show true = p.isInvalid from hflag p _ hp hq]
    obtain ⟨hcount, hitems, -⟩ := h.equipped.draw_congr (h.equipped.draw id batch) hone
      (by rw [config_draw, hone]) (by rw [config_draw]) hkept batch
    exact ⟨hcount, hitems⟩

/-- A sealed program is taken in as it is. -/
theorem program?_create {p : Program} (h : p.isSealed = true) (d : Device) :
    (d.create p).device.program? d.entries.size = some p := by
  simp only [Device.create, h, if_true, Outcome.ok, program?, entry?, Array.getElem?_push_size]
  rfl

/-- A device on which another program has tripped and was deleted draws like a new one, and
again like the first time. -/
theorem draw_isolated_used :
    let batch := #[Fragment.ofPosition 0 0, Fragment.ofPosition 1 0, Fragment.ofPosition 2 0]
    let fresh := ofConfig ⟨1, 2⟩
    let used := [.create tripping, .drawFragments 0 batch, .delete 0].foldl Device.serve fresh
    let d := used.serve (.create tallying)
    let d' := fresh.serve (.create tallying)
    let id := used.entries.size
    let drawn := d.draw id batch
    d.config.threads = 1 ∧ id = 1 ∧ d'.program? 0 = d.program? id ∧
      drawn.count = 3 ∧ (d'.draw 0 batch).count = drawn.count ∧
      (d'.draw 0 batch).items = drawn.items ∧
      (drawn.device.draw id batch).count = drawn.count ∧
      (drawn.device.draw id batch).items = drawn.items := by
  intro batch fresh used d d' id drawn
  have hfresh : fresh.Reachable := .new _
  have hsealed : tallying.isSealed = true := by decide +kernel
  have hprogram : d'.program? 0 = d.program? id :=
    (program?_create hsealed fresh).trans (program?_create hsealed used).symm
  have hone : d.config.threads = 1 := by decide +kernel
  have hone' : d'.config.threads = 1 := by decide +kernel
  have hspan : d'.config.span = d.config.span := by decide +kernel
  have hvalid : (d.program? id).any Program.isInvalid = false := by decide +kernel
  have hvalid' : (drawn.device.program? id).any Program.isInvalid = false := by decide +kernel
  obtain ⟨hsame, -, -, -, hagain⟩ := draw_isolated ((hfresh.foldl _).serve _) hone id batch
  obtain ⟨hcount, hitems, -⟩ := hsame (hfresh.serve _) hone' hspan 0 hprogram
  obtain ⟨hcount', hitems'⟩ := hagain fun p q hp hq => by
    rw [hp] at hvalid
    rw [hq] at hvalid'
    exact hvalid'.trans hvalid.symm
  exact ⟨hone, by decide +kernel, hprogram, by decide +kernel, hcount, hitems, hcount', hitems'⟩

end Device

end Shading
