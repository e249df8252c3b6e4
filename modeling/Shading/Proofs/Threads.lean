import Shading.Proofs.Isolation

/- Threads on one storage. They are readied, cleared, and run programs on their snapshots
   in whatever order they come, with a thread cleared twice or run without having been
   readied, and all of them draw from one pool, so that the snapshot of one thread is
   soon that of another. A call looks at the slot of its own thread only
   (`ThreadStorage.span_fst`, `Program.answer_slot`), and at nothing of what it takes
   out of the pool, which is overwritten; it leaves the slots of the others alone
   (`Program.answer_other`). So a thread cannot tell whether there are others
   (`threads_apart`). -/
namespace Shading

/-! ## Calls -/

/-- What a thread asks of a storage. -/
inductive Call (α : Type) where
  /-- To be readied for a pass. -/
  | ready
  /-- To be cleared after one. -/
  | clear
  /-- To do some work on its snapshot. -/
  | span (work : Registers → α × Registers)
  /-- To run a program for a fragment on its snapshot. -/
  | fragment (f : Fragment)
  /-- To run a program for a vertex on its snapshot. -/
  | vertex (v : Vertex)

/-- What a call gives back. -/
inductive Reply (α : Type) where
  | done
  | worked (a : α)
  | fragment (x : Execution Fragment)
  | vertex (x : Execution Vertex)

/-- The program after a call, which a run may have marked invalid. -/
def Reply.programAfter {α : Type} (p : Program) : Reply α → Program
  | .done | .worked _ => p
  | .fragment x => x.program
  | .vertex x => x.program

/-- What a thread can tell of a call: what it gave back, and what is in the slot of the
thread afterwards, if there is a slot. -/
structure Answer (α : Type) where
  thread : Nat
  reply : Reply α
  slot : Option (Option Registers)

variable {α : Type}

namespace Call

/-- What a call of a thread that works on some register file gives back. -/
def replyOn (p : Program) (r : Registers) : Call α → Reply α
  | .ready | .clear => .done
  | .span work => .worked (work r).1
  | .fragment f => .fragment (p.execute f r)
  | .vertex v => .vertex (p.execute v r)

/-- What it leaves in the slot of the thread. -/
def leaves (p : Program) (r : Registers) : Call α → Option Registers
  | .ready => some p.registers
  | .clear => none
  | .span work => some (work r).2
  | .fragment f => some (p.execute f r).registers
  | .vertex v => some (p.execute v r).registers

/-- What a call comes to for a thread without a slot: it works on a fresh copy of the canonical
registers, and nothing of that stays. -/
def alone (p : Program) (thread : Nat) (c : Call α) : Answer α :=
  ⟨thread, c.replyOn p p.registers, none⟩

end Call

namespace Program

/-- To run a program for an invocation, as work on a register file. -/
def workFor {ι : Type} [Invocation ι] (p : Program) (i : ι) (r : Registers) :
    Execution ι × Registers :=
  let done := p.execute i r
  (done, done.registers)

/-- Serves a call of a thread. -/
def answer (p : Program) (st : ThreadStorage) (thread : Nat) : Call α → Reply α × ThreadStorage
  | .ready => (.done, st.ready p.registers thread)
  | .clear => (.done, st.clear thread)
  | .span work => (st.span p.registers thread work).map .worked id
  | .fragment f => (p.executeOn st thread f).map .fragment id
  | .vertex v => (p.executeOn st thread v).map .vertex id

/-- Serves the calls of threads as they come. -/
def answers (p : Program) (st : ThreadStorage) : List (Nat × Call α) → List (Answer α)
  | [] => []
  | (thread, call) :: rest =>
    let served := p.answer st thread call
    ⟨thread, served.1, served.2.slots[thread]?⟩ ::
      (served.1.programAfter p).answers served.2 rest

variable (p : Program) (st : ThreadStorage) (thread : Nat) (call : Call α)

theorem answer_reply :
    (p.answer st thread call).1 = call.replyOn p (st.fileOf p.registers thread) := by
  cases call with
  | ready | clear => rfl
  | span work => exact congrArg Reply.worked (st.span_fst p.registers thread work)
  | fragment f => exact congrArg Reply.fragment (st.span_fst p.registers thread (p.workFor f))
  | vertex v => exact congrArg Reply.vertex (st.span_fst p.registers thread (p.workFor v))

theorem answer_slot : (p.answer st thread call).2.slots[thread]? =
    st.slots[thread]?.map fun _ => call.leaves p (st.fileOf p.registers thread) := by
  cases call with
  | ready => exact st.ready_slot p.registers thread
  | clear => exact st.clear_slot thread
  | span work => exact st.span_slot p.registers thread work
  | fragment f => exact st.span_slot p.registers thread (p.workFor f)
  | vertex v => exact st.span_slot p.registers thread (p.workFor v)

variable {thread} in
theorem answer_other {other : Nat} (h : thread ≠ other) :
    (p.answer st thread call).2.slots[other]? = st.slots[other]? := by
  cases call with
  | ready => exact st.ready_other p.registers h
  | clear => exact st.clear_other h
  | span work => exact st.span_other p.registers h work
  | fragment f => exact st.span_other p.registers h (p.workFor f)
  | vertex v => exact st.span_other p.registers h (p.workFor v)

/-- A call marks its program at most. -/
theorem answer_atMostMarked : p.AtMostMarked ((p.answer st thread call).1.programAfter p) := by
  rw [answer_reply]
  cases call with
  | ready | clear | span _ => exact .inl rfl
  | fragment f => exact p.execute_atMostMarked f _
  | vertex v => exact p.execute_atMostMarked v _

end Program

/-! ## Many threads -/

/-- None of some answers changes the flag of a program. -/
def Program.Steady (p : Program) (answers : List (Answer α)) : Prop :=
  ∀ a ∈ answers, (a.reply.programAfter p).isInvalid = p.isInvalid

instance (p : Program) (answers : List (Answer α)) : Decidable (p.Steady answers) :=
  inferInstanceAs (Decidable (∀ a ∈ answers, _))

namespace Program

variable {p : Program} {st : ThreadStorage}

section

variable {thread : Nat} {call : Call α} {rest : List (Nat × Call α)}
  (h : p.Steady (p.answers st ((thread, call) :: rest)))

include h

/-- While the flag stays as it is, so does the program. -/
theorem Steady.programAfter_eq : (p.answer st thread call).1.programAfter p = p := by
  have hflag : ((p.answer st thread call).1.programAfter p).isInvalid = p.isInvalid :=
    h _ List.mem_cons_self
  rcases p.answer_atMostMarked st thread call with hp | hp
  · exact hp
  · rw [hp] at hflag
    rw [hp]
    exact congrArg (fun b => { p with isInvalid := b }) hflag

theorem Steady.answers_cons : p.answers st ((thread, call) :: rest) =
    ⟨thread, (p.answer st thread call).1, (p.answer st thread call).2.slots[thread]?⟩ ::
      p.answers (p.answer st thread call).2 rest := by
  rw [answers, h.programAfter_eq]

theorem Steady.tail : p.Steady (p.answers (p.answer st thread call).2 rest) :=
  fun a ha => h a (h.answers_cons ▸ List.mem_cons_of_mem _ ha)

end

/-- Two storages that agree in the slot of a thread answer its calls alike, one while other
threads call in between and one while they do not. -/
theorem Steady.answers_filter (thread : Nat) : ∀ (calls : List (Nat × Call α))
    {st st' : ThreadStorage}, p.Steady (p.answers st calls) →
    st.slots[thread]? = st'.slots[thread]? →
    (p.answers st calls).filter (fun a => a.thread == thread) =
      p.answers st' (calls.filter fun c => c.1 == thread) := by
  intro calls
  induction calls with
  | nil => exact fun _ _ => rfl
  | cons entry rest ih =>
    obtain ⟨caller, call⟩ := entry
    intro st st' hsteady hslot
    have hcons := hsteady.answers_cons
    have hrest := hsteady.tail
    by_cases hcaller : caller = thread
    · subst hcaller
      have hfile : st.fileOf p.registers caller = st'.fileOf p.registers caller := by
        rw [ThreadStorage.fileOf, ThreadStorage.fileOf, hslot]
      have hreply : (p.answer st caller call).1 = (p.answer st' caller call).1 := by
        rw [answer_reply, answer_reply, hfile]
      have hnext : (p.answer st caller call).2.slots[caller]? =
          (p.answer st' caller call).2.slots[caller]? := by
        rw [answer_slot, answer_slot, hfile, hslot]
      have hsame := hsteady.programAfter_eq
      simp only [hcons, List.filter_cons, beq_self_eq_true, if_true, ih hrest hnext]
      simp only [answers, ← hreply, ← hnext, hsame]
    -- another thread calls, and the slot stays as it is
    · have hnext : (p.answer st caller call).2.slots[thread]? = st'.slots[thread]? :=
        (p.answer_other st call hcaller).trans hslot
      have hne : (caller == thread) = false := beq_false_of_ne hcaller
      simp only [hcons, List.filter_cons, hne, Bool.false_eq_true, if_false]
      exact ih hrest hnext

/-- A call of a thread without a slot is answered as on a fresh copy of the canonical registers,
whatever was called before. -/
theorem Steady.answers_getElem? : ∀ (calls : List (Nat × Call α)) {st : ThreadStorage},
    p.Steady (p.answers st calls) → ∀ {i thread : Nat} {call : Call α},
    calls[i]? = some (thread, call) → st.slots[thread]? = none →
    (p.answers st calls)[i]? = some (call.alone p thread) := by
  intro calls
  induction calls with
  | nil => intro _ _ i _ _ h; simp at h
  | cons entry rest ih =>
    obtain ⟨caller, own⟩ := entry
    intro st hsteady i thread call hi hslot
    rw [hsteady.answers_cons]
    cases i with
    | zero =>
      obtain ⟨rfl, rfl⟩ : caller = thread ∧ own = call := by simpa using hi
      have hfile : st.fileOf p.registers caller = p.registers := by
        rw [ThreadStorage.fileOf, hslot]
        rfl
      rw [List.getElem?_cons_zero, answer_reply, answer_slot, hfile, hslot]
      rfl
    | succ i =>
      have hnext : (p.answer st caller own).2.slots[thread]? = none := by
        by_cases hcaller : caller = thread
        · subst hcaller
          rw [answer_slot, hslot]
          rfl
        · rw [p.answer_other st own hcaller, hslot]
      exact ih hsteady.tail hi hnext

end Program

/-- Threads do not interfere on a storage. However their calls come between each other, each
thread is given back, and left in its slot, what it would be given back and left if nobody
else had called; and a call of a thread without a slot always comes to what it comes to on a
fresh copy of the canonical registers, of which nothing stays. What the storage held before
is of no account. The calls share the program, so its flag has to stay as it is. -/
theorem threads_apart (p : Program) (st : ThreadStorage) (calls : List (Nat × Call α))
    (hsteady : p.Steady (p.answers st calls)) :
    (∀ thread, (p.answers st calls).filter (fun a => a.thread == thread) =
      p.answers st (calls.filter fun c => c.1 == thread)) ∧
    (∀ (i thread : Nat) (call : Call α), calls[i]? = some (thread, call) →
      st.threads ≤ thread → (p.answers st calls)[i]? = some (call.alone p thread)) := by
  refine ⟨fun thread => hsteady.answers_filter thread calls rfl, fun i thread call hi h => ?_⟩
  exact hsteady.answers_getElem? calls hi (Array.getElem?_eq_none h)

/-- A program that gets brighter with each invocation on the same registers. -/
def brightening : Program :=
  [.push "+=" [.name "n", .literal (.float 0.25)],
    .push "=" [.name "fragColor", .name "n"],
    .seal].foldl Program.edit (Program.new .fragment)

/-- How bright a fragment is after a call. -/
def Answer.brightness? (a : Answer α) : Option Float32 :=
  match a.reply with
  | .fragment x => some x.invocation.color.x
  | _ => none

/-- Two threads run a program in turn, and a third that has no slot once. The second clears its
slot half way, so the snapshot that the third gets, and then the second again, is a used one. -/
theorem threads_apart_brightening :
    let f := Fragment.ofPosition 0 0
    let st : ThreadStorage := ⟨⟨[⟨#[.bool true], #[]⟩]⟩, #[none, none]⟩
    let calls : List (Nat × Call Unit) :=
      [(0, .fragment f), (1, .fragment f), (1, .fragment f), (1, .clear), (7, .fragment f),
        (1, .fragment f), (0, .fragment f), (0, .clear)]
    let own : List (Nat × Call Unit) := [(0, .fragment f), (0, .fragment f), (0, .clear)]
    let answers := brightening.answers st calls
    brightening.Steady answers ∧
      answers.filter (fun a => a.thread == 0) = brightening.answers st own ∧
      answers[4]? = some (Call.alone brightening 7 (.fragment f)) ∧
      answers.map Answer.brightness? =
        [some 0.25, some 0.25, some 0.5, none, some 0.25, some 0.25, some 0.5, none] := by
  intro f st calls own answers
  have hsteady : brightening.Steady answers := by decide +kernel
  obtain ⟨hown, halone⟩ := threads_apart brightening st calls hsteady
  exact ⟨hsteady, hown 0, halone 4 7 (.fragment f) rfl (by decide), by decide +kernel⟩

end Shading
