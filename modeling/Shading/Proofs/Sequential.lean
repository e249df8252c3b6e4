import Mathlib.Data.List.Forall2
import Shading.Proofs.Schedule
import Shading.Proofs.Slots

/- A pass on one thread. The thread has one register file for the whole pass, and works
   off the spans from the last to the first, each from front to back. As a list, the
   batch is cut into chunks (`chunks`), and the pass is a fold over them
   (`Program.lastChunkFirst`), whatever the storage held before
   (`dispatch_in_turn`). A program that counts in a variable or is made invalid
   half way is no exception: it goes from one invocation to the next along with the
   registers. -/
namespace Shading

/-! ## Chunks -/

/-- A list cut into consecutive chunks of a size, at least one; the last may be
shorter. -/
def chunks {α : Type} (size : Nat) : List α → List (List α)
  | [] => []
  | x :: rest => (x :: rest.take (size - 1)) :: chunks size (rest.drop (size - 1))
termination_by l => l.length

/-- The spans of consecutive chunks, of which the first starts at an index. -/
def layout {α : Type} (start : Nat) : List (List α) → List Span
  | [] => []
  | chunk :: rest => ⟨start, chunk.length⟩ :: layout (start + chunk.length) rest

/-- A span so much further on. -/
def Span.shift (k : Nat) (span : Span) : Span := ⟨k + span.start, span.size⟩

section

variable {α : Type}

theorem flatten_chunks (size : Nat) (l : List α) : (chunks size l).flatten = l := by
  induction l using chunks.induct size with
  | case1 => rw [chunks, List.flatten_nil]
  | case2 x rest ih =>
    rw [chunks, List.flatten_cons, ih, List.cons_append, List.take_append_drop]

theorem layout_shift (k : Nat) (cs : List (List α)) (start : Nat) :
    layout (k + start) cs = (layout start cs).map (Span.shift k) := by
  induction cs generalizing start with
  | nil => rfl
  | cons chunk cs ih => rw [layout, layout, List.map_cons, Nat.add_assoc, ih, Span.shift]

theorem spans_succ (n size : Nat) :
    spans (n + 1) size =
      ⟨0, min (max size 1) (n + 1)⟩ ::
        (spans (n + 1 - max size 1) size).map (Span.shift (max size 1)) := by
  have hs : 0 < max size 1 := by omega
  simp only [spans]
  generalize max size 1 = s at hs ⊢
  have hcount : (n + 1 + s - 1) / s = (n + 1 - s + s - 1) / s + 1 := by
    rcases Nat.le_total s (n + 1) with hle | hle
    · rw [← Nat.add_div_right _ hs]
      congr 1
      omega
    -- one span takes all
    · rw [Nat.sub_eq_zero_of_le hle, Nat.zero_add, Nat.div_eq_of_lt (Nat.sub_lt hs Nat.one_pos)]
      exact Nat.div_eq_of_lt_le (by omega) (by omega)
  rw [hcount, List.range_succ_eq_map, List.map_cons, List.map_map, List.map_map]
  congr 1
  · rw [Nat.zero_mul, Nat.sub_zero]
  · refine List.map_congr_left fun i _ => ?_
    simp only [Function.comp_apply, Span.shift, Nat.succ_mul, Span.mk.injEq]
    omega

/-- The spans of a batch are those of its chunks. -/
theorem spans_eq_layout (size : Nat) (l : List α) :
    spans l.length size = layout 0 (chunks size l) := by
  induction l using chunks.induct size with
  | case1 =>
    have hnone : (0 + max size 1 - 1) / max size 1 = 0 := Nat.div_eq_of_lt (by omega)
    rw [List.length_nil, spans, hnone, chunks]
    rfl
  | case2 x rest ih =>
    have hdrop : rest.length + 1 - max size 1 = (rest.drop (size - 1)).length := by
      rw [List.length_drop]
      omega
    have hchunk : (x :: rest.take (size - 1)).length = min (max size 1) (rest.length + 1) := by
      rw [List.length_cons, List.length_take]
      omega
    rw [List.length_cons, spans_succ, hdrop, ih, chunks, layout, hchunk, Nat.zero_add]
    congr 1
    rcases Nat.le_total (max size 1) (rest.length + 1) with hle | hle
    · rw [Nat.min_eq_left hle]
      exact (layout_shift ..).symm
    -- the first chunk is the last
    · have hnil : rest.drop (size - 1) = [] := List.drop_eq_nil_of_le (by omega)
      rw [hnil, chunks]
      rfl

end

/-! ## Invocations one after the other -/

variable {ι : Type} [Invocation ι]

/-- What some items come to: their executions, in the order of the items, and what is left
in the end. -/
structure Turn (ι : Type) where
  executions : List (Execution ι)
  program : Program
  registers : Registers
  events : Array Event

namespace Turn

/-- The items as they are afterwards. -/
def items (turn : Turn ι) : List ι := turn.executions.map Execution.invocation

/-- How many items count. -/
def valid (turn : Turn ι) : Nat := turn.executions.countP Execution.isValid

end Turn

namespace Program

/-- Runs a program for one item after the other, each on what the one before left. -/
def inTurn (p : Program) (r : Registers) : List ι → Turn ι
  | [] => ⟨[], p, r, #[]⟩
  | x :: rest =>
    let first := p.execute x r
    let later := first.program.inTurn first.registers rest
    ⟨first :: later.executions, later.program, later.registers, first.events ++ later.events⟩

/-- Runs a program for the items of the last chunk, then for those of the chunk before it,
down to the first. -/
def lastChunkFirst (p : Program) (r : Registers) : List (List ι) → Turn ι
  | [] => ⟨[], p, r, #[]⟩
  | chunk :: rest =>
    let later := p.lastChunkFirst r rest
    let own := later.program.inTurn later.registers chunk
    ⟨own.executions ++ later.executions, own.program, own.registers, later.events ++ own.events⟩

end Program

/-- Executions of some items, one of each in their order. -/
def Executed (items : List ι) (executions : List (Execution ι)) : Prop :=
  List.Forall₂ (fun x done => ∃ (p : Program) (r : Registers), done = p.execute x r)
    items executions

namespace Program

theorem inTurn_executed (items : List ι) (p : Program) (r : Registers) :
    Executed items (p.inTurn r items).executions := by
  induction items generalizing p r with
  | nil => exact .nil
  | cons x rest ih => exact .cons ⟨p, r, rfl⟩ (ih _ _)

theorem lastChunkFirst_executed (cs : List (List ι)) (p : Program) (r : Registers) :
    Executed cs.flatten (p.lastChunkFirst r cs).executions := by
  induction cs with
  | nil => exact .nil
  | cons chunk cs ih => exact List.rel_append (inTurn_executed ..) ih

end Program

/-! ## The pass as a fold -/

namespace ThreadStorage

variable {st : ThreadStorage} {thread : Nat} {r : Registers}

theorem span_eq {α : Type} (h : st.slots[thread]? = some (some r)) (canonical : Registers)
    (work : Registers → α × Registers) :
    st.span canonical thread work = ((work r).1, st.occupy thread (work r).2) := by
  rw [span, h]

end ThreadStorage

namespace Pass

/-- A pass after a turn of some of its items, which lie between others. -/
def after (pass : Pass ι) (before : List ι) (turn : Turn ι) (rest : List ι) : Pass ι :=
  ⟨turn.program, (before ++ turn.items ++ rest).toArray, pass.valid + turn.valid,
    pass.events ++ turn.events⟩

theorem runItem_eq {pass : Pass ι} {before rest : List ι} {x : ι}
    (h : pass.items.toList = before ++ x :: rest) (r : Registers) :
    let done := pass.program.execute x r
    runItem (pass, r) before.length =
      (⟨done.program, (before ++ done.invocation :: rest).toArray,
        if done.isValid then pass.valid + 1 else pass.valid, pass.events ++ done.events⟩,
        done.registers) := by
  have hitems : pass.items = (before ++ x :: rest).toArray := by rw [← h, Array.toArray_toList]
  have hx : pass.items[before.length]? = some x := by simp [hitems]
  simp only [runItem, hx]
  simp [hitems]

/-- The items of a chunk are run one after the other. -/
theorem runItems_inTurn (rest : List ι) (chunk : List ι) (pass : Pass ι) (before : List ι)
    (h : pass.items.toList = before ++ (chunk ++ rest)) (r : Registers) :
    let turn := pass.program.inTurn r chunk
    (List.range' before.length chunk.length).foldl runItem (pass, r) =
      (pass.after before turn rest, turn.registers) := by
  induction chunk generalizing pass before r with
  | nil =>
    have hitems : pass.items = (before ++ rest).toArray := by
      rw [← List.nil_append rest, ← h, Array.toArray_toList]
    simp [Program.inTurn, after, Turn.items, Turn.valid, ← hitems]
  | cons x chunk ih =>
    have hfirst := runItem_eq h r
    simp only at hfirst ⊢
    rw [List.length_cons, List.range'_succ, List.foldl_cons, hfirst]
    have hlater := ih (runItem (pass, r) before.length).1
      (before ++ [(pass.program.execute x r).invocation]) (by simp [hfirst])
      (pass.program.execute x r).registers
    rw [hfirst, List.length_append, List.length_singleton] at hlater
    rw [hlater]
    refine Prod.ext ?_ rfl
    simp only [Program.inTurn, after, Turn.items, Turn.valid, List.map_cons, List.countP_cons,
      mk.injEq]
    refine ⟨trivial, by simp, ?_, Array.append_assoc⟩
    split <;> omega

theorem runSchedule_append (canonical : Registers) (first rest : List (Span × Nat))
    (state : Pass ι × ThreadStorage) :
    runSchedule canonical (first ++ rest) state =
      runSchedule canonical rest (runSchedule canonical first state) := by
  induction first generalizing state with
  | nil => rfl
  | cons entry first ih => exact ih _

/-- A thread that has a snapshot works off the spans of some chunks, the last one first. -/
theorem runSchedule_layout (canonical : Registers) (cs : List (List ι)) (pass : Pass ι)
    (before : List ι) (h : pass.items.toList = before ++ cs.flatten) (storage : ThreadStorage)
    (r : Registers) (hslot : storage.slots[0]? = some (some r)) :
    let turn := pass.program.lastChunkFirst r cs
    let done := runSchedule canonical ((layout before.length cs).reverse.map fun span => (span, 0))
      (pass, storage)
    done.1 = pass.after before turn [] ∧ done.2.slots[0]? = some (some turn.registers) := by
  induction cs generalizing before with
  | nil =>
    have hitems : pass.items = before.toArray := by
      rw [← List.append_nil before, ← List.flatten_nil, ← h, Array.toArray_toList]
    simp [Program.lastChunkFirst, layout, runSchedule, after, Turn.items, Turn.valid, ← hitems,
      hslot]
  | cons chunk cs ih =>
    obtain ⟨hpass, hkept⟩ := ih (before ++ chunk) (by rw [h, List.flatten_cons, List.append_assoc])
    rw [List.length_append] at hpass hkept
    dsimp only
    rw [layout, List.reverse_cons, List.map_append, runSchedule_append, List.map_singleton,
      runSchedule, runSchedule, ThreadStorage.span_eq hkept, hpass, runSpan,
      runItems_inTurn (pass.program.lastChunkFirst r cs).items chunk _ before (by simp [after])]
    refine ⟨?_, (ThreadStorage.occupy_slot ..).trans (by rw [hkept]; rfl)⟩
    simp only [Program.lastChunkFirst, after, Turn.items, Turn.valid, List.map_append,
      List.countP_append, mk.injEq]
    exact ⟨trivial, by simp, by omega, Array.append_assoc⟩

end Pass

namespace ThreadStorage

variable {st : ThreadStorage} {thread : Nat}

theorem clear_eq {r : Registers} (h : st.slots[thread]? = some (some r)) :
    st.clear thread = ⟨st.pool.restore r, st.slots.setIfInBounds thread none⟩ := by
  rw [clear, h]

end ThreadStorage

/-- The turn of a whole batch, which starts on the canonical registers. -/
def Program.turn (p : Program) (size : Nat) (batch : Array ι) : Turn ι :=
  p.lastChunkFirst p.registers (chunks size batch.toList)

/-- One thread that has a slot works a batch off in chunks, and leaves its snapshot on top of
the pool. -/
theorem Program.dispatch_eq (p : Program) {storage : ThreadStorage} (h : 0 < storage.threads)
    (size : Nat) (batch : Array ι) :
    let turn := p.turn size batch
    let done := p.dispatch storage 1 size batch
    done.pass = ⟨turn.program, turn.items.toArray, turn.valid, turn.events⟩ ∧
      done.storage.pool.free.head? = some turn.registers := by
  have hslot : storage.slots[0]? = some storage.slots[0] := Array.getElem?_eq_getElem h
  have hready : (storage.ready p.registers 0).slots[0]? = some (some p.registers) := by
    rw [ThreadStorage.ready_slot, hslot, Option.map_some]
  have hbatch : (Pass.start p batch).items.toList = [] ++ (chunks size batch.toList).flatten := by
    rw [flatten_chunks]
    rfl
  have hrun := Pass.runSchedule_layout p.registers (chunks size batch.toList) (Pass.start p batch)
    [] hbatch (storage.ready p.registers 0) p.registers hready
  rw [List.length_nil, ← spans_eq_layout, Array.length_toList] at hrun
  obtain ⟨hpass, hkept⟩ := hrun
  refine ⟨?_, ?_⟩
  · refine hpass.trans ?_
    simp [Pass.after, Pass.start, Program.turn]
  · have hcleared : (p.dispatch storage 1 size batch).storage = _ := ThreadStorage.clear_eq hkept
    rw [hcleared]
    rfl

/-! ## What a pass does to its program -/

/-- The second program is the first, except that it may have been marked invalid. -/
def Program.AtMostMarked (p q : Program) : Prop := q = p ∨ q = { p with isInvalid := true }

namespace Program.AtMostMarked

variable {p q s : Program}

theorem trans (h : p.AtMostMarked q) (h' : q.AtMostMarked s) : p.AtMostMarked s := by
  rcases h with rfl | rfl
  · exact h'
  · rcases h' with rfl | rfl <;> exact .inr rfl

theorem registers (h : p.AtMostMarked q) : q.registers = p.registers := by
  rcases h with rfl | rfl <;> rfl

theorem instructions (h : p.AtMostMarked q) : q.instructions = p.instructions := by
  rcases h with rfl | rfl <;> rfl

end Program.AtMostMarked

theorem Program.execute_atMostMarked (p : Program) (x : ι) (r : Registers) :
    p.AtMostMarked (p.execute x r).program := by
  rcases execute_program x r with h | ⟨reason, h⟩
  · exact .inl h
  · exact .inr (h.trans (p.invalidate_program reason))

namespace Pass

variable {P : Pass ι → Prop}
  (hitem : ∀ pass r i, P pass → P (runItem (pass, r) i).1)

include hitem

/-- What every item keeps, a span keeps. -/
theorem runSpan_keeps {pass : Pass ι} (h : P pass) (span : Span) (r : Registers) :
    P (pass.runSpan span r).1 :=
  List.foldlRecOn _ runItem (motive := fun state : Pass ι × Registers => P state.1) h
    fun state hstate i _ => hitem state.1 state.2 i hstate

/-- What every item keeps, a pass keeps, however it is scheduled. -/
theorem runSchedule_keeps (canonical : Registers) (schedule : List (Span × Nat))
    (state : Pass ι × ThreadStorage) (h : P state.1) :
    P (runSchedule canonical schedule state).1 := by
  induction schedule generalizing state with
  | nil => exact h
  | cons entry schedule ih =>
    refine ih _ ?_
    rw [ThreadStorage.span_fst]
    exact runSpan_keeps hitem h entry.1 _

theorem dispatchBy_keeps {p : Program} {batch : Array ι} (h : P (start p batch))
    (storage : ThreadStorage) (threads : Nat) (schedule : List (Span × Nat)) :
    P (p.dispatchBy storage threads schedule batch).pass :=
  runSchedule_keeps hitem p.registers schedule (start p batch, _) h

end Pass

/-- A pass leaves its program alone, except that a fault makes it invalid. -/
theorem Program.dispatch_atMostMarked (p : Program) (storage : ThreadStorage) (threads size : Nat)
    (batch : Array ι) : p.AtMostMarked (p.dispatch storage threads size batch).pass.program := by
  refine Pass.dispatchBy_keeps (P := fun pass => p.AtMostMarked pass.program) ?_ (.inl rfl) ..
  intro pass r i h
  unfold Pass.runItem
  dsimp only
  split
  · exact h
  · next x _ => exact h.trans (pass.program.execute_atMostMarked x r)

/-- A pass on one thread is a fold. The batch is cut into chunks, and one register file, which
starts as the canonical one, goes through the items of the last chunk, then of the one before it,
down to the first, whatever snapshots of whatever programs the storage held. So does the
program, which an item may make invalid for those after it. Each item is run once, those
count whose execution counts, and the canonical registers stay as they are. -/
theorem dispatch_in_turn (p : Program) {storage : ThreadStorage} (h : 0 < storage.threads)
    (size : Nat) (batch : Array ι) :
    let turn := p.lastChunkFirst p.registers (chunks size batch.toList)
    let done := p.dispatch storage 1 size batch
    done.pass.items.toList = turn.executions.map Execution.invocation ∧
      done.pass.valid = turn.executions.countP Execution.isValid ∧
      done.pass.program = turn.program ∧ done.pass.events = turn.events ∧
      done.storage.pool.free.head? = some turn.registers ∧
      Executed batch.toList turn.executions ∧
      (Pass.visits ((spans batch.size size).reverse.map fun span => (span, 0))).Perm
        (List.range batch.size) ∧
      done.pass.program.registers = p.registers := by
  intro turn done
  obtain ⟨hpass, hleft⟩ := p.dispatch_eq h size batch
  have hexecuted := p.lastChunkFirst_executed (chunks size batch.toList) p.registers
  rw [flatten_chunks] at hexecuted
  have hregisters := (p.dispatch_atMostMarked storage 1 size batch).registers
  refine ⟨?_, ?_, ?_, ?_, hleft, hexecuted,
    Pass.visits_perm (Pass.lastFirst_perm batch.size size 0), hregisters⟩
  all_goals
    rw [show done.pass = _ from hpass]
    rfl

/-- A program that counts its invocations in a variable, shows the count, and jumps out of
itself at the third. -/
def tripping : Program :=
  [.push "+=" [.name "n", .literal (.float 1)],
    .push "if" [.name "n", .name ">=", .literal (.float 3)],
    .push "goto" [.name ".nowhere"],
    .push "end" [],
    .push "=" [.name "fragColor", .name "n"],
    .seal].foldl Program.edit (Program.new .fragment)

/-- Three fragments in spans of two, on a stale snapshot: the last fragment is the first to run,
and the second is the one that trips. -/
theorem dispatch_in_turn_tripping :
    let batch := #[Fragment.ofPosition 0 0, Fragment.ofPosition 1 0, Fragment.ofPosition 2 0]
    let storage : ThreadStorage := ⟨⟨[Registers.empty]⟩, #[some ⟨#[.bool true], #[]⟩]⟩
    let turn := tripping.lastChunkFirst tripping.registers (chunks 2 batch.toList)
    let done := tripping.dispatch storage 1 2 batch
    0 < storage.threads ∧
      (done.pass.items.map fun f => (f.color.x, f.isValid)) = #[(2, true), (0, false), (1, true)] ∧
      done.pass.program.isInvalid = true ∧ done.pass.valid = 2 ∧
      done.pass.items.toList = turn.executions.map Execution.invocation ∧
      done.pass.valid = turn.executions.countP Execution.isValid := by
  intro batch storage turn done
  have h : 0 < storage.threads := by decide
  obtain ⟨hitems, hvalid, -⟩ := dispatch_in_turn tripping h 2 batch
  exact ⟨h, by decide +kernel, by decide +kernel, by decide +kernel, hitems, hvalid⟩

end Shading
