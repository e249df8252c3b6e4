import Mathlib.Order.Bounds.Basic
import Shading.Proofs.Threads

/- The snapshots of a storage. They are in use while they are in a slot or a thread without
   a slot works on one, and lie idle otherwise. Whatever a host does with a storage comes
   down to three moves (`Move`), and from one moment to the next a snapshot is given out or
   put back, or made new, and that only if none lies idle (`Holding.Next`). Hence there are
   always as many snapshots as were ever in use at once (`snapshots_conserved`). -/
namespace Shading

/-! ## Idle and in use -/

/-- How many snapshots lie idle, and how many are in use. -/
structure Holding where
  idle : Nat
  inUse : Nat
  deriving DecidableEq, Repr

namespace Holding

/-- How many snapshots there are. -/
def total (h : Holding) : Nat := h.idle + h.inUse

/-- What may happen to the snapshots from one moment to the next: there are as many as before,
or one is made new because none lies idle. -/
def Next (h h' : Holding) : Prop :=
  h'.total = h.total ∨ h.idle = 0 ∧ h'.idle = 0 ∧ h'.total = h.total + 1

/-- Over a history that begins without snapshots, there are always as many as were ever in use at
once. -/
theorem isGreatest_total {history : List Holding} (hchain : history.IsChain Next)
    (hstart : history[0]? = some ⟨0, 0⟩) : ∀ (i : Nat) {h : Holding}, history[i]? = some h →
    IsGreatest {n | ∃ h' ∈ history.take (i + 1), h'.inUse = n} h.total := by
  intro i
  induction i with
  | zero =>
    intro h hh
    obtain rfl : (⟨0, 0⟩ : Holding) = h := Option.some.inj (hstart.symm.trans hh)
    obtain ⟨hlt, hget⟩ := List.getElem?_eq_some_iff.1 hstart
    have htake : history.take 1 = [⟨0, 0⟩] := by
      rw [List.take_succ_eq_append_getElem hlt, hget, List.take_zero, List.nil_append]
    rw [Nat.zero_add, htake]
    exact ⟨⟨_, List.mem_singleton_self _, rfl⟩, by simp [upperBounds, total]⟩
  | succ i ih =>
    intro h' hh'
    obtain ⟨hlt, hget'⟩ := List.getElem?_eq_some_iff.1 hh'
    have hi : i < history.length := Nat.lt_of_succ_lt hlt
    obtain ⟨⟨used, hused, hmost⟩, hbound⟩ := ih (List.getElem?_eq_getElem hi)
    have hnext : history[i].Next h' := hget' ▸ List.isChain_iff_getElem.1 hchain i hlt
    have htake : history.take (i + 1 + 1) = history.take (i + 1) ++ [h'] := by
      rw [List.take_succ_eq_append_getElem hlt, hget']
    have hgrows : history[i].total ≤ h'.total := by
      rcases hnext with hsame | ⟨-, -, hnew⟩ <;> omega
    rw [htake]
    constructor
    · rcases hnext with hsame | ⟨-, hidle, -⟩
      · exact ⟨used, List.mem_append_left _ hused, hmost.trans hsame.symm⟩
      -- all of them are in use, the new one included
      · exact ⟨h', by simp, by rw [total, hidle, Nat.zero_add]⟩
    · rintro n ⟨other, hother, rfl⟩
      rcases List.mem_append.1 hother with hold | hlast
      · exact Nat.le_trans (hbound ⟨other, hold, rfl⟩) hgrows
      · rw [List.mem_singleton.1 hlast]
        exact Nat.le_add_left ..

end Holding

namespace ThreadStorage

/-- How many slots have a snapshot. -/
def occupied (st : ThreadStorage) : Nat := st.slots.countP Option.isSome

/-- The snapshots of a storage while no thread is at work. -/
def holding (st : ThreadStorage) : Holding := ⟨st.idle, st.occupied⟩

/-- The snapshots of a storage while a thread is at work. One that had none was given one, for
its slot or for the time of its work. -/
def working (st : ThreadStorage) (canonical : Registers) (thread : Nat) : Holding :=
  match st.slots[thread]? with
  | some (some _) => st.holding
  | _ => ⟨(st.pool.checkout canonical).2.idle, st.occupied + 1⟩

variable {st : ThreadStorage} {canonical : Registers} {thread : Nat}

/-! ## Slots filled and emptied -/

theorem countP_setIfInBounds {content : Option Registers}
    (h : st.slots[thread]? = some content) (c : Option Registers) :
    (st.slots.setIfInBounds thread c).countP Option.isSome + (if content.isSome then 1 else 0) =
      st.occupied + (if c.isSome then 1 else 0) := by
  obtain ⟨hlt, rfl⟩ := Array.getElem?_eq_some_iff.1 h
  rw [Array.setIfInBounds, dif_pos hlt, Array.countP_set, occupied]
  split
  · next hfull =>
    have hpos : 0 < st.slots.countP Option.isSome :=
      Array.countP_pos_iff.2 ⟨_, Array.getElem_mem hlt, hfull⟩
    omega
  · omega

theorem holding_occupy_of_full {r : Registers} (h : st.slots[thread]? = some (some r))
    (r' : Registers) : (st.occupy thread r').holding = st.holding := by
  have hcount : (st.occupy thread r').occupied = st.occupied :=
    Nat.add_right_cancel (countP_setIfInBounds h (some r'))
  rw [holding, hcount]
  rfl

theorem holding_occupy_of_empty (h : st.slots[thread]? = some none) (pool : SnapshotPool)
    (r : Registers) :
    ({ st with pool }.occupy thread r).holding = ⟨pool.idle, st.occupied + 1⟩ := by
  have hcount : ({ st with pool }.occupy thread r).occupied = st.occupied + 1 :=
    countP_setIfInBounds h (some r)
  rw [holding, hcount]
  rfl

/-- A snapshot given out is an idle one, or a new one if none is idle. -/
theorem next_given (st : ThreadStorage) (canonical : Registers) :
    st.holding.Next ⟨(st.pool.checkout canonical).2.idle, st.occupied + 1⟩ := by
  have h : (st.pool.checkout canonical).2.idle = st.idle - 1 := List.length_tail
  simp only [Holding.Next, Holding.total, holding]
  omega

/-! ## From moment to moment -/

theorem next_ready : st.holding.Next (st.ready canonical thread).holding := by
  unfold ready
  split
  · exact .inl rfl
  · next r h => exact .inl (congrArg Holding.total (holding_occupy_of_full h _))
  · next h =>
    exact (holding_occupy_of_empty h _ _).symm ▸ next_given st canonical

theorem total_clear : (st.clear thread).holding.total = st.holding.total := by
  unfold clear
  split
  · next r h =>
    have hcount : (st.slots.setIfInBounds thread none).countP Option.isSome + 1 = st.occupied := by
      simpa using countP_setIfInBounds h none
    have hidle : (st.pool.restore r).idle = st.idle + 1 := rfl
    simp only [Holding.total, holding]
    simp only [idle, occupied, SnapshotPool.idle, SnapshotPool.restore] at *
    omega
  · rfl

theorem next_working : st.holding.Next (st.working canonical thread) := by
  unfold working
  split
  · exact .inl rfl
  · exact next_given st canonical

theorem total_span {α : Type} (work : Registers → α × Registers) :
    (st.span canonical thread work).2.holding.total = (st.working canonical thread).total := by
  unfold span working
  split
  · next r h =>
    rw [h]
    exact congrArg Holding.total (holding_occupy_of_full h _)
  · next h =>
    rw [h]
    exact congrArg Holding.total (holding_occupy_of_empty h _ _)
  · next h =>
    rw [h]
    -- the snapshot is idle again
    exact Nat.succ_add_eq_add_succ ..

/-! ## Slots cleared -/

theorem slot_clears (order : List Nat) (thread : Nat) : ∀ st : ThreadStorage,
    (order.foldl clear st).slots[thread]? =
      if thread ∈ order then st.slots[thread]?.map fun _ => none else st.slots[thread]? := by
  induction order with
  | nil => exact fun _ => (if_neg List.not_mem_nil).symm
  | cons t order ih =>
    intro st
    rw [List.foldl_cons, ih]
    by_cases h : t = thread
    · subst h
      simp only [List.mem_cons, true_or, if_true, clear_slot, Option.map_map]
      exact ite_self _
    · simp [clear_other st h, Ne.symm h]

theorem total_clears (order : List Nat) (st : ThreadStorage) :
    (order.foldl clear st).holding.total = st.holding.total := by
  induction order generalizing st with
  | nil => rfl
  | cons t order ih => rw [List.foldl_cons, ih, total_clear]

/-- Once all slots are cleared, all snapshots are idle. -/
theorem idle_clears {order : List Nat} (h : ∀ t < st.threads, t ∈ order) :
    (order.foldl clear st).idle = st.holding.total := by
  have hempty : (order.foldl clear st).occupied = 0 := by
    refine Array.countP_eq_zero.2 fun content hcontent => ?_
    obtain ⟨t, ht, rfl⟩ := Array.getElem_of_mem hcontent
    have hslot := slot_clears order t st
    rw [Array.getElem?_eq_getElem ht] at hslot
    cases hc : (order.foldl clear st).slots[t] with
    | none => exact Bool.false_ne_true
    | some r =>
      rw [hc] at hslot
      split at hslot
      · cases hs : st.slots[t]? <;> simp [hs] at hslot
      · next hout =>
        exact absurd (h t (Array.getElem?_eq_some_iff.1 hslot.symm).1) hout
  rw [← total_clears order, Holding.total, holding, hempty]
  rfl

end ThreadStorage

/-! ## Moves -/

/-- What is done to a storage, whoever asks for it. -/
inductive Move where
  /-- To ready a thread. -/
  | ready (canonical : Registers) (thread : Nat)
  /-- To clear a slot. -/
  | clear (thread : Nat)
  /-- To let a thread work on its snapshot. -/
  | work (canonical : Registers) (thread : Nat) (left : Registers → Registers)

namespace Move

/-- The storage after a move. -/
def apply (st : ThreadStorage) : Move → ThreadStorage
  | ready canonical thread => st.ready canonical thread
  | clear thread => st.clear thread
  | work canonical thread left => (st.span canonical thread fun r => ((), left r)).2

/-- The moment in the midst of a move, if there is one to tell from its end. -/
def during (st : ThreadStorage) : Move → List Holding
  | ready _ _ | clear _ => []
  | work canonical thread _ => [st.working canonical thread]

end Move

namespace ThreadStorage

/-- The moments of some moves. -/
def moments (st : ThreadStorage) : List Move → List Holding
  | [] => []
  | m :: rest => m.during st ++ (m.apply st).holding :: (m.apply st).moments rest

/-- From a moment to the next a snapshot is given out or put back, or made new. -/
theorem isChain_moments (moves : List Move) : ∀ st : ThreadStorage,
    (st.holding :: st.moments moves).IsChain Holding.Next := by
  induction moves with
  | nil => exact fun st => .singleton _
  | cons m rest ih =>
    intro st
    have hrest := ih (m.apply st)
    cases m with
    | ready canonical thread => exact .cons_cons next_ready hrest
    | clear thread => exact .cons_cons (.inl total_clear) hrest
    | work canonical thread left =>
      exact .cons_cons next_working (.cons_cons (.inl (total_span _)) hrest)

theorem getLast_moments (moves : List Move) : ∀ st : ThreadStorage,
    (st.holding :: st.moments moves).getLast? = some (moves.foldl Move.apply st).holding := by
  induction moves with
  | nil => exact fun st => rfl
  | cons m rest ih =>
    intro st
    rw [moments, ← List.cons_append, List.getLast?_append, ih]
    rfl

/-- Of work, only what it leaves is of account to the storage. -/
theorem span_snd {α : Type} (st : ThreadStorage) (canonical : Registers) (thread : Nat)
    (work : Registers → α × Registers) : (st.span canonical thread work).2 =
      (st.span canonical thread fun r => ((), (work r).2)).2 := by
  unfold span
  split <;> rfl

end ThreadStorage

/-! ## Uses -/

/-- What a host does with a storage: a call of a thread, or a pass of some threads by a schedule
over a batch, each with a program of its own. -/
inductive Use (α : Type) where
  | call (p : Program) (thread : Nat) (c : Call α)
  | fragments (p : Program) (threads : Nat) (schedule : List (Span × Nat)) (batch : Array Fragment)
  | vertices (p : Program) (threads : Nat) (schedule : List (Span × Nat)) (batch : Array Vertex)

variable {α : Type}

/-- What a call comes to. -/
def Call.move (p : Program) (thread : Nat) : Call α → Move
  | .ready => .ready p.registers thread
  | .clear => .clear thread
  | .span work => .work p.registers thread fun r => (work r).2
  | .fragment f => .work p.registers thread fun r => (p.execute f r).registers
  | .vertex v => .work p.registers thread fun r => (p.execute v r).registers

theorem Call.apply_move (p : Program) (st : ThreadStorage) (thread : Nat) (c : Call α) :
    (c.move p thread).apply st = (p.answer st thread c).2 := by
  cases c with
  | ready | clear => rfl
  | span work => exact (st.span_snd p.registers thread work).symm
  | fragment f => exact (st.span_snd p.registers thread (p.workFor f)).symm
  | vertex v => exact (st.span_snd p.registers thread (p.workFor v)).symm

section

variable {ι : Type} [Invocation ι]

/-- What a schedule comes to. -/
def Pass.moves (canonical : Registers) :
    List (Span × Nat) → Pass ι × ThreadStorage → List Move
  | [], _ => []
  | (span, thread) :: rest, (pass, storage) =>
    .work canonical thread (fun r => (pass.runSpan span r).2) ::
      moves canonical rest (storage.span canonical thread (pass.runSpan span))

theorem Pass.foldl_moves (canonical : Registers) (schedule : List (Span × Nat)) :
    ∀ state : Pass ι × ThreadStorage,
      (Pass.moves canonical schedule state).foldl Move.apply state.2 =
        (Pass.runSchedule canonical schedule state).2 := by
  induction schedule with
  | nil => exact fun _ => rfl
  | cons entry rest ih =>
    intro state
    rw [Pass.moves, Pass.runSchedule, List.foldl_cons, ← ih, Move.apply, ← ThreadStorage.span_snd]

/-- What a pass comes to. -/
def Program.movesBy (p : Program) (storage : ThreadStorage) (threads : Nat)
    (schedule : List (Span × Nat)) (items : Array ι) : List Move :=
  let readies := (List.range threads).map (Move.ready p.registers)
  readies ++
    Pass.moves p.registers schedule (Pass.start p items, readies.foldl Move.apply storage) ++
    (List.range threads).map Move.clear

theorem Program.foldl_movesBy (p : Program) (storage : ThreadStorage) (threads : Nat)
    (schedule : List (Span × Nat)) (items : Array ι) :
    (p.movesBy storage threads schedule items).foldl Move.apply storage =
      (p.dispatchBy storage threads schedule items).storage := by
  rw [movesBy, List.foldl_append, List.foldl_append, List.foldl_map, List.foldl_map,
    Pass.foldl_moves p.registers schedule (Pass.start p items, _)]
  rfl

end

namespace Use

/-- The storage after a use. -/
def apply (st : ThreadStorage) : Use α → ThreadStorage
  | call p thread c => (p.answer st thread c).2
  | fragments p threads schedule batch => (p.dispatchBy st threads schedule batch).storage
  | vertices p threads schedule batch => (p.dispatchBy st threads schedule batch).storage

/-- What a use comes to. -/
def moves (st : ThreadStorage) : Use α → List Move
  | call p thread c => [c.move p thread]
  | fragments p threads schedule batch => p.movesBy st threads schedule batch
  | vertices p threads schedule batch => p.movesBy st threads schedule batch

theorem foldl_moves (st : ThreadStorage) (u : Use α) :
    (u.moves st).foldl Move.apply st = u.apply st := by
  cases u with
  | call p thread c => exact c.apply_move p st thread
  | fragments p threads schedule batch => exact p.foldl_movesBy st threads schedule batch
  | vertices p threads schedule batch => exact p.foldl_movesBy st threads schedule batch

/-- What some uses come to. -/
def allMoves (st : ThreadStorage) : List (Use α) → List Move
  | [] => []
  | u :: rest => u.moves st ++ allMoves (u.apply st) rest

theorem foldl_allMoves (uses : List (Use α)) : ∀ st : ThreadStorage,
    (allMoves st uses).foldl Move.apply st = uses.foldl apply st := by
  induction uses with
  | nil => exact fun _ => rfl
  | cons u rest ih =>
    intro st
    rw [allMoves, List.foldl_append, foldl_moves, ih, List.foldl_cons]

/-- What is in the storage from moment to moment during some uses. -/
def history (st : ThreadStorage) (uses : List (Use α)) : List Holding :=
  st.holding :: st.moments (allMoves st uses)

end Use

/-! ## Conservation -/

/-- The slots of the threads of a pass are empty after it. -/
theorem Program.slot_dispatchBy {ι : Type} [Invocation ι] (p : Program) {st : ThreadStorage}
    {threads thread : Nat} (schedule : List (Span × Nat)) (batch : Array ι)
    (h : thread < threads) (hslot : thread < st.threads) :
    (p.dispatchBy st threads schedule batch).storage.slots[thread]? = some none := by
  have hcleared : (p.dispatchBy st threads schedule batch).storage.slots[thread]? = _ :=
    ThreadStorage.slot_clears (List.range threads) thread _
  rw [if_pos (List.mem_range.2 h)] at hcleared
  rw [← p.threads_dispatchBy st threads schedule batch] at hslot
  rw [Array.getElem?_eq_getElem hslot] at hcleared ⊢
  obtain ⟨-, -, hnone⟩ := Option.map_eq_some_iff.1 hcleared.symm
  rw [← hnone]

theorem ThreadStorage.holding_ofThreads (threads : Nat) :
    (ThreadStorage.ofThreads threads).holding = ⟨0, 0⟩ := by
  simp [holding, idle, occupied, ofThreads, SnapshotPool.idle, SnapshotPool.empty]

/-- Snapshots are conserved. From a fresh storage on, whatever a host does, a snapshot is made new
only while none lies idle, and none is lost. So at every moment there are as many as were ever in
use at once until then, and all of them lie idle once the slots are cleared. A pass leaves the
slots of its threads empty. -/
theorem snapshots_conserved (threads : Nat) (uses : List (Use α)) :
    let fresh := ThreadStorage.ofThreads threads
    let st := uses.foldl Use.apply fresh
    let history := Use.history fresh uses
    history.IsChain Holding.Next ∧
    history.getLast? = some st.holding ∧
    (∀ (i : Nat) (h : Holding), history[i]? = some h →
      IsGreatest {n | ∃ h' ∈ history.take (i + 1), h'.inUse = n} h.total) ∧
    (∀ order : List Nat, (∀ t < st.threads, t ∈ order) →
      IsGreatest {n | ∃ h ∈ history, h.inUse = n} (order.foldl ThreadStorage.clear st).idle) ∧
    (∀ (ι : Type) [Invocation ι] (p : Program) (k : Nat) (schedule : List (Span × Nat))
      (batch : Array ι), k ≤ st.threads → ∀ t < k,
        (p.dispatchBy st k schedule batch).storage.slots[t]? = some none) := by
  intro fresh st history
  have hchain : history.IsChain Holding.Next := fresh.isChain_moments _
  have hst : (Use.allMoves fresh uses).foldl Move.apply fresh = st := Use.foldl_allMoves uses fresh
  have hlast : history.getLast? = some st.holding := hst ▸ fresh.getLast_moments _
  have hstart : history[0]? = some ⟨0, 0⟩ :=
    congrArg some (ThreadStorage.holding_ofThreads threads)
  have hgreatest := fun i h => Holding.isGreatest_total hchain hstart i (h := h)
  refine ⟨hchain, hlast, hgreatest, fun order horder => ?_,
    fun ι _ p k schedule batch hk t ht => ?_⟩
  · have hend : history[history.length - 1]? = some st.holding := List.getLast?_eq_getElem? ▸ hlast
    have hall : history.take (history.length - 1 + 1) = history :=
      List.take_of_length_le (Nat.le_succ_of_pred_le (Nat.le_refl _))
    rw [ThreadStorage.idle_clears horder]
    exact hall ▸ hgreatest _ _ hend
  · exact p.slot_dispatchBy schedule batch ht (Nat.lt_of_lt_of_le ht hk)

/-- A thread is readied twice, then one without a slot and one that was not readied run a
program. A third snapshot is made when both slots are full and the thread without a slot comes
again; the pass of two threads that follows gets by with what there is. -/
theorem snapshots_conserved_brightening :
    let f := Fragment.ofPosition 0 0
    let fresh := ThreadStorage.ofThreads 2
    let uses : List (Use Unit) :=
      [.call brightening 0 .ready, .call brightening 0 .ready, .call brightening 7 (.fragment f),
        .call brightening 1 (.fragment f), .call brightening 7 (.fragment f),
        .call brightening 0 .clear, .call brightening 0 .clear,
        .fragments brightening 2 [(⟨0, 1⟩, 1)] #[f], .call brightening 0 .ready]
    (Use.history fresh uses).map (fun h => (h.idle, h.inUse)) =
      [(0, 0), (0, 1), (0, 1), (0, 2), (1, 1), (0, 2), (0, 2), (0, 3), (1, 2), (2, 1), (2, 1),
        (1, 2), (1, 2), (1, 2), (1, 2), (2, 1), (3, 0), (2, 1)] ∧
      IsGreatest {n | ∃ h ∈ (Use.history fresh uses).take (5 + 1), h.inUse = n} 2 ∧
      IsGreatest {n | ∃ h ∈ Use.history fresh uses, h.inUse = n}
        ([0, 1].foldl ThreadStorage.clear (uses.foldl Use.apply fresh)).idle ∧
      (brightening.dispatchBy (uses.foldl Use.apply fresh) 2 [] #[f]).storage.slots[0]? =
        some none := by
  intro f fresh uses
  obtain ⟨-, -, hmoment, hcleared, hpass⟩ := snapshots_conserved 2 uses
  have hslots : ∀ t < (uses.foldl Use.apply fresh).threads, t ∈ [0, 1] := by decide +kernel
  have hthreads : 2 ≤ (uses.foldl Use.apply fresh).threads := by decide +kernel
  refine ⟨by decide +kernel, hmoment 5 ⟨0, 2⟩ (by decide +kernel), hcleared [0, 1] hslots, ?_⟩
  exact hpass Fragment brightening 2 [] #[f] hthreads 0 Nat.zero_lt_two

end Shading
