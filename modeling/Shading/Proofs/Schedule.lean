import Shading.Dispatch
import Shading.Proofs.Caches
import Shading.Proofs.Carried

/- Passes under any schedule. A thread goes from span to span with one register file,
   so an item meets whatever earlier items of its thread left in the variables and
   in the caches. The caches show nothing (`execute_matches`), uniforms stay as they
   are (`Program.Carried.slot`), and if no item minds what the variables hold
   (`Program.Indifferent`), each ends as if it had run alone. The spans of a batch
   hold each of its indices once, so the order of the spans and the threads that
   take them make no difference (`schedule_irrelevant`). -/
namespace Shading

/-! ## Spans -/

/-- The indices of a span, in the order in which they are worked off. -/
def Span.indices (span : Span) : List Nat := List.range' span.start span.size

theorem flatMap_indices (n size : Nat) : ∀ k,
    ((List.range k).map fun i => (⟨i * size, min size (n - i * size)⟩ : Span)).flatMap
      Span.indices = List.range (min (k * size) n) := by
  intro k
  induction k with
  | zero => simp
  | succ k ih =>
    rw [List.range_succ, List.map_append, List.flatMap_append, ih, List.map_singleton,
      List.flatMap_singleton, List.range_eq_range', List.range_eq_range', Nat.succ_mul]
    rcases Nat.le_total (k * size) n with hle | hle
    · have hstart : min (k * size) n = k * size := Nat.min_eq_left hle
      have hend : min (k * size + size) n = k * size + min size (n - k * size) := by omega
      rw [hstart, hend, ← List.range'_append_1, Nat.zero_add]
      rfl
    -- the batch is used up, so the span is empty
    · have hstart : min (k * size) n = n := Nat.min_eq_right hle
      have hend : min (k * size + size) n = n := by omega
      have hempty : min size (n - k * size) = 0 := by omega
      rw [hstart, hend, hempty]
      exact List.append_nil _

/-- The spans of a batch hold each of its indices once, in order. -/
theorem spans_indices (n size : Nat) : (spans n size).flatMap Span.indices = List.range n := by
  have hsize : 0 < max size 1 := by omega
  have hall : n ≤ (n + max size 1 - 1) / max size 1 * max size 1 := by
    have hlt : n + max size 1 - 1 < (n + max size 1 - 1) / max size 1 * max size 1 + max size 1 :=
      Nat.lt_div_mul_add hsize
    omega
  rw [spans, flatMap_indices, Nat.min_eq_right hall]

theorem countP_range {ι : Type} (batch : Array ι) (f : ι → Bool) :
    (List.range batch.size).countP (fun i => batch[i]?.any f) = batch.countP f := by
  have hmap : (List.range batch.size).map (fun i => batch[i]?) = batch.toList.map some := by
    apply List.ext_getElem
    · simp
    · intro i hi hi'
      simp
  rw [← Array.countP_toList]
  calc
    (List.range batch.size).countP (fun i => batch[i]?.any f)
      = ((List.range batch.size).map fun i => batch[i]?).countP (Option.any f) := by
        rw [List.countP_map]
        rfl
    _ = batch.toList.countP f := by
        rw [hmap, List.countP_map]
        rfl

/-! ## The snapshots of the threads -/

namespace ThreadStorage

variable {st : ThreadStorage} {canonical : Registers} {P : Registers → Prop} {busy : Nat → Prop}

/-- Each of some threads that has a snapshot has one with a certain property. -/
def Holds (st : ThreadStorage) (busy : Nat → Prop) (P : Registers → Prop) : Prop :=
  ∀ thread, busy thread → ∀ r, st.slots[thread]? = some (some r) → P r

theorem Holds.occupy (h : st.Holds busy P) (thread : Nat) {r : Registers} (hr : P r) :
    (st.occupy thread r).Holds (fun t => busy t ∨ t = thread) P := by
  intro t ht r' hr'
  simp only [ThreadStorage.occupy, Array.getElem?_setIfInBounds] at hr'
  split at hr'
  · split at hr'
    · simp only [Option.some.injEq] at hr'
      exact hr' ▸ hr
    · simp at hr'
  · next hne => exact h t (ht.resolve_right (Ne.symm hne)) r' hr'

theorem Holds.ready (h : st.Holds busy P) (hcanonical : P canonical) (thread : Nat) :
    (st.ready canonical thread).Holds (fun t => busy t ∨ t = thread) P := by
  unfold ThreadStorage.ready
  split
  · next hnone =>
    intro t ht r hr
    rcases ht with ht | rfl
    · exact h t ht r hr
    · rw [hnone] at hr
      cases hr
  · exact h.occupy thread hcanonical
  · have hpool : Holds { st with pool := (st.pool.checkout canonical).2 } busy P := h
    exact hpool.occupy thread hcanonical

theorem Holds.readied (h : st.Holds busy P) (hcanonical : P canonical) (threads : List Nat) :
    (threads.foldl (fun st t => st.ready canonical t) st).Holds
      (fun t => busy t ∨ t ∈ threads) P := by
  induction threads generalizing st busy with
  | nil => exact fun t ht => h t (ht.resolve_right List.not_mem_nil)
  | cons thread threads ih =>
    intro t ht
    refine ih (h.ready hcanonical thread) t ?_
    rwa [List.mem_cons, ← or_assoc] at ht

/-- A thread that is ready works on a snapshot with the property, and if the work keeps the
property, so does what it leaves. -/
theorem Holds.span {α : Type} (h : st.Holds busy P) (hcanonical : P canonical) {thread : Nat}
    (hbusy : busy thread) {work : Registers → α × Registers} (hwork : ∀ r, P r → P (work r).2) :
    ∃ r, P r ∧ (st.span canonical thread work).1 = (work r).1 ∧
      (st.span canonical thread work).2.Holds busy P := by
  have hsame : (fun t => busy t ∨ t = thread) = busy := by
    funext t
    simp only [eq_iff_iff, or_iff_left_iff_imp]
    rintro rfl
    exact hbusy
  unfold ThreadStorage.span
  split
  · next r hr =>
    have hgood := h thread hbusy r hr
    exact ⟨r, hgood, rfl, hsame ▸ h.occupy thread (hwork r hgood)⟩
  · have hpool : Holds { st with pool := (st.pool.checkout canonical).2 } busy P := h
    exact ⟨canonical, hcanonical, rfl, hsame ▸ hpool.occupy thread (hwork _ hcanonical)⟩
  · exact ⟨canonical, hcanonical, rfl, h⟩

end ThreadStorage

/-! ## Items that do not mind -/

variable {ι : Type} [Invocation ι] {p : Program}

/-- Whatever values the variables hold when a run for the item begins, it does not make
the program invalid, it counts or not as ever, and it ends with the same invocation. -/
def Program.Indifferent (p : Program) (x : ι) : Prop :=
  ∀ slots : Array Value, slots.size = p.registers.slots.size →
    (∀ v, ¬p.IsVariable v → slots[v]? = p.registers.slots[v]?) →
    let done := p.execute x ⟨slots, p.registers.anchors⟩
    let alone := p.execute x p.registers
    done.program.isInvalid = false ∧ done.isValid = alone.isValid ∧
      done.invocation = alone.invocation

/-- On the file that earlier invocations left, such an item ends as if alone. -/
theorem Program.Indifferent.execute_eq [CacheBlind ι] {x : ι} (hx : p.Indifferent x)
    (hp : p.WellFormed) {r : Registers} (hr : p.Carried r) :
    (p.execute x r).program = p ∧ (p.execute x r).isValid = (p.execute x p.registers).isValid ∧
      (p.execute x r).invocation = (p.execute x p.registers).invocation := by
  have hsuits := hr.suits hp
  have hsame : r.SameButCaches p ⟨r.slots, p.registers.anchors⟩ :=
    ⟨rfl, hsuits.anchors.trans hp.suits.anchors.symm, hsuits.coherent, hp.coherent⟩
  have hmatches := execute_matches hsame x
  obtain ⟨hvalid, hflag, hinvocation⟩ :=
    hx r.slots (hsuits.slots.trans hp.suits.slots.symm) fun v hv => hr.slot hp hv
  refine ⟨?_, hmatches.isValid.trans hflag, hmatches.invocation.trans hinvocation⟩
  rcases execute_program x r with h | ⟨reason, h⟩
  · exact h
  · rw [← hmatches.program, h, invalidate_isInvalid] at hvalid
    cases hvalid

/-! ## Passes -/

namespace Pass

/-- The indices of the items in the order in which a schedule has them run. -/
def visits (schedule : List (Span × Nat)) : List Nat :=
  schedule.flatMap fun entry => entry.1.indices

/-- A schedule of all the spans of a batch visits each of its items once. -/
theorem visits_perm {n size : Nat} {schedule : List (Span × Nat)}
    (h : (schedule.map Prod.fst).Perm (spans n size)) : (visits schedule).Perm (List.range n) := by
  rw [← spans_indices n size, visits, ← List.flatMap_map]
  exact h.flatMap_right Span.indices

theorem lastFirst_perm (n size thread : Nat) :
    (((spans n size).reverse.map fun span => (span, thread)).map Prod.fst).Perm
      (spans n size) := by
  have hfst : ((spans n size).reverse.map fun span => (span, thread)).map Prod.fst =
      (spans n size).reverse := by
    rw [List.map_map]
    exact List.map_id _
  rw [hfst]
  exact List.reverse_perm _

section

variable {I : List Nat → Pass ι → Prop} {Q : Registers → Prop} {order : List Nat}
  (hitem : ∀ {seen : List Nat} {i : Nat} {pass : Pass ι} {r : Registers},
    seen ++ [i] <+: order → I seen pass → Q r →
      I (seen ++ [i]) (runItem (pass, r) i).1 ∧ Q (runItem (pass, r) i).2)

include hitem

theorem runItems_visits : ∀ (indices : List Nat) {seen : List Nat} {pass : Pass ι}
    {r : Registers}, seen ++ indices <+: order → I seen pass → Q r →
    I (seen ++ indices) (indices.foldl runItem (pass, r)).1 ∧
      Q (indices.foldl runItem (pass, r)).2 := by
  intro indices
  induction indices with
  | nil => exact fun _ h hr => ⟨(List.append_nil _).symm ▸ h, hr⟩
  | cons i indices ih =>
    intro seen pass r horder h hr
    rw [List.append_cons] at horder ⊢
    obtain ⟨h', hr'⟩ := hitem ((List.prefix_append ..).trans horder) h hr
    exact ih horder h' hr'

theorem runSchedule_visits_from {canonical : Registers} (hcanonical : Q canonical)
    {busy : Nat → Prop} : ∀ (schedule : List (Span × Nat)) {seen : List Nat} {pass : Pass ι}
    {storage : ThreadStorage}, seen ++ visits schedule <+: order → I seen pass →
    storage.Holds busy Q → (∀ entry ∈ schedule, busy entry.2) →
    I (seen ++ visits schedule) (runSchedule canonical schedule (pass, storage)).1 ∧
      (runSchedule canonical schedule (pass, storage)).2.Holds busy Q := by
  intro schedule
  induction schedule with
  | nil => exact fun _ h hstorage _ => ⟨(List.append_nil _).symm ▸ h, hstorage⟩
  | cons entry schedule ih =>
    obtain ⟨span, thread⟩ := entry
    intro seen pass storage horder h hstorage hbusy
    obtain ⟨hthread, hbusy⟩ : busy thread ∧ ∀ entry ∈ schedule, busy entry.2 :=
      List.forall_mem_cons.1 hbusy
    have hvisits : visits ((span, thread) :: schedule) = span.indices ++ visits schedule :=
      List.flatMap_cons
    rw [hvisits, ← List.append_assoc] at horder ⊢
    have hrun := fun r hr =>
      runItems_visits hitem span.indices (r := r) ((List.prefix_append ..).trans horder) h hr
    have hkeeps : ∀ r, Q r → Q (pass.runSpan span r).2 := fun r hr => (hrun r hr).2
    obtain ⟨r, hr, hwork, hstorage'⟩ := hstorage.span hcanonical hthread hkeeps
    have hfirst : I (seen ++ span.indices)
        (storage.span canonical thread (pass.runSpan span)).1 := by
      rw [hwork]
      exact (hrun r hr).1
    exact ih horder hfirst hstorage' hbusy

omit hitem

/-- What holds of a pass that has not begun, and of the registers of its threads, holds of
the pass and the items that have run, if each item keeps it. -/
theorem runSchedule_visits {canonical : Registers} {schedule : List (Span × Nat)}
    {pass : Pass ι} {storage : ThreadStorage} {busy : Nat → Prop}
    (hitem : ∀ {seen : List Nat} {i : Nat} {pass : Pass ι} {r : Registers},
      seen ++ [i] <+: visits schedule → I seen pass → Q r →
        I (seen ++ [i]) (runItem (pass, r) i).1 ∧ Q (runItem (pass, r) i).2)
    (h : I [] pass) (hcanonical : Q canonical) (hstorage : storage.Holds busy Q)
    (hbusy : ∀ entry ∈ schedule, busy entry.2) :
    I (visits schedule) (runSchedule canonical schedule (pass, storage)).1 ∧
      (runSchedule canonical schedule (pass, storage)).2.Holds busy Q := by
  have hstart : [] ++ visits schedule <+: visits schedule := List.prefix_rfl
  exact runSchedule_visits_from hitem hcanonical schedule hstart h hstorage hbusy

end

variable {pass : Pass ι} {batch : Array ι} {seen : List Nat}

/-- How a pass stands when the items at some indices have run, each as if alone. -/
structure Seen (p : Program) (batch : Array ι) (seen : List Nat) (pass : Pass ι) : Prop where
  program : pass.program = p
  items : ∀ i, pass.items[i]? = batch[i]?.map fun x =>
    if i ∈ seen then (p.execute x p.registers).invocation else x
  valid : pass.valid = seen.countP fun i =>
    batch[i]?.any fun x => (p.execute x p.registers).isValid

theorem seen_start (p : Program) (batch : Array ι) : Seen p batch [] (Pass.start p batch) where
  program := rfl
  items i := by simp [Pass.start]
  valid := rfl

variable [CacheBlind ι] (hp : p.WellFormed) (hbatch : ∀ x ∈ batch, p.Indifferent x)

include hp hbatch

theorem Seen.runItem (h : Seen p batch seen pass) {r : Registers} (hr : p.Carried r) {i : Nat}
    (hi : i ∉ seen) :
    Seen p batch (seen ++ [i]) (runItem (pass, r) i).1 ∧ p.Carried (runItem (pass, r) i).2 := by
  have hitem : pass.items[i]? = batch[i]? := by simp [h.items, hi]
  unfold Pass.runItem
  cases hx : batch[i]? with
  | none =>
    -- there is no such item, and nothing runs
    simp only [hitem, hx]
    refine ⟨⟨h.program, fun j => ?_, ?_⟩, hr⟩
    · rw [h.items]
      by_cases hj : j = i
      · rw [hj, hx]
        rfl
      · simp [hj]
    · simp [h.valid, hx]
  | some x =>
    obtain ⟨hprogram, hflag, hinvocation⟩ :=
      (hbatch x (Array.mem_of_getElem? hx)).execute_eq hp hr
    obtain ⟨hlt, -⟩ := Array.getElem?_eq_some_iff.1 (hitem.trans hx)
    simp only [hitem, hx, h.program, hprogram, hflag, hinvocation]
    refine ⟨⟨rfl, fun j => ?_, ?_⟩, .execute hr x⟩
    · rw [Array.getElem?_setIfInBounds]
      by_cases hj : i = j
      · subst hj
        simp [hlt, hx]
      · simp [hj, h.items, Ne.symm hj]
    · rw [List.countP_append, h.valid]
      cases hv : (p.execute x p.registers).isValid <;> simp [hx, hv]

theorem Seen.runSchedule {threads : Nat} {schedule : List (Span × Nat)} {storage : ThreadStorage}
    (hstorage : storage.Holds (· < threads) p.Carried)
    (hthreads : ∀ entry ∈ schedule, entry.2 < threads) (hdistinct : (visits schedule).Nodup) :
    Seen p batch (visits schedule)
      (Pass.runSchedule p.registers schedule (Pass.start p batch, storage)).1 := by
  refine (runSchedule_visits (I := Seen p batch) (Q := p.Carried) ?_ (seen_start p batch)
    .canonical hstorage hthreads).1
  intro seen i pass r horder h hr
  have hseen := hdistinct.sublist horder.sublist
  refine Seen.runItem hp hbatch h hr fun hmem => ?_
  exact (List.nodup_append.1 hseen).2.2 i hmem i (List.mem_singleton_self i) rfl

omit hp hbatch [CacheBlind ι]

/-- A finished pass in which each item has run as if alone. -/
structure AsIfAlone (p : Program) (batch : Array ι) (pass : Pass ι) : Prop where
  items : pass.items = batch.map fun x => (p.execute x p.registers).invocation
  valid : pass.valid = batch.countP fun x => (p.execute x p.registers).isValid
  program : pass.program = p

theorem Seen.asIfAlone (h : Seen p batch seen pass) (hseen : seen.Perm (List.range batch.size)) :
    AsIfAlone p batch pass where
  program := h.program
  items := by
    apply Array.ext_getElem?
    intro i
    rw [h.items, Array.getElem?_map]
    cases hx : batch[i]? with
    | none => rfl
    | some x =>
      obtain ⟨hlt, -⟩ := Array.getElem?_eq_some_iff.1 hx
      have hmem : i ∈ seen := hseen.mem_iff.2 (List.mem_range.2 hlt)
      simp [hmem]
  valid := by rw [h.valid, hseen.countP_eq, countP_range]

end Pass

/-- The schedule of a pass makes no difference to items that do not mind what the
variables hold. However the spans of a batch are dealt out to threads and in whatever
order they are taken, each item runs once, ends as it does when it runs alone on the
canonical registers, and is counted if it counts then. What the storage held before and
how many threads have a slot in it is of no account. One thread that takes all the spans,
the last one first, is a case of that. -/
theorem schedule_irrelevant [CacheBlind ι] (hp : p.Reachable) (storage : ThreadStorage)
    (threads size : Nat) {batch : Array ι} (hbatch : ∀ x ∈ batch, p.Indifferent x) :
    (∀ schedule : List (Span × Nat), (schedule.map Prod.fst).Perm (spans batch.size size) →
      (∀ entry ∈ schedule, entry.2 < threads) →
      (Pass.visits schedule).Perm (List.range batch.size) ∧
        (p.dispatchBy storage threads schedule batch).pass.AsIfAlone p batch) ∧
    (p.dispatch storage threads size batch).pass.AsIfAlone p batch := by
  have hany (threads : Nat) {schedule : List (Span × Nat)}
      (hschedule : (schedule.map Prod.fst).Perm (spans batch.size size))
      (hthreads : ∀ entry ∈ schedule, entry.2 < threads) :
      (Pass.visits schedule).Perm (List.range batch.size) ∧
        (p.dispatchBy storage threads schedule batch).pass.AsIfAlone p batch := by
    have hvisits := Pass.visits_perm hschedule
    -- what the slots held before is overwritten
    have hbefore : storage.Holds (fun _ => False) p.Carried := fun _ h => h.elim
    have hready := hbefore.readied .canonical (List.range threads)
    have hseen := Pass.Seen.runSchedule hp.wellFormed hbatch
      (fun thread hthread => hready thread (.inr (List.mem_range.2 hthread))) hthreads
      (hvisits.nodup_iff.2 List.nodup_range)
    exact ⟨hvisits, hseen.asIfAlone hvisits⟩
  refine ⟨fun schedule => hany threads,
    (hany (max threads 1) (Pass.lastFirst_perm batch.size size 0) ?_).2⟩
  intro entry hentry
  obtain ⟨span, -, rfl⟩ := List.mem_map.1 hentry
  exact Nat.lt_of_lt_of_le Nat.zero_lt_one (Nat.le_max_right ..)

/-- A program that counts its invocations in a variable and shows where they are. -/
def tallying : Program :=
  [.push "+=" [.name "n", .literal (.float 1)],
    .push "=" [.name "fragColor", .name "txCoordi"],
    .seal].foldl Program.edit (Program.new .fragment)

theorem tallying_indifferent (f : Fragment) : tallying.Indifferent f := by
  have hrun : tallying.isRunnable = true := by decide +kernel
  have hlinear : tallying.hasBranches = false := by decide +kernel
  have hcode : tallying.instructions.toList =
      [.operation (.arith .add ⟨.slot 0, none⟩ (.literal (.float 1))),
        .operation (.arith .assign ⟨.builtin .rgbColor, none⟩
          (.name ⟨.builtin .pixelCoord, none⟩))] := by
    decide +kernel
  have hvalid : tallying.isInvalid = false := by decide +kernel
  intro slots _ _
  simp only [Program.execute, hrun, Program.run, hlinear, hcode, Program.runLinear, if_true]
  exact ⟨hvalid, rfl, rfl⟩

/-- Two threads, of which one has a slot, with a stale file in it, take the spans of three
fragments. -/
theorem schedule_irrelevant_tallying :
    let batch := #[Fragment.ofPosition 0 0, Fragment.ofPosition 1 0, Fragment.ofPosition 2 0]
    let storage : ThreadStorage := ⟨SnapshotPool.empty, #[some ⟨#[.bool true], #[]⟩]⟩
    let done := tallying.dispatchBy storage 2 [(⟨2, 1⟩, 1), (⟨0, 2⟩, 0)] batch
    done.pass.valid = 3 ∧ done.pass.AsIfAlone tallying batch := by
  intro batch storage done
  have hreach : tallying.Reachable := (Program.Reachable.new .fragment).foldl _
  have hbatch : ∀ f ∈ batch, tallying.Indifferent f := fun f _ => tallying_indifferent f
  obtain ⟨hany, -⟩ := schedule_irrelevant hreach storage 2 2 hbatch
  exact ⟨by decide +kernel, (hany _ (by decide +kernel) (by decide)).2⟩

end Shading
