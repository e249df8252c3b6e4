import Shading.ThreadStorage

/- What the hooks of a storage do to its slots. A thread that is readied, cleared or put to
   work finds what is in its own slot, or the canonical registers, leaves something there
   if it has a slot at all, and leaves the slots of the others alone. Nothing that is
   taken out of the pool shows in any of this, because it is overwritten first. -/
namespace Shading

namespace ThreadStorage

variable (st : ThreadStorage) (canonical : Registers) (thread : Nat)

/-! ## How many there are -/

theorem threads_occupy (r : Registers) : (st.occupy thread r).threads = st.threads :=
  Array.size_setIfInBounds

theorem threads_ready : (st.ready canonical thread).threads = st.threads := by
  unfold ready
  split
  · rfl
  · exact threads_occupy ..
  · exact threads_occupy ..

theorem threads_clear : (st.clear thread).threads = st.threads := by
  unfold clear
  split
  · exact Array.size_setIfInBounds
  · rfl

theorem threads_span {α : Type} (work : Registers → α × Registers) :
    (st.span canonical thread work).2.threads = st.threads := by
  unfold span
  split
  · exact threads_occupy ..
  · exact threads_occupy ..
  · rfl

/-! ## The slot of the thread -/

/-- The register file that a thread gets to work on: what is in its slot, and the canonical
registers if there is nothing or no slot. -/
def fileOf : Registers := st.slots[thread]?.join.getD canonical

theorem occupy_slot (r : Registers) :
    (st.occupy thread r).slots[thread]? = st.slots[thread]?.map fun _ => some r := by
  rw [occupy, Array.getElem?_setIfInBounds, if_pos rfl]
  split
  · next h => rw [Array.getElem?_eq_getElem h, Option.map_some]
  · next h => rw [Array.getElem?_eq_none (Nat.le_of_not_lt h), Option.map_none]

theorem ready_slot : (st.ready canonical thread).slots[thread]? =
    st.slots[thread]?.map fun _ => some canonical := by
  unfold ready
  split
  · next h => rw [h, Option.map_none]
  · exact st.occupy_slot thread canonical
  · exact occupy_slot { st with pool := _ } thread canonical

theorem clear_slot : (st.clear thread).slots[thread]? =
    st.slots[thread]?.map fun _ => none := by
  unfold clear
  split
  · next r h =>
    obtain ⟨hlt, -⟩ := Array.getElem?_eq_some_iff.1 h
    rw [Array.getElem?_setIfInBounds, if_pos rfl, if_pos hlt, h, Option.map_some]
  · next hempty =>
    cases h : st.slots[thread]? with
    | none => rfl
    | some content =>
      cases content with
      | none => rfl
      | some r => exact absurd h (hempty r)

section

variable {α : Type} (work : Registers → α × Registers)

theorem span_fst : (st.span canonical thread work).1 = (work (st.fileOf canonical thread)).1 := by
  unfold span fileOf
  split <;> next h => rw [h]; rfl

theorem span_slot : (st.span canonical thread work).2.slots[thread]? =
    st.slots[thread]?.map fun _ => some (work (st.fileOf canonical thread)).2 := by
  unfold span fileOf
  split
  · next r h => rw [h]; exact (st.occupy_slot thread _).trans (by rw [h]; rfl)
  · next h => rw [h]; exact (occupy_slot { st with pool := _ } thread _).trans (by rw [h]; rfl)
  · next h => rw [h]; rfl

end

/-! ## The slots of the others -/

variable {thread} {other : Nat} (h : thread ≠ other)

include h

theorem occupy_other (r : Registers) : (st.occupy thread r).slots[other]? = st.slots[other]? := by
  rw [occupy, Array.getElem?_setIfInBounds, if_neg h]

theorem ready_other : (st.ready canonical thread).slots[other]? = st.slots[other]? := by
  unfold ready
  split
  · rfl
  · exact st.occupy_other h canonical
  · exact occupy_other { st with pool := _ } h canonical

theorem clear_other : (st.clear thread).slots[other]? = st.slots[other]? := by
  unfold clear
  split
  · rw [Array.getElem?_setIfInBounds, if_neg h]
  · rfl

theorem span_other {α : Type} (work : Registers → α × Registers) :
    (st.span canonical thread work).2.slots[other]? = st.slots[other]? := by
  unfold span
  split
  · exact st.occupy_other h _
  · exact occupy_other { st with pool := _ } h _
  · rfl

end ThreadStorage

end Shading
