import Shading.Registers

/- Register files for threads. Every thread works on a snapshot of a program's
   canonical registers, kept in the slot of the thread while a pass lasts. A
   snapshot that is not in use lies in a pool, and is overwritten from the
   canonical registers before it is used again. A thread without a slot gets a
   snapshot for the time of one span. -/
namespace Shading

/-- Snapshots that are not in use, the one last put back first. -/
structure SnapshotPool where
  free : List Registers

namespace SnapshotPool

/-- No snapshots. -/
def empty : SnapshotPool := ⟨[]⟩

/-- How many snapshots are not in use. -/
def idle (pool : SnapshotPool) : Nat := pool.free.length

/-- Takes out the snapshot that was put back last, or a copy of the canonical registers
if there is none. Whatever is in it is overwritten from them. -/
def checkout (pool : SnapshotPool) (canonical : Registers) : Registers × SnapshotPool :=
  ((pool.free.headD canonical).resetFrom canonical, ⟨pool.free.tail⟩)

/-- Puts a snapshot back. -/
def restore (pool : SnapshotPool) (snapshot : Registers) : SnapshotPool :=
  ⟨snapshot :: pool.free⟩

end SnapshotPool

/-- A pool, and for each thread the snapshot it works on. -/
structure ThreadStorage where
  pool : SnapshotPool
  slots : Array (Option Registers)

namespace ThreadStorage

/-- Storage for some threads, at least one. -/
def ofThreads (threads : Nat) : ThreadStorage :=
  ⟨SnapshotPool.empty, Array.replicate (max threads 1) none⟩

/-- How many threads have a slot. -/
def threads (st : ThreadStorage) : Nat := st.slots.size

/-- How many snapshots are not in use. -/
def idle (st : ThreadStorage) : Nat := st.pool.idle

/-- Puts a snapshot into the slot of a thread. -/
def occupy (st : ThreadStorage) (thread : Nat) (snapshot : Registers) : ThreadStorage :=
  { st with slots := st.slots.setIfInBounds thread (some snapshot) }

/-- Readies a thread: its snapshot, a new one if it has none, holds the canonical
registers. A thread without a slot is not readied. -/
def ready (st : ThreadStorage) (canonical : Registers) (thread : Nat) : ThreadStorage :=
  match st.slots[thread]? with
  | none => st
  | some (some snapshot) => st.occupy thread (snapshot.resetFrom canonical)
  | some none =>
    let (snapshot, pool) := st.pool.checkout canonical
    { st with pool }.occupy thread snapshot

/-- Clears the slot of a thread; its snapshot goes back to the pool. -/
def clear (st : ThreadStorage) (thread : Nat) : ThreadStorage :=
  match st.slots[thread]? with
  | some (some snapshot) =>
    ⟨st.pool.restore snapshot, st.slots.setIfInBounds thread none⟩
  | _ => st

/-- Works on the snapshot of a thread, which is taken from the pool if the thread
has none; what the work leaves stays in the slot. A thread without a slot
works on a snapshot that goes back to the pool at once. -/
def span {α : Type} (st : ThreadStorage) (canonical : Registers) (thread : Nat)
    (work : Registers → α × Registers) : α × ThreadStorage :=
  match st.slots[thread]? with
  | some (some snapshot) =>
    let (a, left) := work snapshot
    (a, st.occupy thread left)
  | some none =>
    let (snapshot, pool) := st.pool.checkout canonical
    let (a, left) := work snapshot
    (a, { st with pool }.occupy thread left)
  | none =>
    let (snapshot, pool) := st.pool.checkout canonical
    let (a, left) := work snapshot
    (a, { st with pool := pool.restore left })

end ThreadStorage

end Shading
