import Shading.Execution.State
import Shading.Proofs.Anchors

/- Reading again. To gather the anchors of a fragment a second time leaves a cache as the first
   time did, be it that a tuple is missing and the gathering stops half way; so an attribute
   has the value it had and changes its cache no more (`Attribute.interpolate_settled`).
   Sources are hence read in either order (`Source.read_read`). -/
namespace Shading

theorem Corners.set_get {α : Type} (c : Corners α) (k : Corner) : c.set k (c.get k) = c := by
  cases k <;> rfl

namespace Attribute

variable {a : Attribute} {f : Fragment}

/-- An anchor that is the tuple of its corner already is left so. -/
theorem gather_get_of_eq {k : Corner} {v : Vec4} (hv : a.cornerTuple? f k = some v) :
    ∀ (ks : List Corner) {anchors : Corners Vec4}, anchors.get k = v →
      (a.gather f ks anchors).1.get k = v := by
  intro ks
  induction ks with
  | nil => exact fun h => h
  | cons j rest ih =>
    intro anchors h
    simp only [gather]
    split
    · exact h
    · next w hw =>
      refine ih ?_
      rw [Corners.get_set]
      split
      · next hj =>
        subst hj
        exact Option.some.inj (hw.symm.trans hv)
      · exact h

/-- Gathering over what was gathered changes nothing, be it for want of a tuple. -/
theorem gather_gather (a : Attribute) (f : Fragment) :
    ∀ (ks : List Corner) (anchors : Corners Vec4),
      a.gather f ks (a.gather f ks anchors).1 = a.gather f ks anchors := by
  intro ks
  induction ks with
  | nil => exact fun _ => rfl
  | cons k rest ih =>
    intro anchors
    simp only [gather]
    cases hv : a.cornerTuple? f k with
    | none => rfl
    | some v =>
      have hget : (a.gather f rest (anchors.set k v)).1.get k = v :=
        gather_get_of_eq hv rest (by rw [Corners.get_set, if_pos rfl])
      have hset := Corners.set_get (a.gather f rest (anchors.set k v)).1 k
      rw [hget] at hset
      simp only [hset, ih]

theorem refresh_refresh (a : Attribute) (f : Fragment) (c : AnchorCache) :
    a.refresh f (a.refresh f c) = a.refresh f c := by
  by_cases hkey : (a.refresh f c).key = some f.key
  · exact if_pos hkey
  · have hstale : c.key ≠ some f.key := fun h => hkey (by rw [refresh, if_pos h, h])
    have hc : a.refresh f c = ⟨if (a.gather f f.topology.corners c.anchors).2 then some f.key
        else none, (a.gather f f.topology.corners c.anchors).1⟩ := if_neg hstale
    rw [refresh, if_neg hkey]
    rw [hc]
    simp only [gather_gather]

/-- What is interpolated a second time is the same, and leaves the cache as it is. -/
theorem interpolate_settled (a : Attribute) (f : Fragment) (c : AnchorCache) :
    a.interpolate f (a.interpolate f c).2 = a.interpolate f c := by
  unfold interpolate
  cases a.addressing with
  | perPrimitive => rfl
  | perVertex | perCorner => simp only [refresh_refresh]

end Attribute

/-- Invocations for which what was interpolated is the same a moment later, and changes its cache no
more. -/
class Rereads (ι : Type) [Invocation ι] : Prop where
  interpolate_settled : ∀ (i : ι) (a : Attribute) (c : AnchorCache),
    Invocation.interpolate i a (Invocation.interpolate i a c).2 = Invocation.interpolate i a c

instance : Rereads Fragment where
  interpolate_settled f a c := a.interpolate_settled f c

instance : Rereads Vertex where
  interpolate_settled _ _ _ := rfl

/-! ## Caches in a register file -/

namespace Registers

theorem anchor?_storeAnchor_self {r : Registers} {i : Nat} {c : AnchorCache}
    (hc : r.anchor? i = some c) (d : AnchorCache) : (r.storeAnchor i d).anchor? i = some d := by
  obtain ⟨hi, -⟩ := Array.getElem?_eq_some_iff.1 hc
  rw [anchor?, storeAnchor, Array.getElem?_setIfInBounds_self_of_lt hi]

theorem anchor?_storeAnchor_ne {i j : Nat} (h : i ≠ j) (r : Registers) (d : AnchorCache) :
    (r.storeAnchor i d).anchor? j = r.anchor? j := by
  rw [anchor?, storeAnchor, Array.getElem?_setIfInBounds_ne h]
  rfl

@[simp] theorem size_storeAnchor (r : Registers) (i : Nat) (d : AnchorCache) :
    (r.storeAnchor i d).anchors.size = r.anchors.size :=
  Array.size_setIfInBounds

theorem storeAnchor_storeAnchor (r : Registers) (i : Nat) (c d : AnchorCache) :
    (r.storeAnchor i c).storeAnchor i d = r.storeAnchor i d := by
  simp only [storeAnchor, Array.setIfInBounds_setIfInBounds]

theorem storeAnchor_comm {i j : Nat} (h : i ≠ j) (r : Registers) (c d : AnchorCache) :
    (r.storeAnchor i c).storeAnchor j d = (r.storeAnchor j d).storeAnchor i c := by
  simp only [storeAnchor]
  rw [Array.setIfInBounds_comm _ _ h]

end Registers

/-! ## Sources -/

namespace Source

variable {ι : Type} [Invocation ι] {p : Program}

theorem read_interpolated {s : State ι} {id : Nat} {a : Attribute} {c : AnchorCache}
    (ha : p.interpolated? id = some a) (hc : s.registers.anchor? id = some c) :
    (Source.interpolated id).read p s =
      ((Invocation.interpolate s.invocation a c).1.map fun v => .vec v a.mask,
        { s with registers :=
          s.registers.storeAnchor id (Invocation.interpolate s.invocation a c).2 }) := by
  simp only [read, ha, hc]

/-- What has no cache, or is not there, has no value, and reading it changes nothing. -/
theorem read_interpolated_or (p : Program) (id : Nat) (s : State ι) :
    (∃ a c, p.interpolated? id = some a ∧ s.registers.anchor? id = some c) ∨
      ∀ t : State ι, t.registers.anchors.size = s.registers.anchors.size →
        (Source.interpolated id).read p t = (none, t) := by
  cases ha : p.interpolated? id with
  | none => exact .inr fun t _ => by simp only [read, ha]
  | some a =>
    by_cases hid : id < s.registers.anchors.size
    · exact .inl ⟨a, _, rfl, Array.getElem?_eq_getElem hid⟩
    · refine .inr fun t ht => ?_
      have hnone : t.registers.anchor? id = none :=
        Array.getElem?_eq_none (by rw [ht]; exact Nat.not_lt.1 hid)
      simp only [read, ha, hnone]

/-- Read a second time, a source has the value that it had, and leaves the state as it is. -/
theorem read_settled [Rereads ι] (src : Source) (s : State ι) :
    src.read p (src.read p s).2 = src.read p s := by
  match src with
  | .name _ | .literal _ | .attribute _ => rfl
  | .interpolated id =>
    rcases read_interpolated_or p id s with ⟨a, c, ha, hc⟩ | hnone
    · have hnew := Registers.anchor?_storeAnchor_self hc (Invocation.interpolate s.invocation a c).2
      rw [read_interpolated ha hc, read_interpolated ha (by exact hnew)]
      simp only [Rereads.interpolate_settled, Registers.storeAnchor_storeAnchor]
    · rw [hnone s rfl]
      exact hnone s rfl

/-- After another source is read, a source has the value that it had, and it does not matter for
the caches which of the two is read first. They may be one and the same. -/
theorem read_read [Rereads ι] (src src' : Source) (s : State ι) :
    src.read p (src'.read p s).2 = ((src.read p s).1, (src'.read p (src.read p s).2).2) := by
  match src, src' with
  | _, .name _ | _, .literal _ | _, .attribute _ => rfl
  | .name _, .interpolated id' | .literal _, .interpolated id' | .attribute _, .interpolated id' =>
    change _ = (_, ((Source.interpolated id').read p s).2)
    rcases read_interpolated_or p id' s with ⟨a', c', ha', hc'⟩ | hnone'
    · simp only [read_interpolated ha' hc']
      rfl
    · simp only [hnone' s rfl]
      rfl
  | .interpolated id, .interpolated id' =>
    rcases read_interpolated_or p id' s with ⟨a', c', ha', hc'⟩ | hnone'
    · rcases read_interpolated_or p id s with ⟨a, c, ha, hc⟩ | hnone
      · simp only [read_interpolated ha hc, read_interpolated ha' hc']
        by_cases hid : id' = id
        · -- one attribute twice: the second reading finds what the first one left
          subst hid
          obtain rfl : a = a' := Option.some.inj (ha.symm.trans ha')
          obtain rfl : c = c' := Option.some.inj (hc.symm.trans hc')
          have hnew := Registers.anchor?_storeAnchor_self hc
            (Invocation.interpolate s.invocation a c).2
          rw [read_interpolated ha (by exact hnew)]
          simp only [Rereads.interpolate_settled]
        · -- two attributes: neither reading sees the cache of the other
          have hc₁ := (Registers.anchor?_storeAnchor_ne hid s.registers
            (Invocation.interpolate s.invocation a' c').2).trans hc
          have hc₂ := (Registers.anchor?_storeAnchor_ne (Ne.symm hid) s.registers
            (Invocation.interpolate s.invocation a c).2).trans hc'
          rw [read_interpolated ha (by exact hc₁), read_interpolated ha' (by exact hc₂)]
          simp only [Registers.storeAnchor_comm hid]
      · rw [hnone s rfl]
        simp only [read_interpolated ha' hc']
        exact hnone _ (Registers.size_storeAnchor _ _ _)
    · simp only [hnone' s rfl]
      rcases read_interpolated_or p id s with ⟨a, c, ha, hc⟩ | hnone
      · simp only [read_interpolated ha hc]
        rw [hnone' _ (Registers.size_storeAnchor _ _ _)]
      · rw [hnone s rfl, hnone' s rfl]

end Source

end Shading
