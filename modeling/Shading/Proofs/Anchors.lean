import Mathlib.Data.List.Basic
import Shading.Invocation

/- Anchor caches. A cache is coherent with an attribute if the anchors it holds for
   a primitive are the tuples of that primitive; a cache that belongs to no
   primitive is coherent with every attribute, whatever a failed gathering left
   in it. Interpolation keeps caches coherent and gives the same value from any
   two coherent ones, so no invocation sees them (`CacheBlind`). -/
namespace Shading

namespace Attribute

variable {a : Attribute} {f : Fragment} {c d : AnchorCache}

/-- The tuple of a corner of a primitive. -/
def tupleAt? (a : Attribute) (key : PrimitiveKey) (k : Corner) : Option Vec4 :=
  a.buffer.tuple? (a.index key.topology key.primitive.toNat (key.vertices.get k).toNat k.index)

/-- A cache that belongs to a primitive holds its tuples. -/
def Coherent (a : Attribute) (c : AnchorCache) : Prop :=
  ∀ key, c.key = some key → ∀ k ∈ key.topology.corners, a.tupleAt? key k = some (c.anchors.get k)

theorem coherent_empty : a.Coherent AnchorCache.empty := by
  intro key h
  simp [AnchorCache.empty] at h

/-! ## Gathering -/

theorem gather_get_of_not_mem {k : Corner} : ∀ {ks : List Corner} {anchors : Corners Vec4},
    k ∉ ks → (a.gather f ks anchors).1.get k = anchors.get k := by
  intro ks
  induction ks with
  | nil => exact fun _ => rfl
  | cons j rest ih =>
    intro anchors hk
    obtain ⟨hj, hrest⟩ := not_or.1 fun h => hk (List.mem_cons.2 h)
    simp only [gather]
    split
    · rfl
    · rw [ih hrest, Corners.get_set, if_neg hj]

/-- A gathering that missed no tuple holds the tuple of each of its corners. -/
theorem gather_get {k : Corner} : ∀ {ks : List Corner} {anchors : Corners Vec4},
    (a.gather f ks anchors).2 = true → k ∈ ks →
    a.cornerTuple? f k = some ((a.gather f ks anchors).1.get k) := by
  intro ks
  induction ks with
  | nil => intro _ _ hk; simp at hk
  | cons j rest ih =>
    intro anchors hall hk
    simp only [gather] at hall ⊢
    split at hall
    · simp at hall
    · next v hv =>
      by_cases hrest : k ∈ rest
      · exact ih hall hrest
      -- a corner that does not come again keeps what is stored for it here
      · obtain rfl : k = j := by simpa [hrest] using hk
        rw [gather_get_of_not_mem hrest, Corners.get_set, if_pos rfl, hv]

theorem gather_all_iff : ∀ (ks : List Corner) (anchors : Corners Vec4),
    (a.gather f ks anchors).2 = true ↔ ∀ k ∈ ks, (a.cornerTuple? f k).isSome := by
  intro ks
  induction ks with
  | nil => simp [gather]
  | cons j rest ih =>
    intro anchors
    simp only [gather, List.forall_mem_cons]
    cases a.cornerTuple? f j with
    | none => simp
    | some v => simp [ih]

/-! ## Coherent caches -/

theorem Coherent.refresh (h : a.Coherent c) (f : Fragment) : a.Coherent (a.refresh f c) := by
  unfold Attribute.refresh
  split
  · exact h
  · intro key hkey k hk
    simp only at hkey
    split at hkey
    · next hall =>
      obtain rfl : f.key = key := by simpa using hkey
      exact gather_get hall hk
    · simp at hkey

theorem refresh_key (h : (a.refresh f c).key.isSome) : (a.refresh f c).key = some f.key := by
  unfold refresh at h ⊢
  split
  · assumption
  · next hkey =>
    simp only [hkey, if_false] at h ⊢
    split
    · rfl
    · next hall => simp [hall] at h

/-- A coherent cache belongs to the primitive of a fragment after the refreshing
exactly if that primitive has all its tuples. -/
theorem Coherent.refresh_isSome_iff (h : a.Coherent c) : (a.refresh f c).key.isSome ↔
    ∀ k ∈ f.topology.corners, (a.cornerTuple? f k).isSome := by
  unfold Attribute.refresh
  split
  · next hkey =>
    -- nothing is gathered: the cache holds the tuples already
    have htuple : ∀ k ∈ f.topology.corners, (a.cornerTuple? f k).isSome := by
      intro k hk
      have hk := h f.key hkey k hk
      exact Option.isSome_iff_exists.2 ⟨_, hk⟩
    simp only [hkey, Option.isSome_some, true_iff]
    exact htuple
  · rw [← gather_all_iff f.topology.corners c.anchors]
    cases h : (a.gather f f.topology.corners c.anchors).2 <;> simp [h]

theorem weigh_congr {s t : Corners Vec4} (h : ∀ k ∈ f.topology.corners, s.get k = t.get k) :
    weigh f s = weigh f t := by
  unfold weigh
  apply List.foldl_ext
  intro sum k hk
  rw [h k hk]

/-- What is interpolated does not depend on the cache. -/
theorem Coherent.interpolate_eq (hc : a.Coherent c) (hd : a.Coherent d) (f : Fragment) :
    (a.interpolate f c).1 = (a.interpolate f d).1 := by
  have hsome : (a.refresh f c).key.isSome = (a.refresh f d).key.isSome :=
    Bool.eq_iff_iff.2 (hc.refresh_isSome_iff.trans hd.refresh_isSome_iff.symm)
  have hblend : (a.refresh f c).key.isSome = true →
      a.blend f (a.refresh f c).anchors = a.blend f (a.refresh f d).anchors := by
    intro h
    have hkc := refresh_key h
    have hkd := refresh_key (hsome ▸ h)
    unfold blend
    rw [weigh_congr (t := (a.refresh f d).anchors)]
    intro k hk
    have hk' := (hc.refresh f _ hkc k hk).symm.trans (hd.refresh f _ hkd k hk)
    exact Option.some.inj hk'
  unfold Attribute.interpolate
  cases a.addressing with
  | perPrimitive => rfl
  | perVertex | perCorner =>
    simp only [← hsome]
    split
    · next h => exact hblend h
    · rfl

theorem Coherent.interpolate (h : a.Coherent c) (f : Fragment) :
    a.Coherent (a.interpolate f c).2 := by
  unfold Attribute.interpolate
  cases a.addressing with
  | perPrimitive => exact h
  | perVertex | perCorner => exact h.refresh f

end Attribute

/-- Invocations that give the same value from any two coherent caches, and leave
them coherent. -/
class CacheBlind (ι : Type) [Invocation ι] : Prop where
  interpolate_eq : ∀ (i : ι) {a : Attribute} {c d : AnchorCache}, a.Coherent c → a.Coherent d →
    (Invocation.interpolate i a c).1 = (Invocation.interpolate i a d).1
  coherent : ∀ (i : ι) {a : Attribute} {c : AnchorCache}, a.Coherent c →
    a.Coherent (Invocation.interpolate i a c).2

instance : CacheBlind Fragment where
  interpolate_eq f _ _ _ hc hd := hc.interpolate_eq hd f
  coherent f _ _ h := h.interpolate f

instance : CacheBlind Vertex where
  interpolate_eq _ _ _ _ _ _ := rfl
  coherent _ _ _ h := h

end Shading
